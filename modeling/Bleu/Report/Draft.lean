import Bleu.Report.Document
import Bleu.Report.Markdown
import Bleu.Report.Text

/-!
# Reports under way

A `Draft` takes one entry after another. Text and tables are written at once; a document can be written at the end
only, when the last summary and all rows are known.
-/
namespace Bleu.Report

structure Draft where
  style : Style
  written : String := ""
  hasRow : Bool := false
  /-- The last summary, kept for a document. -/
  summary : Option (Header × Score) := none
  /-- The rows, kept for a document. -/
  rows : Array Json.Value := #[]

namespace Draft

def start (style : Style) : Draft where
  style

def keep (d : Draft) : Entry → Draft
  | .row line s => { d with rows := d.rows.push (rowJson line s) }
  | .summary h s => { d with summary := some (h, s) }

def append (d : Draft) (text : String) : Draft := { d with written := d.written ++ text }

def add (d : Draft) (e : Entry) : Draft :=
  match d.style.format with
  | .text => d.append (e.text d.style.places)
  | .markdown => { d.append (e.markdown d.style.places d.hasRow) with hasRow := d.hasRow || e.isRow }
  | .json => d.keep e

def finish (d : Draft) : String :=
  match d.style.format with
  | .json => d.written ++ (documentJson d.summary d.rows.toList).write d.style.layout ++ "\n"
  | _ => d.written

end Draft

def write (style : Style) (entries : List Entry) : String := (entries.foldl Draft.add (.start style)).finish

end Bleu.Report
