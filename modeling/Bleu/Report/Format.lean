import Bleu.Json.Value
import Bleu.Score
import Bleu.Text.Lines

/-!
# Reports

A report is a list of entries, one per scored line or for everything together, written in a style.
-/
namespace Bleu.Report

inductive Format
  | text
  | json
  | markdown
deriving DecidableEq, Repr

namespace Format

def all : List Format := [text, json, markdown]

def name : Format → String
  | text => "text"
  | json => "json"
  | markdown => "markdown"

def description : Format → String
  | text => "Human-readable summary"
  | json => "JSON with precisions, weights and lengths"
  | markdown => "Markdown tables"

end Format

structure Style where
  format : Format := .text
  layout : Json.Layout := .indented
  /-- The decimal places of scores in text and tables. -/
  places : Nat := 4
deriving DecidableEq, Repr

/-- What was scored, and how. -/
structure Header where
  level : String
  /-- The number of scored pairs. -/
  sentences : Nat
  smoothing : String
  tokenizer : String
deriving DecidableEq, Repr

inductive Entry
  /-- The score of a line, counted from one. -/
  | row (line : Nat) (score : Score)
  | summary (header : Header) (score : Score)
deriving DecidableEq, Repr

def Entry.isRow : Entry → Bool
  | row _ _ => true
  | summary _ _ => false

/-- The precisions of a score, from order one on. -/
def precisionList (s : Score) : String := " ".intercalate (s.precisions.map Fraction.text)

end Bleu.Report
