import Bleu.Report.Format

/-!
# Reports as tables

Rows form a table, whose head stands in front of the first one. A summary is a table under a heading of its own,
set apart by an empty line from rows before it.
-/
namespace Bleu.Report
open Text (joinLines)

def tableHead : String := joinLines ["| Line | BLEU | Precisions |", "|-----:|-----:|------------|"]

def tableRow (cells : List String) : String := "| " ++ " | ".intercalate cells ++ " |"

def markdownRow (places line : Nat) (s : Score) : String :=
  joinLines [tableRow [toString line, Decimal.writePlaces places s.score, precisionList s]]

/-- The rows of the precisions from an order on. -/
def precisionRows : Nat → List Fraction → List String
  | _, [] => []
  | order, p :: rest => tableRow [s!"Precision {order}", p.text] :: precisionRows (order + 1) rest

def markdownSummary (places : Nat) (h : Header) (s : Score) : String :=
  joinLines <|
    [s!"## BLEU ({h.level} level)", "", tableRow ["Metric", "Value"], "|--------|-------|",
      tableRow ["BLEU", Decimal.writePlaces places s.score]] ++
    precisionRows 1 s.precisions ++
    [tableRow ["Brevity penalty", Decimal.writePlaces places s.brevityPenalty],
      tableRow ["Hypothesis length", toString s.hypothesisLength],
      tableRow ["Reference length", toString s.referenceLength], "", "---",
      s!"*Sentences: {h.sentences}, smoothing: {h.smoothing}, tokenizer: {h.tokenizer}*"]

/-- The text of an entry, which depends on whether a row has come before. -/
def Entry.markdown (places : Nat) (afterRow : Bool) : Entry → String
  | row line s => (if afterRow then "" else tableHead) ++ markdownRow places line s
  | summary h s => (if afterRow then "\n" else "") ++ markdownSummary places h s

end Bleu.Report
