import Bleu.Report.Format

/-!
# Reports as documents

A document holds the fields of the summary and those of its score side by side, then the rows.
-/
namespace Bleu
open Json (Value)

def Fraction.json (f : Fraction) : Value :=
  .object [("numerator", .nat f.numerator), ("denominator", .nat f.denominator)]

def Score.fields (s : Score) : List (String × Value) :=
  [("score", .float s.score), ("precisions", .array (s.precisions.map Fraction.json)),
    ("smoothed", .array (s.smoothed.map .float)), ("weights", .array (s.weights.map .float)),
    ("brevity_penalty", .float s.brevityPenalty), ("hypothesis_length", .nat s.hypothesisLength),
    ("reference_length", .nat s.referenceLength)]

namespace Report

def Header.fields (h : Header) : List (String × Value) :=
  [("level", .string h.level), ("sentences", .nat h.sentences), ("smoothing", .string h.smoothing),
    ("tokenizer", .string h.tokenizer)]

def rowJson (line : Nat) (s : Score) : Value := .object (("line", .nat line) :: s.fields)

def summaryFields : Option (Header × Score) → List (String × Value)
  | some (h, s) => h.fields ++ s.fields
  | none => []

/-- The document of a summary and the documents of rows, which are left out if there are none. -/
def documentJson (summary : Option (Header × Score)) (rows : List Value) : Value :=
  .object (summaryFields summary ++ if rows.isEmpty then [] else [("lines", .array rows)])

end Report

end Bleu
