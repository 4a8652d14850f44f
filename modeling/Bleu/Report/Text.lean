import Bleu.Report.Format

/-!
# Reports as text

A row is one line with tabs between its columns, a summary a block of four lines.
-/
namespace Bleu.Report
open Text (joinLines)

def textRow (places line : Nat) (s : Score) : String :=
  joinLines ["\t".intercalate [toString line, Decimal.writePlaces places s.score, precisionList s]]

def textSummary (places : Nat) (h : Header) (s : Score) : String :=
  let score := Decimal.writePlaces places s.score
  let penalty := Decimal.writePlaces places s.brevityPenalty
  joinLines [
    s!"BLEU = {score}",
    s!"  precisions:      {precisionList s}",
    s!"  brevity penalty: {penalty} (hypothesis {s.hypothesisLength}, reference {s.referenceLength})",
    s!"  {h.level} level, {h.sentences} sentence(s), smoothing {h.smoothing}, tokenizer {h.tokenizer}"]

def Entry.text (places : Nat) : Entry → String
  | row line s => textRow places line s
  | summary h s => textSummary places h s

end Bleu.Report
