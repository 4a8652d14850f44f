import Bleu.Command.Options
import Bleu.Command.Script

/-!
# Checking preferences

The check of a file of preferences says whether commands can follow it, and what the scorer would be like.
-/
namespace Bleu.Command
open Files (Reading)
open Text (joinLines)

/-- The number of orders that settings ask for. -/
def orderCount (s : Settings) : Nat := s.weights.elim s.maxOrder Weights.maxOrder

def verdict : Except Failure Preferences → List String
  | .ok p => [
    "✓ Configuration is valid!",
    s!"  Orders: {orderCount p.scoring}",
    s!"  Smoothing: {p.scoring.smoothing.text}",
    s!"  Tokenizer: {p.scoring.tokenization.name}",
    s!"  Output format: {p.report.format.name}"]
  | .error f => ["✗ Configuration is invalid!", s!"  Error: {f.message}"]

def checkPreferences (path : String) : Reading Script := do
  let result ← (Preferences.ofFile path).run
  return {
    deeds := [.print (joinLines (s!"Validating configuration: {path}" :: verdict result))]
    failure :=
      match result with
      | .ok _ => none
      | .error f => some (f.within .validation) }

end Bleu.Command
