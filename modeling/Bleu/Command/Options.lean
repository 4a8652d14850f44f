import Bleu.Command.Preferences
import Bleu.Scorer

/-!
# Commands and their options

What a user asks for. The options of the scoring commands override preferences: weights, or else a highest order
with uniform weights, then the method of smoothing, the tokenizer and the format of the report.
-/
namespace Bleu

structure Command.ScoringOptions where
  preferencesFile : Option String := none
  smoothing : Option Smoothing := none
  weights : Option Weights := none
  maxOrder : Option Nat := none
  tokenization : Option Tokenization := none
  format : Option Report.Format := none
  /-- The file to write the report to. -/
  output : Option String := none
deriving DecidableEq, Repr

inductive Command.Catalogue
  | smoothing
  | tokenizers
  | formats
deriving DecidableEq, Repr

inductive Command
  /-- Scores one hypothesis against references, given themselves or one per line in files. -/
  | score (hypothesis : String) (references referenceFiles : List String) (options : Command.ScoringOptions)
  /-- Scores the lines of a file against the lines of the files that fit patterns. -/
  | corpus (hypotheses : String) (references : List String) (withRows : Bool) (workers : Option Nat)
    (options : Command.ScoringOptions)
  | list (catalogue : Command.Catalogue)
  | template (output : String)
  | validate (preferencesFile : String)
deriving DecidableEq, Repr

namespace Command.ScoringOptions

/-- Settings with the options in place of their own. -/
def overrideSettings (o : ScoringOptions) (s : Settings) : Settings :=
  let s :=
    match o.weights, o.maxOrder with
    | some weights, _ => { s with maxOrder := weights.maxOrder, weights := some weights }
    | none, some order => { s with maxOrder := order, weights := none }
    | none, none => s
  { s with
    smoothing := o.smoothing.getD s.smoothing
    tokenization := o.tokenization.getD s.tokenization }

def overridePreferences (o : ScoringOptions) (p : Preferences) : Preferences :=
  { p with
    scoring := o.overrideSettings p.scoring
    report := { p.report with format := o.format.getD p.report.format } }

/-- The preferences of the file, or the standard ones. -/
def basePreferences (o : ScoringOptions) : ExceptT Failure Files.Reading Preferences :=
  match o.preferencesFile with
  | some path => Preferences.ofFile path
  | none => return .standard

def preferences (o : ScoringOptions) : ExceptT Failure Files.Reading Preferences := do
  let preferences := o.overridePreferences (← o.basePreferences)
  preferences.validate
  return preferences

end Command.ScoringOptions

variable [Elementary]

def Command.Preferences.scorer (p : Preferences) : Except Failure Scorer :=
  inContext .scorer (orFault (Scorer.ofSettings p.scoring))

end Bleu
