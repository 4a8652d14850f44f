import Bleu.Scorer

/-!
# Listing a scorer

A scorer's settings in one line, for diagnosis. The tokenizer at the end is the one in use.
-/
namespace Bleu

/-- A double with its point or exponent. -/
def marked (x : Float) : String := Decimal.write Decimal.markedNotation x

def listRecord (name : String) (fields : List (String × String)) : String :=
  name ++ " \x7b " ++ ", ".intercalate (fields.map fun field => field.1 ++ ": " ++ field.2) ++ " \x7d"

def Tokenization.listing : Tokenization → String
  | simple => "Simple"
  | whitespace => "Whitespace"

def Smoothing.listing : Smoothing → String
  | none => "None"
  | epsilon value => listRecord "Epsilon" [("epsilon", marked value)]
  | addOne => "AddOne"
  | exponential => "Exponential"
  | lengthScaled k => listRecord "LengthScaled" [("k", marked k)]

def Weights.listing : Option Weights → String
  | none => "None"
  | some weights => "Some(Weights([" ++ ", ".intercalate (weights.values.map marked) ++ "]))"

def Settings.listing (s : Settings) : String :=
  listRecord "ScorerConfig"
    [("max_order", toString s.maxOrder), ("tokenizer", s.tokenization.listing), ("weights", Weights.listing s.weights),
      ("smoothing", s.smoothing.listing)]

def Scorer.listing (s : Scorer) : String :=
  listRecord "BleuScorer" [("config", s.settings.listing), ("tokenizer", "\"" ++ s.tokenizer.name ++ "\"")]

end Bleu
