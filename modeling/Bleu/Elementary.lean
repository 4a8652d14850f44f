/-!
# Exponential and logarithm

Scores need two functions on doubles that arithmetic does not give. They come as a class, so that what holds of
scores can be stated of any such functions, or of those that obey given laws.
-/
namespace Bleu

/-- The exponential and the natural logarithm that scores are computed with. -/
class Elementary where
  exp : Float → Float
  log : Float → Float

/-- The functions of the machine's mathematics library. -/
instance Elementary.machine : Elementary where
  exp := Float.exp
  log := Float.log

end Bleu
