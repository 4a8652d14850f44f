import Bleu.Elementary
import Bleu.Fault

/-!
# The brevity penalty

A hypothesis that is shorter than its references gets a penalty, measured against the reference whose length is
closest to its own; of two lengths equally close the shorter one counts.
-/
namespace Bleu
variable [Elementary]

/-- The distance between two lengths. -/
def distance (a b : Nat) : Nat := (a - b) + (b - a)

/-- Whether the length `a` is to be preferred to `b` for a hypothesis: closer, or as close and shorter. -/
def isCloser (hypothesis a b : Nat) : Bool :=
  distance a hypothesis < distance b hypothesis || distance a hypothesis == distance b hypothesis && a < b

/-- The closest of a list of lengths. -/
def closestLength (hypothesis : Nat) : List Nat → Except Fault Nat
  | [] => .error .emptyReferences
  | first :: rest => .ok (rest.foldl (fun best l => if isCloser hypothesis l best then l else best) first)

/-- The factor for a hypothesis length and the reference length closest to it: one from the reference's length
on, zero for nothing, and `exp (1 - reference / hypothesis)` between. -/
def brevityPenalty (reference hypothesis : Nat) : Float :=
  if hypothesis = 0 then 0
  else if reference ≤ hypothesis then 1
  else Elementary.exp (1 - Float.ofNat reference / Float.ofNat hypothesis)

end Bleu
