/-!
# Rounding a quotient

`roundDiv` takes the natural number nearest to a quotient. When two are equally near, a `Tie` decides.
-/
namespace Bleu.Decimal

/-- The rule for a value half-way between two neighbours. -/
inductive Tie
  | even
  | up
deriving DecidableEq, Repr

/-- The rule applied: `low` or its successor. -/
def Tie.choose (tie : Tie) (low : Nat) : Nat :=
  match tie with
  | .even => if low % 2 = 0 then low else low + 1
  | .up => low + 1

/-- The natural number nearest to `num / den`. -/
def roundDiv (num den : Nat) (tie : Tie) : Nat :=
  let low := num / den
  match compare (2 * (num % den)) den with
  | .lt => low
  | .gt => low + 1
  | .eq => tie.choose low

example : roundDiv 5 2 .even = 2 ∧ roundDiv 7 2 .even = 4 ∧ roundDiv 5 2 .up = 3 ∧ roundDiv 9 4 .up = 2 := by decide

end Bleu.Decimal
