import Bleu.Fault
import Bleu.Text.Blank
import Bleu.Text.Split

/-!
# Weights of the orders

The logarithms of the precisions are averaged with a weight per order, starting at order one. Weights are finite
and not negative, and not all are zero. They need not sum to one: `Weights.restrict` takes those of the orders
that a hypothesis reaches and divides them by their sum.
-/
namespace Bleu

/-- Weights of consecutive orders, at least one. -/
structure Weights where
  values : List Float
  values_ne_nil : values ≠ []
deriving DecidableEq, Repr

namespace Weights

instance : BEq Weights := ⟨fun a b => a.values == b.values⟩

/-- The highest order scored when no weights are given. -/
def defaultMaxOrder : Nat := 4

/-- The sum from left to right. -/
def sum (values : List Float) : Float := values.foldl (· + ·) 0

/-- Whether a weight is one: finite and not negative. -/
def isWeight (value : Float) : Bool := value.isFinite && !(value < 0)

/-- The first entry that is no weight, with its place. -/
def firstInvalid? (values : List Float) : Option (Nat × Float) :=
  (values.zipIdx.find? fun entry => !isWeight entry.1).map fun entry => (entry.2, entry.1)

def ofList (values : List Float) : Except Fault Weights :=
  if given : values = [] then .error .emptyWeights
  else
    match firstInvalid? values with
    | some (index, value) => .error (.invalidWeight index value)
    | none => if sum values ≤ 0 then .error (.unresolvableWeights values.length) else .ok ⟨values, given⟩

/-- The same weight for a positive number of orders. -/
def even (orders : Nat) : Except Fault Weights :=
  if positive : orders = 0 then .error .emptyWeights
  else .ok ⟨List.replicate orders (1 / Float.ofNat orders), by simpa using positive⟩

/-- The number of orders from which on there is no room for their weights: a list stays below half of the bytes that a
word can count, and a weight takes eight of them. Whether the machine has less memory than that is not asked. -/
def capacity : Nat := Nat.pow 2 60

/-- The same weight for a number of orders that comes from outside, if there is room. -/
def uniform (orders : Nat) : Except Fault Weights :=
  if capacity ≤ orders then .error (.noRoomForWeights orders) else even orders

theorem even_eq_ok_iff {orders : Nat} {w : Weights} :
    even orders = .ok w ↔ orders ≠ 0 ∧ w.values = List.replicate orders (1 / Float.ofNat orders) := by
  obtain ⟨values, given⟩ := w
  unfold even
  by_cases zero : orders = 0
  · simp [zero]
  · simp [zero, eq_comm]

theorem uniform_eq_ok_iff {orders : Nat} {w : Weights} :
    uniform orders = .ok w ↔ orders < capacity ∧ even orders = .ok w := by
  unfold uniform
  by_cases full : capacity ≤ orders
  · simp [full, Nat.not_lt.mpr full]
  · simp [full, Nat.not_le.mp full]

/-- The same weight for the orders one to four. -/
def standard : Weights where
  values := List.replicate defaultMaxOrder (1 / Float.ofNat defaultMaxOrder)
  values_ne_nil := by simp [defaultMaxOrder]

def maxOrder (w : Weights) : Nat := w.values.length

/-- The weights of the first `usable` orders, divided by their sum. -/
def restrict (w : Weights) (usable : Nat) : Except Fault Weights :=
  let kept := w.values.take usable
  if some_kept : kept = [] then .error (.unresolvableWeights usable)
  else if sum kept ≤ 0 then .error (.unresolvableWeights usable)
  else .ok ⟨kept.map (· / sum kept), by simpa using some_kept⟩

/-- One entry of a list of weights; blanks around it do not count. -/
def readEntry (entry : List Char) : Except Fault Float :=
  let text := Text.trim entry
  match Decimal.readFloat text with
  | .ok value => .ok value
  | .error cause => .error (.unreadableWeight (String.ofList text) cause)

/-- Weights from numbers with commas between them, such as `0.25,0.25,0.25,0.25`. -/
def ofText (text : String) : Except Fault Weights := do
  ofList (← (Text.splitAt ',' text.toList).mapM readEntry)

end Weights

end Bleu
