import Bleu.Proofs.Settings
import Mathlib.Data.List.DropRight
import Mathlib.Data.List.Induction

/-!
# Settings by their last changes

Settings that are built by changes are known from the last change of each kind (`lastSet`), with one exception: weights
bring the highest order with them, so that only the changes after the last weights can set another one (`resultingOrder`).
`foldl_adjust_eq` says so of changes in any order and number, one change more at a time, and `build_of_changes` says when
the settings can be used.
-/
namespace Bleu.Settings

/-! ## What a change sets -/

namespace Adjustment

def maxOrder? : Adjustment → Option Nat
  | maxOrder order => some order
  | _ => none

def weights? : Adjustment → Option Weights
  | weights w => some w
  | _ => none

def smoothing? : Adjustment → Option Smoothing
  | smoothing method => some method
  | _ => none

def tokenization? : Adjustment → Option Tokenization
  | tokenization t => some t
  | _ => none

end Adjustment

variable {β : Type}

/-- What the last of the changes of a kind sets, if there are any. -/
def lastSet (set? : Adjustment → Option β) (changes : List Adjustment) : Option β := (changes.filterMap set?).getLast?

/-- The changes after the last ones to the weights; all of them if none sets weights. -/
def afterWeights (changes : List Adjustment) : List Adjustment := changes.rtakeWhile fun change => change.weights?.isNone

/-- The highest order that was set since the weights, else the number of these, else the standard one. -/
def resultingOrder (changes : List Adjustment) : Nat :=
  (lastSet (·.maxOrder?) (afterWeights changes)).getD
    ((lastSet (·.weights?) changes).elim Weights.defaultMaxOrder Weights.maxOrder)

@[simp] theorem lastSet_nil (set? : Adjustment → Option β) : lastSet set? [] = none := rfl

/-- The last change decides about what it sets, and leaves the rest to the changes before. -/
@[simp] theorem lastSet_concat (set? : Adjustment → Option β) (changes : List Adjustment) (change : Adjustment) :
    lastSet set? (changes ++ [change]) = (set? change).or (lastSet set? changes) := by
  unfold lastSet
  cases set : set? change with
  | none => simp [set]
  | some value => simp [set]

theorem afterWeights_concat (changes : List Adjustment) (change : Adjustment) :
    afterWeights (changes ++ [change]) = if change.weights?.isNone then afterWeights changes ++ [change] else [] :=
  List.rtakeWhile_concat _ changes change

theorem resultingOrder_weights (changes : List Adjustment) (w : Weights) :
    resultingOrder (changes ++ [.weights w]) = w.maxOrder := by
  simp [resultingOrder, afterWeights_concat, Adjustment.weights?]

/-- A change of anything but weights sets the highest order, or keeps it. -/
theorem resultingOrder_concat (changes : List Adjustment) {change : Adjustment} (other : change.weights? = none) :
    resultingOrder (changes ++ [change]) = change.maxOrder?.getD (resultingOrder changes) := by
  unfold resultingOrder
  rw [afterWeights_concat]
  cases set : change.maxOrder? with
  | none => simp [other, set]
  | some order => simp [other, set]

/-! ## Changes in a row -/

/-- Settings after changes of any kind in any order. -/
theorem foldl_adjust_eq (changes : List Adjustment) :
    changes.foldl adjust standard =
      { maxOrder := resultingOrder changes
        tokenization := (lastSet (·.tokenization?) changes).getD .simple
        weights := lastSet (·.weights?) changes
        smoothing := (lastSet (·.smoothing?) changes).getD .none } := by
  induction changes using List.reverseRecOn with
  | nil => rfl
  | append_singleton before change ih =>
    rw [List.foldl_concat, ih]
    simp only [lastSet_concat]
    cases change with
    | maxOrder order =>
      rw [resultingOrder_concat before rfl]
      rfl
    | weights w =>
      rw [resultingOrder_weights]
      rfl
    | smoothing method =>
      rw [resultingOrder_concat before rfl]
      rfl
    | tokenization t =>
      rw [resultingOrder_concat before rfl]
      rfl

theorem build_eq_ok_iff {changes : List Adjustment} {s : Settings} :
    build changes = .ok s ↔ s = changes.foldl adjust standard ∧ s.validate = .ok () := by
  simp only [build, Outcomes.bind_eq_ok, pure, Except.pure, Except.ok.injEq]
  constructor
  · rintro ⟨⟨⟩, accepted, rfl⟩
    exact ⟨rfl, accepted⟩
  · rintro ⟨rfl, accepted⟩
    exact ⟨(), accepted, rfl⟩

/-- Whatever changes are made, the settings can be used just when the highest order that results is positive and is four
or the number of the weights, if there are any, and the last smoothing has a valid parameter. They are then made of what
was set last, and have as many weights as were given, or else one for each order, if there is room for these. -/
theorem build_of_changes (changes : List Adjustment) :
    ((∃ s, build changes = .ok s) ↔
      resultingOrder changes ≠ 0 ∧
        (∀ w, lastSet (·.weights?) changes = some w →
          resultingOrder changes = 4 ∨ resultingOrder changes = w.values.length) ∧
        ((lastSet (·.smoothing?) changes).getD .none).validate = .ok ()) ∧
    ∀ s, build changes = .ok s →
      s.maxOrder = resultingOrder changes ∧
        s.weights = lastSet (·.weights?) changes ∧
        s.smoothing = (lastSet (·.smoothing?) changes).getD .none ∧
        s.tokenization = (lastSet (·.tokenization?) changes).getD .simple ∧
        (s.HasRoom → ∃ w, s.effectiveWeights = .ok w ∧
          w.values.length = (lastSet (·.weights?) changes).elim (resultingOrder changes) (·.values.length)) ∧
        (¬ s.HasRoom → s.effectiveWeights = .error (.noRoomForWeights (resultingOrder changes))) := by
  simp only [build_eq_ok_iff, foldl_adjust_eq]
  constructor
  · simp only [exists_eq_left, validate_eq_ok_iff]
    rfl
  · rintro s ⟨rfl, accepted⟩
    exact ⟨rfl, rfl, rfl, rfl, exists_effectiveWeights accepted, effectiveWeights_of_not_hasRoom⟩

/-- Two weights after seven orders, and the standard highest order after the weights. -/
def reorderings : List Adjustment :=
  [.maxOrder 7, .weights ⟨[0.7, 0.3], by simp⟩, .smoothing .addOne, .maxOrder 4, .smoothing .exponential]

/-- The four orders at last are those of two weights. Without weights the greatest number of orders is accepted as well,
but there is no room for their weights. -/
theorem build_of_reorderings :
    (∃ s, build [.maxOrder (Decimal.wordSize - 1)] = .ok s ∧
      s.effectiveWeights = .error (.noRoomForWeights (Decimal.wordSize - 1))) ∧
    ∃ s, build reorderings = .ok s ∧ s.maxOrder = 4 ∧ s.smoothing = .exponential ∧
      ∃ w, s.effectiveWeights = .ok w ∧ w.values.length = 2 := by
  obtain ⟨usable, made⟩ := build_of_changes reorderings
  have agrees : ∀ w, lastSet (·.weights?) reorderings = some w →
      resultingOrder reorderings = 4 ∨ resultingOrder reorderings = w.values.length := by
    intro w _
    exact .inl (by decide)
  obtain ⟨s, built⟩ := usable.mpr ⟨by decide, agrees, rfl⟩
  obtain ⟨order, weights, smoothing, _, fits, _⟩ := made s built
  obtain ⟨w, effective, count⟩ := fits fun absent => absurd (weights.symm.trans absent) (by decide)
  obtain ⟨large, grown⟩ := build_of_changes [.maxOrder (Decimal.wordSize - 1)]
  obtain ⟨t, accepted⟩ := large.mpr ⟨by decide, nofun, rfl⟩
  obtain ⟨orders, missing, _, _, _, breaks⟩ := grown t accepted
  have full : ¬ t.HasRoom := fun room => absurd (room missing) (by rw [orders]; decide +kernel)
  exact ⟨⟨t, accepted, breaks full⟩, s, built, order.trans (by decide), smoothing, w, effective, count⟩

end Bleu.Settings
