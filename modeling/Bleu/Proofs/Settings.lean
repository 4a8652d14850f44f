import Bleu.Command.Validation
import Bleu.Proofs.Outcomes

/-!
# Accepted settings

Settings are accepted when their highest order is positive and agrees with the weights, or is the standard one, and when
the parameter of the smoothing can be used (`validate_eq_ok_iff`). That does not say whether the weights fit anywhere
(`HasRoom`). If they do, accepted settings have one for each order that they ask for (`exists_effectiveWeights`), and
there is a scorer for them (`Scorer.exists_ofSettings`); otherwise making it breaks down.
-/
namespace Bleu
open Outcomes

namespace Settings

/-- A highest order goes with weights if it counts them or is the standard one. -/
def Agrees (s : Settings) : Prop :=
  ∀ w ∈ s.weights, s.maxOrder = Weights.defaultMaxOrder ∨ s.maxOrder = w.maxOrder

theorem validate_eq_ok_iff (s : Settings) :
    s.validate = .ok () ↔ s.maxOrder ≠ 0 ∧ s.Agrees ∧ s.smoothing.validate = .ok () := by
  obtain ⟨order, tokenization, weights, smoothing⟩ := s
  by_cases zero : order = 0
  · subst zero
    simp [validate, throw_eq_error]
  · cases weights with
    | none => simp [validate, Agrees, zero]
    | some w =>
      by_cases agrees : order = Weights.defaultMaxOrder ∨ order = w.maxOrder
      · have differs : ¬ (order ≠ Weights.defaultMaxOrder ∧ order ≠ w.maxOrder) := by omega
        simp [validate, Agrees, zero, agrees, differs]
      · have differs : order ≠ Weights.defaultMaxOrder ∧ order ≠ w.maxOrder := by omega
        simp [validate, Agrees, zero, differs, throw_eq_error]

/-- Whether there is room for the weights: they are given, or their number stays below the capacity. -/
def HasRoom (s : Settings) : Prop := s.weights = none → s.maxOrder < Weights.capacity

instance (s : Settings) : Decidable s.HasRoom := inferInstanceAs (Decidable (_ → _))

/-- There are as many weights as settings ask for orders. -/
theorem maxOrder_of_effectiveWeights {s : Settings} {w : Weights} (made : s.effectiveWeights = .ok w) :
    w.maxOrder = Command.orderCount s := by
  unfold effectiveWeights at made
  unfold Command.orderCount
  cases given : s.weights with
  | some v =>
    rw [given] at made
    cases made
    rfl
  | none =>
    rw [given] at made
    rw [Weights.maxOrder, (Weights.even_eq_ok_iff.mp (Weights.uniform_eq_ok_iff.mp made).2).2]
    exact List.length_replicate

/-- Accepted settings with room have weights. -/
theorem exists_effectiveWeights {s : Settings} (accepted : s.validate = .ok ()) (room : s.HasRoom) :
    ∃ w, s.effectiveWeights = .ok w ∧ w.maxOrder = Command.orderCount s := by
  obtain ⟨positive, _, _⟩ := (validate_eq_ok_iff s).mp accepted
  obtain ⟨w, made⟩ : ∃ w, s.effectiveWeights = .ok w := by
    unfold effectiveWeights
    cases given : s.weights with
    | some w => exact ⟨w, rfl⟩
    | none =>
      refine ⟨⟨List.replicate s.maxOrder (1 / Float.ofNat s.maxOrder), by simpa using positive⟩, ?_⟩
      exact Weights.uniform_eq_ok_iff.mpr ⟨room given, Weights.even_eq_ok_iff.mpr ⟨positive, rfl⟩⟩
  exact ⟨w, made, maxOrder_of_effectiveWeights made⟩

theorem effectiveWeights_of_not_hasRoom {s : Settings} (full : ¬ s.HasRoom) :
    s.effectiveWeights = .error (.noRoomForWeights s.maxOrder) := by
  obtain ⟨given, large⟩ := Classical.not_imp.mp full
  rw [effectiveWeights, given]
  exact if_pos (Nat.le_of_not_lt large)

end Settings

theorem Scorer.ofSettings_eq_ok_iff {settings : Settings} {s : Scorer} :
    ofSettings settings = .ok s ↔ settings.validate = .ok () ∧ settings.effectiveWeights = .ok s.weights ∧
      s.settings = settings ∧ s.tokenizer = settings.tokenization.tokenizer := by
  obtain ⟨own, weights, tokenizer⟩ := s
  simp only [ofSettings, bind_eq_ok, pure, Except.pure, Except.ok.injEq, mk.injEq]
  constructor
  · rintro ⟨⟨⟩, accepted, w, made, rfl, rfl, rfl⟩
    exact ⟨accepted, made, rfl, rfl⟩
  · rintro ⟨accepted, made, rfl, rfl⟩
    exact ⟨(), accepted, weights, made, rfl, rfl, rfl⟩

/-- There is a scorer for accepted settings with room. -/
theorem Scorer.exists_ofSettings {settings : Settings} (accepted : settings.validate = .ok ())
    (room : settings.HasRoom) : ∃ s : Scorer, ofSettings settings = .ok s := by
  obtain ⟨w, made, _⟩ := Settings.exists_effectiveWeights accepted room
  exact ⟨⟨settings, w, settings.tokenization.tokenizer⟩, ofSettings_eq_ok_iff.mpr ⟨accepted, made, rfl, rfl⟩⟩

theorem Scorer.ofSettings_of_not_hasRoom {settings : Settings} (accepted : settings.validate = .ok ())
    (full : ¬ settings.HasRoom) : ofSettings settings = .error (.noRoomForWeights settings.maxOrder) := by
  rw [ofSettings, accepted, ok_bind, Settings.effectiveWeights_of_not_hasRoom full, error_bind]

end Bleu
