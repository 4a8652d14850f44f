import Bleu.Json.Numbers
import Bleu.Proofs.Double.Sums
import Bleu.Proofs.Outcomes
import Bleu.Proofs.Weights
import Bleu.Settings.Document

/-!
# Weights after restriction

`Weights.Sound` is what weights promise: finite entries, none negative, and a positive sum. All ways to make weights
keep it (`Made.sound`), and restriction keeps it as long as the sum that it divides by is finite
(`Sound.restrict`). Large weights can have an infinite sum. Divided by it they all vanish (`Sound.vanish`), and
`Reachable.sound_iff` says that this is the only way to lose the promise: restricted weights are at most one, and the
sum of such weights is always finite.
-/
namespace Bleu.Weights
open Double

/-- What weights promise. They are then accepted when they are given as a list. -/
structure Sound (w : Weights) : Prop where
  entries : ∀ x ∈ w.values, x.isFinite = true ∧ 0 ≤ x
  positive : 0 < sum w.values
  accepted : w.Accepted

/-- The weights that come from outside, as a list, in a text or in a document, and those made for a number of orders. -/
inductive Made : Weights → Prop
  | list {values : List Float} {w : Weights} (given : ofList values = .ok w) : Made w
  | text {text : String} {w : Weights} (read : ofText text = .ok w) : Made w
  | json {text : List Char} {values : List Float} {w : Weights} (read : Json.readNumbers? text = some values)
      (given : ofList values = .ok w) : Made w
  | toml {v : Toml.Value} {w : Weights} (read : Settings.weights? v = some w) : Made w
  | uniform {orders : Nat} {w : Weights} (made : uniform orders = .ok w) : Made w
  | standard : Made standard

/-- The weights that can be made and restricted any number of times. -/
inductive Reachable : Weights → Prop
  | made {w : Weights} (made : Made w) : Reachable w
  | restrict {w restricted : Weights} {usable : Nat} (reachable : Reachable w)
      (done : w.restrict usable = .ok restricted) : Reachable restricted

/-- Made weights, restricted to orders whose weights have an infinite sum. -/
def Overflown (w : Weights) : Prop :=
  ∃ made usable, Made made ∧ made.restrict usable = .ok w ∧ (sum (made.values.take usable)).isFinite = false

/-! ## Made weights -/

theorem Sound.of_entries {w : Weights} (entries : ∀ x ∈ w.values, x.isFinite = true ∧ 0 ≤ x)
    (positive : 0 < sum w.values) : w.Sound := by
  refine ⟨entries, positive, ofList_eq_ok_iff.mpr ⟨rfl, fun x member => ?_, fun nonpos => ?_⟩⟩
  · exact (isWeight_iff x).mpr (entries x member)
  · exact not_lt_of_le nonpos positive

theorem Sound.of_ofList {values : List Float} {w : Weights} (given : ofList values = .ok w) : w.Sound := by
  obtain ⟨rfl, weights, positive⟩ := ofList_eq_ok_iff.mp given
  have entries : ∀ x ∈ w.values, x.isFinite = true ∧ 0 ≤ x := fun x member => (isWeight_iff x).mp (weights x member)
  have number := number_right (sum_nonneg fun x member => (entries x member).2)
  exact .of_entries entries (pos_of_not_le number positive)

/-- Entries up to one. -/
def Shares (w : Weights) : Prop := ∀ x ∈ w.values, 0 ≤ x ∧ x ≤ 1

/-- Shares keep the promise when one of them is positive. -/
theorem Shares.sound {w : Weights} (shares : w.Shares) (exists_pos : ∃ x ∈ w.values, 0 < x) : w.Sound := by
  obtain ⟨x, member, positive⟩ := exists_pos
  exact .of_entries (fun y listed => ⟨isFinite_of_unit (shares y listed), (shares y listed).1⟩)
    (Double.lt_of_lt_of_le positive (le_sum (fun y listed => (shares y listed).1) x member))

theorem shares_of_even {orders : Nat} {w : Weights} (made : even orders = .ok w) : w.Shares := by
  obtain ⟨nonzero, same⟩ := even_eq_ok_iff.mp made
  have positive : 0 < orders := Nat.pos_of_ne_zero nonzero
  intro x member
  rw [same] at member
  rw [(List.mem_replicate.mp member).2]
  exact div_unit (by decide) (by rw [value_one]; exact EReal.coe_ne_top 1) (ofNat_pos positive)
    (one_le_ofNat positive)

theorem sound_of_even {orders : Nat} {w : Weights} (small : orders < 2 ^ 64) (made : even orders = .ok w) :
    w.Sound := by
  obtain ⟨nonzero, same⟩ := even_eq_ok_iff.mp made
  have share : 0 < 1 / Float.ofNat orders := ofNat_div_pos (m := 1) Nat.one_pos (Nat.pos_of_ne_zero nonzero) small.le
  refine (shares_of_even made).sound ⟨1 / Float.ofNat orders, ?_, share⟩
  rw [same]
  exact List.mem_replicate.mpr ⟨nonzero, rfl⟩

/-- However weights are made, they keep their promise. -/
theorem Made.sound {w : Weights} (made : Made w) : w.Sound := by
  cases made with
  | list given => exact .of_ofList given
  | text read =>
    obtain ⟨values, _, given⟩ := Outcomes.bind_eq_ok.mp read
    exact .of_ofList given
  | json _ given => exact .of_ofList given
  | @toml v _ read =>
    cases v with
    | array items =>
      simp only [Settings.weights?, Option.bind_eq_bind, Option.bind_eq_some_iff] at read
      obtain ⟨values, _, given⟩ := read
      cases outcome : ofList values with
      | ok read =>
        rw [outcome] at given
        cases given
        exact .of_ofList outcome
      | error fault =>
        rw [outcome] at given
        cases given
    | _ => cases read
  | uniform made =>
    obtain ⟨room, made⟩ := uniform_eq_ok_iff.mp made
    exact sound_of_even (room.trans (by decide)) made
  | standard => exact sound_of_even (show 4 < 2 ^ 64 by decide) rfl

/-! ## Restricted weights -/

section Restricted
variable {w restricted : Weights} {usable : Nat}

theorem Sound.take (sound : w.Sound) (usable : Nat) : ∀ x ∈ w.values.take usable, 0 ≤ x ∧ value x ≠ ⊤ := by
  intro x member
  obtain ⟨finite, nonneg⟩ := sound.entries x (List.mem_of_mem_take member)
  exact ⟨nonneg, ((isFinite_iff x).mp finite).2.2⟩

theorem Sound.sum_pos (sound : w.Sound) (done : w.restrict usable = .ok restricted) :
    0 < sum (w.values.take usable) := by
  obtain ⟨_, positive, _⟩ := restrict_eq_ok_iff.mp done
  exact pos_of_not_le (number_right (sum_nonneg fun x member => (sound.take usable x member).1)) positive

/-- Restricted weights are shares, whatever the sum is that divides them. -/
theorem Sound.shares_restrict (sound : w.Sound) (done : w.restrict usable = .ok restricted) : restricted.Shares := by
  have total := sound.sum_pos done
  obtain ⟨_, _, same⟩ := restrict_eq_ok_iff.mp done
  intro x member
  rw [same] at member
  obtain ⟨entry, kept, rfl⟩ := List.mem_map.mp member
  obtain ⟨nonneg, finite⟩ := sound.take usable entry kept
  exact div_unit nonneg finite total (le_sum (fun y listed => (sound.take usable y listed).1) entry kept)

/-- Divided by a finite sum, weights keep their promise. -/
theorem Sound.restrict (sound : w.Sound) (done : w.restrict usable = .ok restricted)
    (finite : (sum (w.values.take usable)).isFinite = true) : restricted.Sound := by
  obtain ⟨_, positive, same⟩ := restrict_eq_ok_iff.mp done
  have entries := sound.take usable
  have weighs : ∃ x ∈ w.values.take usable, 0 < x := by
    by_contra weightless
    exact positive ((sum_nonpos_iff fun x member => (entries x member).1).mpr weightless)
  obtain ⟨m, member, share⟩ := exists_share_pos entries weighs (sound.sum_pos done) ((isFinite_iff _).mp finite).2.2
  refine (sound.shares_restrict done).sound ⟨_, ?_, share⟩
  rw [same]
  exact List.mem_map_of_mem member

/-- Divided by an infinite sum, weights vanish. -/
theorem Sound.vanish (sound : w.Sound) (done : w.restrict usable = .ok restricted)
    (infinite : (sum (w.values.take usable)).isFinite = false) : ∀ x ∈ restricted.values, x ≤ 0 := by
  have total := sound.sum_pos done
  have top : value (sum (w.values.take usable)) = ⊤ := by
    by_contra bounded
    rw [(isFinite_iff_of_nonneg (Double.le_of_lt total)).mpr bounded] at infinite
    cases infinite
  obtain ⟨_, _, same⟩ := restrict_eq_ok_iff.mp done
  intro x member
  rw [same] at member
  obtain ⟨entry, kept, rfl⟩ := List.mem_map.mp member
  obtain ⟨nonneg, finite⟩ := sound.take usable entry kept
  obtain ⟨number, zero⟩ := value_div_infinity nonneg finite total top
  exact (nonpos_iff _).mpr ⟨number, zero.le⟩

/-- The sum of shares is finite, so shares can be restricted again. -/
theorem Shares.isFinite_sum (shares : w.Shares) (usable : Nat) : (sum (w.values.take usable)).isFinite = true := by
  have unit : ∀ x ∈ w.values.take usable, 0 ≤ x ∧ x ≤ 1 := fun x member => shares x (List.mem_of_mem_take member)
  exact (isFinite_iff_of_nonneg (sum_nonneg fun x member => (unit x member).1)).mpr (isFinite_foldl_add unit)

theorem restrict_of_nonpos (nonpos : ∀ x ∈ w.values, x ≤ 0) (usable : Nat) :
    w.restrict usable = .error (.unresolvableWeights usable) :=
  restrict_of_sum_nonpos (sum_nonpos fun x member => nonpos x (List.mem_of_mem_take member))

end Restricted

/-! ## All weights -/

theorem Overflown.vanish {w : Weights} (overflown : w.Overflown) : ∀ x ∈ w.values, x ≤ 0 := by
  obtain ⟨made, usable, given, done, infinite⟩ := overflown
  exact given.sound.vanish done infinite

theorem Overflown.shares {w : Weights} (overflown : w.Overflown) : w.Shares := by
  obtain ⟨made, usable, given, done, _⟩ := overflown
  exact given.sound.shares_restrict done

theorem Overflown.not_sound {w : Weights} (overflown : w.Overflown) : ¬ w.Sound :=
  fun sound => not_lt_of_le (sum_nonpos overflown.vanish) sound.positive

/-- Weights keep their promise through any number of restrictions, unless the first of them overflows. Then they have
vanished and cannot be restricted again. -/
theorem Reachable.cases {w : Weights} (reachable : Reachable w) : w.Sound ∧ (Made w ∨ w.Shares) ∨ w.Overflown := by
  induction reachable with
  | made made => exact .inl ⟨made.sound, .inl made⟩
  | @restrict w restricted usable _ done ih =>
    rcases ih with ⟨sound, made | shares⟩ | overflown
    · cases finite : (sum (w.values.take usable)).isFinite with
      | true => exact .inl ⟨sound.restrict done finite, .inr (sound.shares_restrict done)⟩
      | false => exact .inr ⟨w, usable, made, done, finite⟩
    · exact .inl ⟨sound.restrict done (shares.isFinite_sum usable), .inr (sound.shares_restrict done)⟩
    · rw [restrict_of_nonpos overflown.vanish] at done
      cases done

/-- Weights lose their sum just when they overflow. -/
theorem Reachable.sum_nonpos_iff {w : Weights} (reachable : Reachable w) : sum w.values ≤ 0 ↔ w.Overflown := by
  constructor
  · intro nonpos
    rcases reachable.cases with ⟨sound, _⟩ | overflown
    · exact absurd sound.positive (not_lt_of_le nonpos)
    · exact overflown
  · intro overflown
    exact sum_nonpos overflown.vanish

/-- Weights that can be made are applied as shares of one. -/
theorem applicable_shares {weights : Option Weights} (reachable : ∀ w ∈ weights, w.Reachable) {usable : Nat}
    {applied : Weights} (chosen : applicableWeights weights usable = .ok applied) : applied.Shares := by
  cases weights with
  | none => exact shares_of_even chosen
  | some w =>
    rcases (reachable w rfl).cases with ⟨sound, _⟩ | overflown
    · exact sound.shares_restrict chosen
    · have refused := restrict_of_nonpos overflown.vanish usable
      cases refused.symm.trans chosen

/-- The entries of weights are always finite and never negative. Their sum is positive, and they are accepted as a
list, unless they were restricted to orders whose weights have an infinite sum. Then all of them are zero, and no
further restriction is possible. -/
theorem Reachable.sound_iff {w : Weights} (reachable : Reachable w) :
    (∀ x ∈ w.values, x.isFinite = true ∧ 0 ≤ x) ∧ (w.Sound ↔ ¬ w.Overflown) ∧
      (w.Overflown → (∀ x ∈ w.values, x ≤ 0) ∧ ∀ usable, w.restrict usable = .error (.unresolvableWeights usable)) := by
  have lost : w.Overflown → (∀ x ∈ w.values, x ≤ 0) ∧
      ∀ usable, w.restrict usable = .error (.unresolvableWeights usable) :=
    fun overflown => ⟨overflown.vanish, restrict_of_nonpos overflown.vanish⟩
  rcases reachable.cases with ⟨sound, _⟩ | overflown
  · exact ⟨sound.entries, ⟨fun sound overflown => overflown.not_sound sound, fun _ => sound⟩, lost⟩
  · refine ⟨fun x member => ?_, ⟨fun sound => absurd sound overflown.not_sound, absurd overflown⟩, lost⟩
    exact ⟨isFinite_of_unit (overflown.shares x member), (overflown.shares x member).1⟩

/-- Two large weights overflow and vanish, while the standard weights keep their promise for two orders. -/
theorem sound_iff_two_orders : Reachable ⟨[0, 0], by simp⟩ ∧ ¬ Sound ⟨[0, 0], by simp⟩ ∧
    Reachable ⟨[0.5, 0.5], by simp⟩ ∧ Sound ⟨[0.5, 0.5], by simp⟩ := by
  have given : ofList [1e308, 1e308] = .ok ⟨[1e308, 1e308], by simp⟩ := by decide +kernel
  have vanish : restrict ⟨[1e308, 1e308], by simp⟩ 2 = .ok ⟨[0, 0], by simp⟩ := by decide +kernel
  have infinite : (sum [1e308, 1e308]).isFinite = false := by decide +kernel
  have halve : standard.restrict 2 = .ok ⟨[0.5, 0.5], by simp⟩ := by decide +kernel
  have vanished : Reachable ⟨[0, 0], by simp⟩ := .restrict (.made (.list given)) vanish
  have overflown : Overflown ⟨[0, 0], by simp⟩ := ⟨_, 2, .list given, vanish, infinite⟩
  have halves : Reachable ⟨[0.5, 0.5], by simp⟩ := .restrict (.made .standard) halve
  have positive : ¬ (0.5 : Float) ≤ 0 := by decide
  refine ⟨vanished, fun sound => vanished.sound_iff.2.1.mp sound overflown, halves, halves.sound_iff.2.1.mpr ?_⟩
  exact fun overflown => positive ((halves.sound_iff.2.2 overflown).1 0.5 (by simp))

end Bleu.Weights
