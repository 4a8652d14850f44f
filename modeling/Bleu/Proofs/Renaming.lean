import Bleu.Proofs.Statistics

/-!
# Renaming tokens

Scores look at tokens only to tell which of them are the same as a token of the references. So a map of tokens changes
no score if it keeps the tokens of the references apart, from each other and from all other tokens
(`Distinguishes`). The others may be merged: the windows of the hypothesis then get fewer and more frequent, but those
that occur in a reference are counted as before (`matchCount_map`).
-/
namespace Bleu
open Ngram Outcomes
variable {α β : Type}

/-- A token of one of the references. -/
def Occurs (references : List (List α)) (token : α) : Prop := ∃ reference ∈ references, token ∈ reference

/-- A map that is injective on the tokens of the references and takes no other token to one of their images. -/
structure Distinguishes (f : α → β) (references : List (List α)) : Prop where
  injective : ∀ x y, Occurs references x → Occurs references y → f x = f y → x = y
  apart : ∀ x y, ¬ Occurs references x → Occurs references y → f x ≠ f y

/-- A map that leaves the tokens of the references as they are, and the others among the others. -/
structure Replaces (f : α → α) (references : List (List α)) : Prop where
  kept : ∀ x, Occurs references x → f x = x
  others : ∀ x, ¬ Occurs references x → ¬ Occurs references (f x)

namespace Distinguishes
variable {f : α → β} {references : List (List α)}

theorem of_injective (injective : Function.Injective f) (references : List (List α)) : Distinguishes f references where
  injective _ _ _ _ same := injective same
  apart _ _ outside inside same := outside (injective same ▸ inside)

theorem of_replaces {f : α → α} (replaces : Replaces f references) : Distinguishes f references where
  injective x y left right same := by rwa [replaces.kept x left, replaces.kept y right] at same
  apart x y outside inside same := by
    rw [replaces.kept y inside] at same
    exact replaces.others x outside (same ▸ inside)

theorem eq (tells : Distinguishes f references) {x y : α} (inside : Occurs references y) (same : f x = f y) : x = y := by
  by_cases occurs : Occurs references x
  · exact tells.injective x y occurs inside same
  · exact absurd same (tells.apart x y occurs inside)

/-- Sequences with tokens of the references are told from all others. -/
theorem map_eq_iff (tells : Distinguishes f references) {g : List α} (inside : ∀ y ∈ g, Occurs references y)
    (h : List α) : h.map f = g.map f ↔ h = g := by
  constructor
  · intro same
    induction g generalizing h with
    | nil => simpa using same
    | cons y rest ih =>
      cases h with
      | nil => simp at same
      | cons x others =>
        simp only [List.map_cons, List.cons.injEq] at same
        rw [tells.eq (inside y (by simp)) same.1, ih (fun z member => inside z (by simp [member])) others same.2]
  · rintro rfl
    rfl

end Distinguishes

/-! ## Matches -/

theorem windows_map (f : α → β) (n : Nat) (xs : List α) : windows n (xs.map f) = (windows n xs).map (List.map f) := by
  induction xs with
  | nil => rfl
  | cons x rest ih =>
    simp only [List.map_cons, windows, List.length_map, ih]
    split
    · simp [List.map_take]
    · rfl

theorem occurs_of_mem_window {references : List (List α)} {n : Nat} (positive : 0 < n) {g : List α}
    (member : g ∈ references.flatMap (windows n)) : ∀ y ∈ g, Occurs references y := by
  obtain ⟨reference, listed, window⟩ := List.mem_flatMap.mp member
  obtain ⟨_, segment⟩ := (mem_windows positive g reference).mp window
  intro y inside
  exact ⟨reference, listed, segment.subset inside⟩

section
variable [DecidableEq α] [DecidableEq β] {f : α → β} {references : List (List α)}

theorem Distinguishes.count_windows (tells : Distinguishes f references) {g : List α}
    (inside : ∀ y ∈ g, Occurs references y) (n : Nat) (xs : List α) :
    (windows n (xs.map f)).count (g.map f) = (windows n xs).count g := by
  rw [windows_map, List.count, List.count, List.countP_map]
  refine List.countP_congr fun h _ => ?_
  simp [tells.map_eq_iff inside]

theorem Distinguishes.greatestCount_map (tells : Distinguishes f references) {g : List α}
    (inside : ∀ y ∈ g, Occurs references y) (n : Nat) :
    greatestCount (references.map (List.map f)) n (g.map f) = greatestCount references n g := by
  unfold greatestCount
  rw [List.map_map]
  congr 1
  refine List.map_congr_left fun reference _ => ?_
  exact tells.count_windows inside n reference

/-- The matches can be added up over the windows of the references instead of those of the hypothesis. -/
theorem matchCount_eq_sum_references (references : List (List α)) (hypothesis : List α) (n : Nat) :
    matchCount references hypothesis n = ∑ g ∈ (references.flatMap (windows n)).toFinset,
      min ((windows n hypothesis).count g) (greatestCount references n g) := by
  refine Finset.sum_congr_of_eq_on_inter (fun g _ outside => ?_) (fun g _ outside => ?_) fun g _ _ => rfl
  · have absent : ∀ reference ∈ references, g ∉ windows n reference := by
      simpa [List.mem_flatMap] using outside
    have unmatched : greatestCount references n g ≤ 0 := by
      rw [greatestCount_le_iff]
      intro reference listed
      rw [List.count_eq_zero.mpr (absent reference listed)]
    omega
  · have absent : g ∉ windows n hypothesis := by simpa using outside
    rw [List.count_eq_zero.mpr absent, Nat.zero_min]

/-- A map that tells the tokens of the references from the others keeps the matches of every order. -/
theorem Distinguishes.matchCount_map (tells : Distinguishes f references) {n : Nat} (positive : 0 < n)
    (hypothesis : List α) :
    matchCount (references.map (List.map f)) (hypothesis.map f) n = matchCount references hypothesis n := by
  have windowed : ((references.map (List.map f)).flatMap (windows n)).toFinset =
      (references.flatMap (windows n)).toFinset.image (List.map f) := by
    ext g
    simp [windows_map, List.flatMap_map, ← List.map_flatMap]
  -- The windows of the hypothesis may be merged, so the sums cannot be compared over them.
  rw [matchCount_eq_sum_references, matchCount_eq_sum_references, windowed, Finset.sum_image]
  · refine Finset.sum_congr rfl fun g member => ?_
    have inside := occurs_of_mem_window positive (List.mem_toFinset.mp member)
    rw [tells.count_windows inside, tells.greatestCount_map inside]
  · intro h _ g member same
    have inside := occurs_of_mem_window positive (List.mem_toFinset.mp member)
    exact (tells.map_eq_iff inside h).mp same

/-! ## Scores -/

theorem Distinguishes.modifiedPrecisions_map (tells : Distinguishes f references) (given : references ≠ [])
    (hypothesis : List α) (maxOrder : Nat) :
    modifiedPrecisions (references.map (List.map f)) (hypothesis.map f) maxOrder =
      modifiedPrecisions references hypothesis maxOrder := by
  rcases Nat.eq_zero_or_pos maxOrder with rfl | positive
  · rfl
  · have mapped : references.map (List.map f) ≠ [] := by simpa using given
    rw [modifiedPrecisions_eq positive mapped, modifiedPrecisions_eq positive given, List.length_map]
    refine congrArg Except.ok (List.map_congr_left fun i _ => ?_)
    simp only [reachedPrecision, tells.matchCount_map (Nat.succ_pos i), List.length_map]

theorem Distinguishes.ofPair_map (tells : Distinguishes f references) (hypothesis : List α) (maxOrder : Nat) :
    Statistics.ofPair (references.map (List.map f)) (hypothesis.map f) maxOrder =
      Statistics.ofPair references hypothesis maxOrder := by
  by_cases given : references = []
  · subst given
    rfl
  · have lengths : (references.map (List.map f)).map List.length = references.map List.length := by
      simp [Function.comp_def]
    unfold Statistics.ofPair
    rw [tells.modifiedPrecisions_map given, lengths, List.length_map]

variable [Elementary]

/-- Whether a map of tokens changes no score against the references, and no refusal. -/
def KeepsScores (f : α → β) (references : List (List α)) : Prop :=
  ∀ (hypothesis : List α) (weights : Option Weights) (smoother : Smoother),
    Score.ofSentence (references.map (List.map f)) (hypothesis.map f) weights smoother =
      Score.ofSentence references hypothesis weights smoother

theorem Distinguishes.keepsScores (tells : Distinguishes f references) : KeepsScores f references := by
  intro hypothesis weights smoother
  rw [Score.ofSentence_eq, Score.ofSentence_eq, tells.ofPair_map]

/-- Maps that tell the tokens of the references from each other and from all other tokens change no score. So a
renaming changes none, and nothing depends on which other tokens stand in the hypothesis, or on how many different
ones. -/
theorem keepsScores_of_distinguishes (references : List (List α)) :
    (∀ f : α → β, Distinguishes f references → KeepsScores f references) ∧
      (∀ f : α → β, Function.Injective f → KeepsScores f references) ∧
      ∀ f : α → α, Replaces f references → KeepsScores f references := by
  refine ⟨fun f tells => ?_, fun f injective => ?_, fun f replaces => ?_⟩
  · exact tells.keepsScores
  · exact (Distinguishes.of_injective injective references).keepsScores
  · exact (Distinguishes.of_replaces replaces).keepsScores

end

/-- Tokens become lists of characters, then marks of the two tokens of the only reference; and the tokens that it does
not have become one. -/
theorem keepsScores_three_maps :
    (Function.Injective String.toList ∧ KeepsScores String.toList [["a", "b"]]) ∧
      (Distinguishes (fun token => (token == "a", token == "b")) [["a", "b"]] ∧
        KeepsScores (fun token => (token == "a", token == "b")) [["a", "b"]]) ∧
      Replaces (fun token => if token = "a" ∨ token = "b" then token else "z") [["a", "b"]] ∧
      KeepsScores (fun token => if token = "a" ∨ token = "b" then token else "z") [["a", "b"]] := by
  have inside : ∀ token, Occurs [["a", "b"]] token ↔ token = "a" ∨ token = "b" := by simp [Occurs]
  have injective : Function.Injective String.toList := fun _ _ same => String.toList_inj.mp same
  have tells : Distinguishes (fun token => (token == "a", token == "b")) [["a", "b"]] := by
    constructor
    · intro x y left right same
      rw [inside] at left right
      rcases left with rfl | rfl <;> rcases right with rfl | rfl <;> simp at same ⊢
    · intro x y outside occurs same
      rw [inside] at outside occurs
      rcases occurs with rfl | rfl <;> simp_all
  have replaces : Replaces (fun token => if token = "a" ∨ token = "b" then token else "z") [["a", "b"]] := by
    constructor
    · intro x occurs
      exact if_pos ((inside x).mp occurs)
    · intro x outside
      rw [inside] at outside ⊢
      simp [outside]
  exact ⟨⟨injective, (keepsScores_of_distinguishes [["a", "b"]]).2.1 _ injective⟩,
    ⟨tells, (keepsScores_of_distinguishes [["a", "b"]]).1 _ tells⟩,
    replaces, (keepsScores_of_distinguishes (β := String) [["a", "b"]]).2.2 _ replaces⟩

end Bleu
