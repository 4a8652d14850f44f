import Bleu.Files.Path
import Mathlib.Data.List.Basic

/-!
# The order of paths

Paths are compared part by part: two are equal when they have the same parts, however they are written
(`comparePaths_eq_iff`), and the order is that of lists of parts. `sortPaths` puts paths in strictly ascending order
(`pairwise_sortPaths`) without adding or losing one (`mem_of_mem_sortPaths`, `mem_parts_sortPaths`). Its result depends
only on which paths are given, up to the way they are written (`sortPaths_congr`).
-/
namespace Bleu.Files

/-! ## Parts -/

/-- The characters of a name; no other part has any. -/
def Part.text : Part → String
  | name text => text
  | _ => ""

theorem Part.compare_eq : Part.compare = compareLex (compareOn Part.rank) (compareOn Part.text) := by
  funext a b
  cases a <;> cases b <;> rfl

instance : Std.TransCmp Part.compare := by
  rw [Part.compare_eq]
  infer_instance

theorem Part.ext_key {a b : Part} (ranks : a.rank = b.rank) (texts : a.text = b.text) : a = b := by
  cases a <;> cases b <;> simp_all [Part.rank, Part.text]

instance : Std.LawfulEqCmp Part.compare where
  eq_of_compare {a b} same := by
    rw [Part.compare_eq, compareLex_eq_eq] at same
    exact Part.ext_key (Std.LawfulEqOrd.eq_of_compare same.1) (Std.LawfulEqOrd.eq_of_compare same.2)

theorem compareParts_eq (as bs : List Part) : compareParts as bs = List.compareLex Part.compare as bs := by
  induction as generalizing bs with
  | nil => cases bs <;> rfl
  | cons a rest ih =>
    cases bs with
    | nil => rfl
    | cons b others => rw [compareParts, ih, List.compareLex_cons_cons]

/-! ## Paths -/

theorem comparePaths_eq (a b : String) : comparePaths a b = List.compareLex Part.compare (parts a) (parts b) :=
  compareParts_eq _ _

theorem comparePaths_eq_iff {a b : String} : comparePaths a b = .eq ↔ parts a = parts b := by
  rw [comparePaths_eq, Std.LawfulEqCmp.compare_eq_iff_eq]

example : comparePaths "sub//ref.txt" "sub/./ref.txt/" = .eq := by decide +kernel

instance : Std.TransCmp comparePaths where
  eq_swap {a b} := by
    rw [comparePaths_eq, comparePaths_eq]
    exact Std.OrientedCmp.eq_swap
  isLE_trans {a b c} first second := by
    rw [comparePaths_eq] at first second ⊢
    exact Std.TransCmp.isLE_trans first second

/-! ## Without repeats -/

theorem dropRepeats_sublist (paths : List String) : (dropRepeats paths).Sublist paths := by
  fun_induction dropRepeats paths with
  | case1 => exact .slnil
  | case2 path rest next others kept same ih =>
    exact ((List.sublist_cons_self next others).trans (kept ▸ ih)).cons_cons path
  | case3 path rest next others kept different ih => exact (kept ▸ ih).cons_cons path
  | case4 path rest kept ih => exact (List.nil_sublist rest).cons_cons path

theorem mem_parts_dropRepeats (paths : List String) (way : List Part) :
    way ∈ (dropRepeats paths).map parts ↔ way ∈ paths.map parts := by
  fun_induction dropRepeats paths with
  | case1 => rfl
  | case2 path rest next others kept same ih =>
    rw [List.map_cons, List.map_cons, List.mem_cons, List.mem_cons, ← ih, kept, List.map_cons, List.mem_cons,
      ← comparePaths_eq_iff.mp same, ← or_assoc, or_self]
  | case3 path rest next others kept different ih =>
    rw [List.map_cons, List.mem_cons, ← kept, ih, List.map_cons, List.mem_cons]
  | case4 path rest kept ih =>
    rw [kept] at ih
    rw [List.map_cons, List.mem_cons, List.map_cons, List.mem_cons, ← ih]

/-- Paths in ascending order are in strictly ascending order without their repeats. -/
theorem pairwise_dropRepeats {paths : List String} (sorted : paths.Pairwise fun a b => comparePaths a b ≠ .gt) :
    (dropRepeats paths).Pairwise fun a b => comparePaths a b = .lt := by
  fun_induction dropRepeats paths with
  | case1 => exact .nil
  | case2 path rest next others kept same ih =>
    obtain ⟨_, later⟩ := List.pairwise_cons.mp sorted
    obtain ⟨above, strict⟩ := List.pairwise_cons.mp (kept ▸ ih later)
    -- The path takes the place of its repeat, and is below all that the repeat was below.
    refine List.pairwise_cons.mpr ⟨fun other member => ?_, strict⟩
    rw [Std.TransCmp.congr_left same]
    exact above other member
  | case3 path rest next others kept different ih =>
    obtain ⟨below, later⟩ := List.pairwise_cons.mp sorted
    have strict := kept ▸ ih later
    have listed : next ∈ rest := (dropRepeats_sublist rest).subset (by simp [kept])
    have first : comparePaths path next = .lt := by
      cases order : comparePaths path next with
      | lt => rfl
      | eq => exact absurd order different
      | gt => exact absurd order (below next listed)
    refine List.pairwise_cons.mpr ⟨fun other member => ?_, strict⟩
    rcases List.mem_cons.mp member with rfl | further
    · exact first
    · exact Std.TransCmp.lt_trans first ((List.pairwise_cons.mp strict).1 other further)
  | case4 path rest kept ih => exact List.pairwise_singleton _ _

/-! ## In order -/

theorem isLE_comparePaths (a b : String) : (comparePaths a b != .gt) = (comparePaths a b).isLE := by
  cases comparePaths a b <;> rfl

theorem pairwise_sortPaths (paths : List String) : (sortPaths paths).Pairwise fun a b => comparePaths a b = .lt := by
  refine pairwise_dropRepeats ?_
  have trans : ∀ a b c : String, (comparePaths a b).isLE = true → (comparePaths b c).isLE = true →
      (comparePaths a c).isLE = true := fun _ _ _ => Std.TransCmp.isLE_trans
  have total : ∀ a b : String, ((comparePaths a b).isLE || (comparePaths b a).isLE) = true := by
    intro a b
    have swap : comparePaths b a = (comparePaths a b).swap := Std.OrientedCmp.eq_swap
    rw [swap]
    cases comparePaths a b <;> rfl
  simpa [isLE_comparePaths, Ordering.isLE_iff_ne_gt] using List.pairwise_mergeSort trans total paths

theorem mem_of_mem_sortPaths {paths : List String} {path : String} (listed : path ∈ sortPaths paths) : path ∈ paths :=
  (List.mergeSort_perm paths _).subset ((dropRepeats_sublist _).subset listed)

/-- No path is lost, up to the way it is written. -/
theorem mem_parts_sortPaths (paths : List String) (way : List Part) :
    way ∈ (sortPaths paths).map parts ↔ way ∈ paths.map parts := by
  rw [sortPaths, mem_parts_dropRepeats]
  exact ((List.mergeSort_perm paths _).map parts).mem_iff

/-- Up to the way they are written, sorted paths depend only on which paths are given. -/
theorem sortPaths_congr {paths others : List String} (same : ∀ way, way ∈ paths.map parts ↔ way ∈ others.map parts) :
    (sortPaths paths).map parts = (sortPaths others).map parts := by
  have irrefl : ∀ way : List Part, List.compareLex Part.compare way way ≠ .lt := fun way => by
    rw [show List.compareLex Part.compare way way = .eq from Std.ReflCmp.compare_self]
    decide
  have ascending : ∀ given : List String,
      ((sortPaths given).map parts).Pairwise fun a b => List.compareLex Part.compare a b = .lt := fun given =>
    List.pairwise_map.mpr ((pairwise_sortPaths given).imp fun {a b} less => comparePaths_eq a b ▸ less)
  have distinct : ∀ given : List String, ((sortPaths given).map parts).Nodup := fun given =>
    (ascending given).imp fun {a b} less equal => by
      subst equal
      exact irrefl _ less
  have perm := (List.perm_ext_iff_of_nodup (distinct paths) (distinct others)).mpr fun way => by
    rw [mem_parts_sortPaths, mem_parts_sortPaths, same]
  refine perm.eq_of_pairwise (fun a b _ _ less more => ?_) (ascending paths) (ascending others)
  exact absurd (Std.TransCmp.lt_trans less more) (irrefl a)

end Bleu.Files
