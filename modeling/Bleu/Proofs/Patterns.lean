import Bleu.Files.Resolve
import Bleu.Proofs.Paths
import Bleu.Proofs.Readings

/-!
# Resolving patterns

Patterns are resolved when each of them matches some file; the files are then all those that a pattern matches, in
strictly ascending order (`Union`). Otherwise the first pattern that does not match any, or is not well formed, decides
the fault (`Refuses`). Both hold for every way to list the paths of a pattern, and it matters neither in which order
patterns are given nor how often (`resolveBy_union`).
-/
namespace Bleu.Files
open Outcomes

section
variable (listing : Listing) (tree : FileTree)

/-- A pattern matches a file: its path is listed, and it is that of a file. -/
def Matches (pattern path : String) : Prop :=
  ∃ paths, (listing pattern).eval tree = some paths ∧ path ∈ paths ∧ tree.kindAt? path = some .file

/-- Why a pattern cannot be resolved. -/
inductive Refuses (pattern : String) : PatternFault → Prop
  | invalid (unlisted : (listing pattern).eval tree = none) : Refuses pattern (.invalid pattern)
  | unmatched {paths : List String} (listed : (listing pattern).eval tree = some paths)
      (missing : ∀ path ∈ paths, tree.kindAt? path ≠ some .file) : Refuses pattern (.unmatched pattern)

/-- The files that patterns match, each once and in ascending order. -/
structure Union (patterns files : List String) : Prop where
  ascending : files.Pairwise fun a b => comparePaths a b = .lt
  matched : ∀ path ∈ files, ∃ pattern ∈ patterns, Matches listing tree pattern path
  complete : ∀ pattern ∈ patterns, ∀ path, Matches listing tree pattern path →
    ∃ same ∈ files, comparePaths same path = .eq

end

section
variable {listing : Listing} {tree : FileTree}

/-! ## One pattern -/

theorem eval_keepKind (kind : Kind) (paths : List String) :
    (keepKind kind paths).eval tree = paths.filter fun path => tree.kindAt? path = some kind := by
  induction paths with
  | nil => rfl
  | cons path rest ih =>
    simp only [keepKind, Reading.eval_bind, ih, List.filter_cons, decide_eq_true_iff]
    rfl

theorem eval_resolvePattern (pattern : String) :
    (resolvePattern listing pattern).run.eval tree =
      match (listing pattern).eval tree with
      | none => .error (.invalid pattern)
      | some paths =>
        if (paths.filter fun path => tree.kindAt? path = some .file).isEmpty then .error (.unmatched pattern)
        else .ok (paths.filter fun path => tree.kindAt? path = some .file) := by
  simp only [resolvePattern, Reading.eval_run_bind, Reading.eval_run_liftReading, ok_bind]
  cases (listing pattern).eval tree with
  | none => rfl
  | some paths =>
    simp only [Reading.eval_run_bind, Reading.eval_run_liftReading, ok_bind, eval_keepKind]
    split
    · rfl
    · rfl

/-- The files that one pattern comes to are those that it matches, and there is at least one. -/
theorem of_resolvePattern {pattern : String} {files : List String}
    (resolved : (resolvePattern listing pattern).run.eval tree = .ok files) :
    files ≠ [] ∧ ∀ path, path ∈ files ↔ Matches listing tree pattern path := by
  rw [eval_resolvePattern] at resolved
  unfold Matches
  split at resolved
  next => cases resolved
  next paths listed =>
    split at resolved
    next => cases resolved
    next nonempty =>
      cases resolved
      exact ⟨fun empty => nonempty (List.isEmpty_iff.mpr empty), fun path => by simp [listed]⟩

theorem exists_resolvePattern_iff (pattern : String) :
    (∃ files, (resolvePattern listing pattern).run.eval tree = .ok files) ↔
      ∃ path, Matches listing tree pattern path := by
  constructor
  · rintro ⟨files, resolved⟩
    obtain ⟨nonempty, matched⟩ := of_resolvePattern resolved
    obtain ⟨path, listed⟩ := List.exists_mem_of_ne_nil files nonempty
    exact ⟨path, (matched path).mp listed⟩
  · rintro ⟨path, paths, listed, member, file⟩
    have kept : path ∈ paths.filter fun path => tree.kindAt? path = some .file := by simp [member, file]
    refine ⟨paths.filter fun path => tree.kindAt? path = some .file, ?_⟩
    rw [eval_resolvePattern, listed]
    exact if_neg fun empty => List.ne_nil_of_mem kept (List.isEmpty_iff.mp empty)

theorem resolvePattern_eq_error_iff (pattern : String) (fault : PatternFault) :
    (resolvePattern listing pattern).run.eval tree = .error fault ↔ Refuses listing tree pattern fault := by
  rw [eval_resolvePattern]
  constructor
  · intro refused
    split at refused
    next unlisted =>
      cases refused
      exact .invalid unlisted
    next paths listed =>
      split at refused
      next missing =>
        cases refused
        exact .unmatched listed (by simpa using missing)
      next => cases refused
  · intro refuses
    cases refuses with
    | invalid unlisted => rw [unlisted]
    | unmatched listed missing =>
      rw [listed]
      exact if_pos (by simpa using missing)

/-! ## Several patterns -/

theorem eval_resolveBy (patterns : List String) :
    (resolveBy listing patterns).run.eval tree =
      (do return sortPaths (← patterns.mapM fun pattern => (resolvePattern listing pattern).run.eval tree).flatten) := by
  rw [resolveBy, Reading.eval_run_bind, Reading.eval_run_mapM]
  rfl

theorem exists_resolveBy_iff (patterns : List String) :
    (∃ files, (resolveBy listing patterns).run.eval tree = .ok files) ↔
      ∀ pattern ∈ patterns, ∃ path, Matches listing tree pattern path := by
  simp only [← exists_resolvePattern_iff, ← exists_mapM_iff, eval_resolveBy, bind_eq_ok]
  constructor
  · rintro ⟨_, lists, resolved, _⟩
    exact ⟨lists, resolved⟩
  · rintro ⟨lists, resolved⟩
    exact ⟨_, lists, resolved, rfl⟩

theorem resolveBy_eq_error_iff (patterns : List String) (fault : PatternFault) :
    (resolveBy listing patterns).run.eval tree = .error fault ↔
      ∃ before pattern after, patterns = before ++ pattern :: after ∧
        (∀ earlier ∈ before, ∃ path, Matches listing tree earlier path) ∧ Refuses listing tree pattern fault := by
  simp only [← exists_resolvePattern_iff, ← resolvePattern_eq_error_iff, ← mapM_eq_error_iff, eval_resolveBy,
    bind_eq_error]
  simp [pure, Except.pure]

/-- The files of several patterns are the paths of the files they match, sorted. -/
theorem exists_of_resolveBy {patterns files : List String}
    (resolved : (resolveBy listing patterns).run.eval tree = .ok files) :
    ∃ found, files = sortPaths found ∧
      ∀ path, path ∈ found ↔ ∃ pattern ∈ patterns, Matches listing tree pattern path := by
  rw [eval_resolveBy] at resolved
  obtain ⟨lists, each, sorted⟩ := bind_eq_ok.mp resolved
  cases sorted
  refine ⟨lists.flatten, rfl, fun path => ?_⟩
  rw [mem_flatten_of_mapM each]
  refine exists_congr fun pattern => and_congr_right fun member => ?_
  obtain ⟨files, one⟩ := exists_mapM_iff.mp ⟨lists, each⟩ pattern member
  rw [← (of_resolvePattern one).2]
  constructor
  · rintro ⟨others, same, listed⟩
    cases same.symm.trans one
    exact listed
  · intro listed
    exact ⟨files, one, listed⟩

theorem union_of_resolveBy {patterns files : List String}
    (resolved : (resolveBy listing patterns).run.eval tree = .ok files) : Union listing tree patterns files := by
  obtain ⟨found, rfl, matched⟩ := exists_of_resolveBy resolved
  constructor
  · exact pairwise_sortPaths found
  · intro path member
    exact (matched path).mp (mem_of_mem_sortPaths member)
  · intro pattern listed path file
    have given : parts path ∈ found.map parts := List.mem_map_of_mem ((matched path).mpr ⟨pattern, listed, file⟩)
    obtain ⟨same, member, equal⟩ := List.mem_map.mp ((mem_parts_sortPaths found _).mpr given)
    exact ⟨same, member, comparePaths_eq_iff.mpr equal⟩

/-- The same patterns, in any order and any number, come to the same files. -/
theorem resolveBy_congr {patterns others files : List String} (same : ∀ pattern, pattern ∈ others ↔ pattern ∈ patterns)
    (resolved : (resolveBy listing patterns).run.eval tree = .ok files) :
    ∃ again, (resolveBy listing others).run.eval tree = .ok again ∧ again.map parts = files.map parts := by
  have each := (exists_resolveBy_iff patterns).mp ⟨files, resolved⟩
  obtain ⟨again, repeated⟩ : ∃ again, (resolveBy listing others).run.eval tree = .ok again :=
    (exists_resolveBy_iff others).mpr fun pattern member => each pattern ((same pattern).mp member)
  obtain ⟨found, rfl, matched⟩ := exists_of_resolveBy resolved
  obtain ⟨others, rfl, matchedAgain⟩ := exists_of_resolveBy repeated
  refine ⟨_, repeated, sortPaths_congr fun way => ?_⟩
  simp only [List.mem_map, matched, matchedAgain, same]

end

/-- Patterns resolve just when each of them is well formed and matches a file. They come to the files that some pattern
matches, each once and in strictly ascending order, whatever the order of the patterns and however often each is given.
Otherwise the first pattern that is not well formed or matches no file is named. -/
theorem resolveBy_union (listing : Listing) (tree : FileTree) (patterns : List String) :
    ((∃ files, (resolveBy listing patterns).run.eval tree = .ok files) ↔
      ∀ pattern ∈ patterns, ∃ path, Matches listing tree pattern path) ∧
    (∀ files, (resolveBy listing patterns).run.eval tree = .ok files →
      Union listing tree patterns files ∧
      ∀ others : List String, (∀ pattern, pattern ∈ others ↔ pattern ∈ patterns) →
        ∃ again, (resolveBy listing others).run.eval tree = .ok again ∧ again.map parts = files.map parts) ∧
    ∀ fault, (resolveBy listing patterns).run.eval tree = .error fault ↔
      ∃ before pattern after, patterns = before ++ pattern :: after ∧
        (∀ earlier ∈ before, ∃ path, Matches listing tree earlier path) ∧ Refuses listing tree pattern fault :=
  ⟨exists_resolveBy_iff patterns, fun _ resolved => ⟨union_of_resolveBy resolved, fun _ same =>
    resolveBy_congr same resolved⟩, resolveBy_eq_error_iff patterns⟩

/-- Two files and a folder that go by similar names. -/
def similarNames : FileTree where
  top := .folder [("ref.a", .file "a\n".toUTF8), ("ref.b", .file "b\n".toUTF8), ("ref.d", .folder [])]

/-- Patterns that overlap come to the same files in another order and with a repeat, and a pattern that matches only a
folder is named before one that is not well formed. -/
theorem resolveBy_union_similar_names :
    (∃ again, (resolveBy fittingPaths ["ref.*", "ref.a", "ref.*"]).run.eval similarNames = .ok again ∧
      again.map parts = [[.name "ref.a"], [.name "ref.b"]]) ∧
    (resolveBy fittingPaths ["ref.a", "ref.d", "["]).run.eval similarNames = .error (.unmatched "ref.d") := by
  have resolved : (resolveBy fittingPaths ["ref.a", "ref.*"]).run.eval similarNames = .ok ["ref.a", "ref.b"] := by
    have each : (["ref.a", "ref.*"].mapM fun pattern => (resolvePattern fittingPaths pattern).run.eval similarNames) =
        .ok [["ref.a"], ["ref.a", "ref.b"]] := by decide +kernel
    have sorted : sortPaths ["ref.a", "ref.a", "ref.b"] = ["ref.a", "ref.b"] := by
      rw [sortPaths, List.mergeSort_of_pairwise (by decide +kernel)]
      decide +kernel
    rw [eval_resolveBy, each]
    exact congrArg Except.ok sorted
  have found : Matches fittingPaths similarNames "ref.a" "ref.a" := ⟨["ref.a"], by decide +kernel⟩
  have refused : Refuses fittingPaths similarNames "ref.d" (.unmatched "ref.d") :=
    .unmatched (show (fittingPaths "ref.d").eval similarNames = some ["ref.d"] by decide +kernel) (by decide +kernel)
  obtain ⟨again, repeated, same⟩ := ((resolveBy_union fittingPaths similarNames ["ref.a", "ref.*"]).2.1 _ resolved).2
    ["ref.*", "ref.a", "ref.*"] (by simp [or_comm])
  refine ⟨⟨again, repeated, same.trans (by decide +kernel)⟩, ?_⟩
  refine ((resolveBy_union fittingPaths similarNames ["ref.a", "ref.d", "["]).2.2 _).mpr
    ⟨["ref.a"], "ref.d", ["["], rfl, ?_, refused⟩
  simpa using ⟨"ref.a", found⟩

end Bleu.Files
