import Bleu.Brevity

/-!
# The closest length

`IsClosest` says which length of a list counts for a hypothesis: no listed one is nearer, and of those equally near it
is the shortest. There is at most one such length (`IsClosest.eq`), it does not depend on the order of the list or on
repetitions (`IsClosest.of_mem_iff`), and `closestLength` finds it in every list but the empty one
(`closestLength_eq_ok_iff`). `closestLength_of_references` says the same of references, and that further ones never move
it away. A hypothesis that is not shorter than the closest reference has no penalty.
-/
namespace Bleu

/-- No listed length is nearer to the hypothesis, and none as near is shorter. -/
structure IsClosest (hypothesis : Nat) (lengths : List Nat) (l : Nat) : Prop where
  listed : l ∈ lengths
  nearest : ∀ m ∈ lengths, distance l hypothesis ≤ distance m hypothesis
  shortest : ∀ m ∈ lengths, distance m hypothesis = distance l hypothesis → l ≤ m

namespace IsClosest
variable {hypothesis l m : Nat} {lengths others : List Nat}

theorem eq (first : IsClosest hypothesis lengths l) (second : IsClosest hypothesis lengths m) : l = m := by
  have same : distance l hypothesis = distance m hypothesis :=
    Nat.le_antisymm (first.nearest m second.listed) (second.nearest l first.listed)
  exact Nat.le_antisymm (first.shortest m second.listed same.symm) (second.shortest l first.listed same)

theorem of_mem_iff (same : ∀ l, l ∈ lengths ↔ l ∈ others) (best : IsClosest hypothesis lengths l) :
    IsClosest hypothesis others l := by
  constructor
  · exact (same l).mp best.listed
  · intro m member
    exact best.nearest m ((same m).mpr member)
  · intro m member
    exact best.shortest m ((same m).mpr member)

/-- A length that is farther than a listed one, or as far and not shorter, changes nothing. -/
theorem cons {kept : Nat} (best : IsClosest hypothesis (kept :: others) l)
    (behind : distance kept hypothesis < distance m hypothesis ∨
      distance kept hypothesis = distance m hypothesis ∧ kept ≤ m) :
    IsClosest hypothesis (m :: kept :: others) l := by
  have nearest := best.nearest kept (by simp)
  have shortest := best.shortest kept (by simp)
  constructor
  · exact List.mem_cons_of_mem m best.listed
  · intro n member
    rcases List.mem_cons.mp member with rfl | listed
    · omega
    · exact best.nearest n listed
  · intro n member same
    rcases List.mem_cons.mp member with rfl | listed
    · have tie : distance kept hypothesis = distance l hypothesis := by omega
      have short := shortest tie
      omega
    · exact best.shortest n listed same

end IsClosest

theorem isCloser_iff (hypothesis a b : Nat) :
    isCloser hypothesis a b = true ↔ distance a hypothesis < distance b hypothesis ∨
      distance a hypothesis = distance b hypothesis ∧ a < b := by
  simp [isCloser]

theorem isClosest_foldl (hypothesis first : Nat) (rest : List Nat) :
    IsClosest hypothesis (first :: rest)
      (rest.foldl (fun best l => if isCloser hypothesis l best then l else best) first) := by
  induction rest generalizing first with
  | nil => constructor <;> simp
  | cons next others ih =>
    rw [List.foldl_cons]
    by_cases closer : isCloser hypothesis next first = true
    · rw [if_pos closer]
      rw [isCloser_iff] at closer
      exact (ih next).cons (by omega)
    · rw [if_neg closer]
      rw [isCloser_iff] at closer
      have best := (ih first).cons (m := next) (by omega)
      exact best.of_mem_iff fun l => by simp [or_left_comm]

theorem closestLength_eq_ok_iff (hypothesis : Nat) (lengths : List Nat) (l : Nat) :
    closestLength hypothesis lengths = .ok l ↔ IsClosest hypothesis lengths l := by
  cases lengths with
  | nil =>
    constructor
    · intro found
      cases found
    · intro best
      exact absurd best.listed List.not_mem_nil
  | cons first rest =>
    have best := isClosest_foldl hypothesis first rest
    constructor
    · intro found
      cases found
      exact best
    · intro other
      exact congrArg Except.ok (best.eq other)

/-- A listed length is the closest to itself. -/
theorem closestLength_of_mem {length : Nat} {lengths : List Nat} (listed : length ∈ lengths) :
    closestLength length lengths = .ok length := by
  have self : distance length length = 0 := by simp [distance]
  refine (closestLength_eq_ok_iff length lengths length).mpr ⟨listed, fun m _ => ?_, fun m _ same => ?_⟩
  · rw [self]
    exact Nat.zero_le _
  · rw [self, distance] at same
    omega

/-- The closest length depends only on which lengths are listed. -/
theorem closestLength_congr {lengths others : List Nat} (same : ∀ l, l ∈ lengths ↔ l ∈ others) (hypothesis : Nat) :
    closestLength hypothesis lengths = closestLength hypothesis others := by
  cases lengths with
  | nil =>
    have alone : others = [] := List.eq_nil_iff_forall_not_mem.mpr fun l listed => by simpa using (same l).mpr listed
    rw [alone]
  | cons first rest =>
    have best := isClosest_foldl hypothesis first rest
    have found := (closestLength_eq_ok_iff hypothesis others _).mpr (best.of_mem_iff same)
    rw [found]
    rfl

/-! ## The closest reference -/

theorem distance_eq_natAbs (a b : Nat) : distance a b = ((a : Int) - b).natAbs := by
  unfold distance
  omega

/-- The length of a reference that is closest to the hypothesis, and the shortest of those as close. -/
structure IsReferenceLength {α : Type} (hypothesis : Nat) (references : List (List α)) (l : Nat) : Prop where
  listed : ∃ r ∈ references, r.length = l
  nearest : ∀ r ∈ references, ((l : Int) - hypothesis).natAbs ≤ ((r.length : Int) - hypothesis).natAbs
  shortest : ∀ r ∈ references, ((r.length : Int) - hypothesis).natAbs = ((l : Int) - hypothesis).natAbs → l ≤ r.length

theorem isReferenceLength_iff {α : Type} (hypothesis : Nat) (references : List (List α)) (l : Nat) :
    IsReferenceLength hypothesis references l ↔ IsClosest hypothesis (references.map List.length) l := by
  constructor
  · rintro ⟨listed, nearest, shortest⟩
    constructor
    · simpa using listed
    · simpa [distance_eq_natAbs] using nearest
    · simpa [distance_eq_natAbs] using shortest
  · rintro ⟨listed, nearest, shortest⟩
    constructor
    · simpa using listed
    · simpa [distance_eq_natAbs] using nearest
    · simpa [distance_eq_natAbs] using shortest

/-- More lengths bring the closest one nearer or leave it where it is. -/
theorem IsClosest.distance_le {hypothesis l m : Nat} {lengths others : List Nat}
    (best : IsClosest hypothesis lengths l) (next : IsClosest hypothesis others m)
    (more : ∀ n ∈ lengths, n ∈ others) : distance m hypothesis ≤ distance l hypothesis :=
  next.nearest l (more l best.listed)

theorem exists_closestLength {lengths : List Nat} (given : lengths ≠ []) (hypothesis : Nat) :
    ∃ l, closestLength hypothesis lengths = .ok l ∧ IsClosest hypothesis lengths l := by
  obtain ⟨first, rest, rfl⟩ := List.exists_cons_of_ne_nil given
  exact ⟨_, rfl, isClosest_foldl hypothesis first rest⟩

theorem closestLength_eq_error_iff (hypothesis : Nat) (lengths : List Nat) (fault : Fault) :
    closestLength hypothesis lengths = .error fault ↔ lengths = [] ∧ fault = .emptyReferences := by
  cases lengths with
  | nil => simp [closestLength, eq_comm]
  | cons first rest => simp [closestLength]

/-- Only without references there is no closest length. Otherwise it is the one length of a reference that is closest to
the hypothesis, and the shortest of those as close, and further references never move it away from the hypothesis. -/
theorem closestLength_of_references {α : Type} (hypothesis : Nat) (references : List (List α)) :
    (∀ fault, closestLength hypothesis (references.map List.length) = .error fault ↔
      references = [] ∧ fault = .emptyReferences) ∧
    (references ≠ [] → ∃ l, closestLength hypothesis (references.map List.length) = .ok l ∧
      (∀ m, IsReferenceLength hypothesis references m ↔ m = l) ∧
      ∀ others : List (List α), ∃ m, closestLength hypothesis ((references ++ others).map List.length) = .ok m ∧
        ((m : Int) - hypothesis).natAbs ≤ ((l : Int) - hypothesis).natAbs) := by
  refine ⟨fun fault => ?_, fun given => ?_⟩
  · rw [closestLength_eq_error_iff, List.map_eq_nil_iff]
  · have nonempty : references.map List.length ≠ [] := by simpa using given
    obtain ⟨l, found, best⟩ := exists_closestLength nonempty hypothesis
    refine ⟨l, found, fun m => ?_, fun others => ?_⟩
    · rw [isReferenceLength_iff]
      constructor
      · intro other
        exact other.eq best
      · rintro rfl
        exact best
    · have more : (references ++ others).map List.length ≠ [] := by simp [given]
      obtain ⟨m, chosen, next⟩ := exists_closestLength more hypothesis
      refine ⟨m, chosen, ?_⟩
      rw [← distance_eq_natAbs, ← distance_eq_natAbs]
      rw [List.map_append] at next
      exact best.distance_le next fun n listed => List.mem_append_left _ listed

/-- Of references with thirteen and eleven tokens the shorter one is closest to a hypothesis with twelve. -/
theorem closestLength_of_two_references : [List.replicate 13 (), List.replicate 11 ()] ≠ [] ∧
    closestLength 12 ([List.replicate 13 (), List.replicate 11 ()].map List.length) = .ok 11 ∧
    IsReferenceLength 12 [List.replicate 13 (), List.replicate 11 ()] 11 ∧
    ¬ IsReferenceLength 12 [List.replicate 13 (), List.replicate 11 ()] 13 := by
  have given : [List.replicate 13 (), List.replicate 11 ()] ≠ [] := by simp
  obtain ⟨l, found, only, _⟩ := (closestLength_of_references 12 _).2 given
  have eleven : l = 11 := by
    cases found
    rfl
  subst eleven
  exact ⟨given, found, (only 11).mpr rfl, fun longer => absurd ((only 13).mp longer) (by decide)⟩

/-! ## The penalty -/

theorem brevityPenalty_of_le [Elementary] {reference hypothesis : Nat} (positive : 0 < hypothesis)
    (le : reference ≤ hypothesis) : brevityPenalty reference hypothesis = 1 := by
  have nonzero : hypothesis ≠ 0 := Nat.ne_of_gt positive
  rw [brevityPenalty, if_neg nonzero, if_pos le]

end Bleu
