import Bleu.Ngram.Histogram
import Mathlib.Algebra.BigOperators.Group.Finset.Basic
import Mathlib.Algebra.Order.BigOperators.Group.Finset

/-!
# What histograms count

A histogram is known by the counts it gives (`Histogram.get`). `get_ofList` says that the histogram of a list counts
its members, `get_max` that the greater of two histograms is so value by value. The total and the overlap are sums
over the values with a row (`total_eq_sum`, `overlap_eq_sum`), whatever the order of the rows.
-/
namespace Bleu.Histogram
variable {α : Type} [DecidableEq α]

/-! ## One count -/

theorem lookup_cons_eq (x y : α) (n : Nat) (rows : List (α × Nat)) :
    ((y, n) :: rows).lookup x = if x = y then some n else rows.lookup x := by
  rw [List.lookup_cons]
  by_cases same : x = y
  · simp [same]
  · rw [if_neg same, beq_eq_false_iff_ne.mpr same]

theorem lookup_alterRows (f : Nat → Nat) (x y : α) (rows : List (α × Nat)) :
    (alterRows f x rows).lookup y = if y = x then some (f ((rows.lookup x).getD 0)) else rows.lookup y := by
  induction rows with
  | nil =>
    rw [alterRows, lookup_cons_eq]
    rfl
  | cons row rest ih =>
    obtain ⟨z, n⟩ := row
    by_cases here : z = x
    · subst here
      by_cases same : y = z
      · simp [alterRows, same]
      · simp [alterRows, same, lookup_cons_eq]
    · have other : x ≠ z := fun same => here same.symm
      by_cases first : y = z
      · simp [alterRows, first, here]
      · simp [alterRows, here, lookup_cons_eq, first, other, ih]

theorem get_alter (h : Histogram α) (x y : α) (f : Nat → Nat) (positive : ∀ n, 0 < f n) :
    (h.alter x f positive).get y = if y = x then f (h.get x) else h.get y := by
  simp only [get, alter, lookup_alterRows]
  split <;> rfl

@[simp] theorem get_empty (x : α) : (empty : Histogram α).get x = 0 := rfl

theorem get_insert (h : Histogram α) (x y : α) : (h.insert x).get y = h.get y + if y = x then 1 else 0 := by
  rw [insert, get_alter]
  by_cases same : y = x
  · rw [if_pos same, if_pos same, same]
  · rw [if_neg same, if_neg same, Nat.add_zero]

theorem get_raise (h : Histogram α) (x y : α) (n : Nat) :
    (h.raise x n).get y = if y = x then Max.max n (h.get x) else h.get y := by
  unfold raise
  by_cases positive : 0 < n
  · rw [dif_pos positive, get_alter]
  · have zero : n = 0 := by omega
    rw [dif_neg positive, zero, Nat.zero_max]
    by_cases same : y = x
    · rw [if_pos same, same]
    · rw [if_neg same]

/-- The histogram of a list counts its members, by whichever lawful test they are compared. -/
theorem get_ofList [BEq α] [LawfulBEq α] (xs : List α) (x : α) : (ofList xs).get x = xs.count x := by
  suffices grown : ∀ h : Histogram α, (xs.foldl insert h).get x = h.get x + xs.count x by
    simpa [ofList] using grown empty
  induction xs with
  | nil => simp
  | cons y rest ih =>
    intro h
    rw [List.foldl_cons, ih, get_insert, List.count_cons]
    by_cases same : x = y
    · rw [if_pos same, if_pos (beq_iff_eq.mpr same.symm)]
      omega
    · rw [if_neg same, if_neg fun e => same (beq_iff_eq.mp e).symm]
      omega

/-! ## The greater of two histograms -/

theorem lookup_eq_none {x : α} {rows : List (α × Nat)} (absent : x ∉ rows.map Prod.fst) : rows.lookup x = none := by
  rw [List.lookup_eq_none_iff]
  intro row member
  exact bne_iff_ne.mpr fun same => absent (same ▸ List.mem_map_of_mem member)

theorem get_foldl_raise (x : α) (rows : List (α × Nat)) (distinct : (rows.map Prod.fst).Nodup) (h : Histogram α) :
    (rows.foldl (fun h row => h.raise row.1 row.2) h).get x = Max.max (h.get x) ((rows.lookup x).getD 0) := by
  induction rows generalizing h with
  | nil => simp
  | cons row rest ih =>
    obtain ⟨y, n⟩ := row
    simp only [List.map_cons, List.nodup_cons] at distinct
    rw [List.foldl_cons, ih distinct.2, get_raise]
    by_cases same : x = y
    · subst same
      simp [lookup_eq_none distinct.1, Nat.max_comm]
    · simp [same, lookup_cons_eq]

/-- The greater of two histograms counts every value as often as the one that has more of it. -/
theorem get_max (h other : Histogram α) (x : α) : (h.max other).get x = Max.max (h.get x) (other.get x) :=
  get_foldl_raise x other.rows other.nodup h

/-- The greatest of many histograms has a value `n` times at most if each of them does. -/
theorem get_foldl_max_le (x : α) (n : Nat) (hs : List (Histogram α)) (h : Histogram α) :
    (hs.foldl max h).get x ≤ n ↔ h.get x ≤ n ∧ ∀ other ∈ hs, other.get x ≤ n := by
  induction hs generalizing h with
  | nil => simp
  | cons other rest ih => simp [ih, get_max, and_assoc]

/-! ## Sums over the rows -/

/-- The values that have a row. -/
def support (h : Histogram α) : Finset α := (h.rows.map Prod.fst).toFinset

theorem lookup_of_mem {x : α} {n : Nat} {rows : List (α × Nat)} (distinct : (rows.map Prod.fst).Nodup)
    (member : (x, n) ∈ rows) : rows.lookup x = some n := by
  induction rows with
  | nil => simp at member
  | cons first rest ih =>
    obtain ⟨y, m⟩ := first
    simp only [List.map_cons, List.nodup_cons] at distinct
    rw [lookup_cons_eq]
    rcases List.mem_cons.mp member with here | later
    · cases here
      rw [if_pos rfl]
    · have other : x ≠ y := by
        rintro rfl
        exact distinct.1 (List.mem_map_of_mem later)
      rw [if_neg other, ih distinct.2 later]

theorem get_of_mem (h : Histogram α) {row : α × Nat} (member : row ∈ h.rows) : h.get row.1 = row.2 := by
  simp [get, lookup_of_mem h.nodup member]

/-- A value has a row just when it counts. -/
theorem mem_support (h : Histogram α) (x : α) : x ∈ h.support ↔ 0 < h.get x := by
  constructor
  · intro listed
    obtain ⟨row, member, rfl⟩ := by simpa only [support, List.mem_toFinset, List.mem_map] using listed
    rw [h.get_of_mem member]
    exact h.pos row member
  · intro counted
    by_contra absent
    have unlisted : x ∉ h.rows.map Prod.fst := by simpa [support] using absent
    simp [get, lookup_eq_none unlisted] at counted

theorem support_ofList (xs : List α) : (ofList xs).support = xs.toFinset := by
  ext x
  rw [mem_support, get_ofList, List.count_pos_iff, List.mem_toFinset]

/-- Adding up along the rows is adding up over the values that have one. -/
theorem foldr_rows_eq_sum (h : Histogram α) (f : α → Nat → Nat) :
    h.rows.foldr (fun row sum => f row.1 row.2 + sum) 0 = ∑ x ∈ h.support, f x (h.get x) := by
  have listed : ∀ rows : List (α × Nat), rows.foldr (fun row sum => f row.1 row.2 + sum) 0 =
      (rows.map fun row => f row.1 row.2).sum := by
    intro rows
    induction rows with
    | nil => rfl
    | cons row rest ih => simp [ih]
  have counted : h.rows.map (fun row => f row.1 row.2) = (h.rows.map Prod.fst).map fun x => f x (h.get x) := by
    rw [List.map_map]
    exact List.map_congr_left fun row member => by simp [h.get_of_mem member]
  rw [listed, counted, support, List.sum_toFinset _ h.nodup]

theorem total_eq_sum (h : Histogram α) : h.total = ∑ x ∈ h.support, h.get x :=
  h.foldr_rows_eq_sum fun _ n => n

theorem overlap_eq_sum (h other : Histogram α) :
    h.overlap other = ∑ x ∈ h.support, min (h.get x) (other.get x) :=
  h.foldr_rows_eq_sum fun x n => min n (other.get x)

theorem overlap_le_total (h other : Histogram α) : h.overlap other ≤ h.total := by
  rw [overlap_eq_sum, total_eq_sum]
  exact Finset.sum_le_sum fun x _ => min_le_left _ _

theorem distinct_eq_card (h : Histogram α) : h.distinct = h.support.card := by
  rw [support, List.toFinset_card_of_nodup h.nodup, List.length_map]
  rfl

theorem total_ofList (xs : List α) : (ofList xs).total = xs.length := by
  rw [total_eq_sum, support_ofList, ← List.sum_toFinset_count_eq_length xs]
  exact Finset.sum_congr rfl fun x _ => get_ofList xs x

/-- The counts of the members of a list add up to its length. -/
theorem sum_count [BEq α] [LawfulBEq α] (xs : List α) : ∑ x ∈ xs.toFinset, xs.count x = xs.length := by
  rw [← total_ofList, total_eq_sum, support_ofList]
  exact Finset.sum_congr rfl fun x _ => (get_ofList xs x).symm

end Bleu.Histogram
