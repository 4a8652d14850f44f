/-!
# Histograms

A histogram tells how often each value occurs. It has a row for every value that occurs, in the order of first
occurrence. `Histogram.ofList` counts a list, `Histogram.max` takes the greater count value by value, and
`Histogram.overlap` adds up the smaller counts of two histograms.
-/
namespace Bleu

/-- Counts by value: no value has two rows, no row counts zero. -/
structure Histogram (α : Type) where
  rows : List (α × Nat)
  nodup : (rows.map Prod.fst).Nodup
  pos : ∀ row ∈ rows, 0 < row.2

namespace Histogram
variable {α : Type} [DecidableEq α]

/-- Rows with the count of `x` replaced by `f` of it; a value without row counts zero. -/
def alterRows (f : Nat → Nat) (x : α) : List (α × Nat) → List (α × Nat)
  | [] => [(x, f 0)]
  | row :: rest => if row.1 = x then (x, f row.2) :: rest else row :: alterRows f x rest

theorem fst_mem_alterRows {f : Nat → Nat} {x y : α} {rows : List (α × Nat)}
    (h : y ∈ (alterRows f x rows).map Prod.fst) : y = x ∨ y ∈ rows.map Prod.fst := by
  induction rows with
  | nil => simpa [alterRows] using h
  | cons row rest ih =>
    by_cases same : row.1 = x
    · simp only [alterRows, same, if_true, List.map_cons, List.mem_cons] at h ⊢
      exact h.imp_right .inr
    · simp only [alterRows, same, if_false, List.map_cons, List.mem_cons] at h ⊢
      rcases h with h | h
      · exact .inr (.inl h)
      · exact (ih h).imp_right .inr

theorem nodup_alterRows (f : Nat → Nat) (x : α) {rows : List (α × Nat)} (h : (rows.map Prod.fst).Nodup) :
    ((alterRows f x rows).map Prod.fst).Nodup := by
  induction rows with
  | nil => simp [alterRows]
  | cons row rest ih =>
    simp only [List.map_cons, List.nodup_cons] at h
    by_cases same : row.1 = x
    · simp only [alterRows, same, if_true, List.map_cons, List.nodup_cons]
      exact ⟨same ▸ h.1, h.2⟩
    · simp only [alterRows, same, if_false, List.map_cons, List.nodup_cons]
      exact ⟨fun member => (fst_mem_alterRows member).elim same h.1, ih h.2⟩

theorem pos_alterRows {f : Nat → Nat} (positive : ∀ n, 0 < f n) (x : α) {rows : List (α × Nat)}
    (h : ∀ row ∈ rows, 0 < row.2) : ∀ row ∈ alterRows f x rows, 0 < row.2 := by
  induction rows with
  | nil => simp [alterRows, positive]
  | cons row rest ih =>
    simp only [List.mem_cons, forall_eq_or_imp] at h
    by_cases same : row.1 = x
    · simpa [alterRows, same, positive] using h.2
    · simpa [alterRows, same, h.1] using ih h.2

/-- The histogram with the count of `x` replaced by `f` of it. -/
def alter (h : Histogram α) (x : α) (f : Nat → Nat) (positive : ∀ n, 0 < f n) : Histogram α where
  rows := alterRows f x h.rows
  nodup := nodup_alterRows f x h.nodup
  pos := pos_alterRows positive x h.pos

def empty : Histogram α where
  rows := []
  nodup := by simp
  pos := by simp

def insert (h : Histogram α) (x : α) : Histogram α := h.alter x (· + 1) (by omega)

/-- The histogram with the count of `x` raised to `n` at least. -/
def raise (h : Histogram α) (x : α) (n : Nat) : Histogram α :=
  if positive : 0 < n then h.alter x (Nat.max n) (fun m => Nat.lt_of_lt_of_le positive (Nat.le_max_left n m))
  else h

def ofList (xs : List α) : Histogram α := xs.foldl insert empty

def get (h : Histogram α) (x : α) : Nat := (h.rows.lookup x).getD 0

def total (h : Histogram α) : Nat := h.rows.foldr (fun row sum => row.2 + sum) 0

def distinct (h : Histogram α) : Nat := h.rows.length

/-- The greater of two counts, value by value. -/
def max (h other : Histogram α) : Histogram α := other.rows.foldl (fun h row => h.raise row.1 row.2) h

/-- The smaller of two counts, summed over all values. -/
def overlap (h other : Histogram α) : Nat :=
  h.rows.foldr (fun row sum => Nat.min row.2 (other.get row.1) + sum) 0

end Histogram

end Bleu
