import Bleu.Proofs.Double.Range

/-!
# Sums of many doubles

A sum of doubles that is formed from left to right stops growing: beyond `2 ^ 53` times the largest term, the next term
is less than the sum's last digit and rounded away (`rounded_absorbs`). However many terms there are, the sum stays
below that bound (`value_foldl_add_le`). So terms up to one have a finite sum (`isFinite_foldl_add`), and in a finite
sum the largest term has a share that does not vanish (`exists_share_pos`).
-/
namespace Bleu.Double

/-! ## Terms that are rounded away -/

/-- One more half of the last digit is a tie, and the even number is the one below. -/
theorem nearest_absorbs {p : ℤ} (last : -1074 ≤ p) : nearest ((2 ^ 53 + 1) * 2 ^ p) = 2 ^ 53 * 2 ^ p := by
  have scale : (0 : ℝ) < 2 ^ p := zpow_pos (by norm_num) p
  have double : (2 : ℝ) ^ (p + 1) = 2 * 2 ^ p := by rw [zpow_add_one₀ (by norm_num), mul_comm]
  have log : Int.log 2 ((2 ^ 53 + 1) * 2 ^ p : ℝ) = 53 + p := by
    refine log_eq ?_ ?_
    · rw [show (53 : ℤ) + p = (53 : ℕ) + p from rfl, ← two_pow_mul_zpow]
      linarith
    · rw [show (53 : ℤ) + p + 1 = (54 : ℕ) + p by push_cast; ring, ← two_pow_mul_zpow]
      exact mul_lt_mul_of_pos_right (by norm_num) scale
  have digit : unit ((2 ^ 53 + 1) * 2 ^ p) = 2 * 2 ^ p := by
    have exponent : exponentOf ((2 ^ 53 + 1) * 2 ^ p) = p + 1 := by
      unfold exponentOf
      omega
    rw [unit, exponent, double]
  have quotient : (2 ^ 53 + 1) * (2 : ℝ) ^ p / (2 * 2 ^ p) = 2 ^ 52 + 1 / 2 := by
    rw [mul_div_mul_right _ _ scale.ne']
    norm_num
  have floor : ⌊(2 ^ 52 + 1 / 2 : ℝ)⌋₊ = 2 ^ 52 := by
    rw [Nat.floor_eq_iff (by norm_num)]
    norm_num
  have even : halfEven (2 ^ 52 + 1 / 2) = 2 ^ 52 := by
    unfold halfEven
    rw [floor]
    norm_num
  rw [nearest, digit, quotient, even]
  push_cast
  ring

theorem rounded_absorbs {p : ℤ} (last : -1074 ≤ p) (fits : 53 + p < 1024) :
    rounded (((2 ^ 53 + 1) * 2 ^ p : ℝ) : EReal) = ((2 ^ 53 * 2 ^ p : ℝ) : EReal) := by
  have nonneg : (0 : ℝ) ≤ (2 ^ 53 + 1) * 2 ^ p := by positivity
  have bounded : (2 : ℝ) ^ 53 * 2 ^ p < 2 ^ 1024 := by
    rw [two_pow_mul_zpow, ← zpow_natCast]
    exact zpow_lt_zpow_right₀ (by norm_num) (by exact_mod_cast fits)
  rw [rounded_coe, roundedReal, if_pos nonneg, magnitude, nearest_absorbs last, if_pos bounded]

theorem value_add_le {s x : Float} {p : ℤ} (last : -1074 ≤ p) (fits : 53 + p < 1024) (start : 0 ≤ s) (nonneg : 0 ≤ x)
    (sum : value s ≤ ((2 ^ 53 * 2 ^ p : ℝ) : EReal)) (term : value x ≤ ((2 ^ p : ℝ) : EReal)) :
    value (s + x) ≤ ((2 ^ 53 * 2 ^ p : ℝ) : EReal) := by
  rw [value_add (isNumber_add_of_nonneg start nonneg), ← rounded_absorbs last fits]
  refine rounded_mono ?_
  calc value s + value x ≤ ((2 ^ 53 * 2 ^ p : ℝ) : EReal) + ((2 ^ p : ℝ) : EReal) := add_le_add sum term
    _ = (((2 ^ 53 + 1) * 2 ^ p : ℝ) : EReal) := by
      rw [← EReal.coe_add]
      congr 1
      ring

/-- A sum does not exceed `2 ^ 53` times a power of two that bounds its terms. -/
theorem value_foldl_add_le {p : ℤ} (last : -1074 ≤ p) (fits : 53 + p < 1024) {terms : List Float}
    (nonneg : ∀ x ∈ terms, 0 ≤ x) (small : ∀ x ∈ terms, value x ≤ ((2 ^ p : ℝ) : EReal)) {start : Float}
    (positive : 0 ≤ start) (sum : value start ≤ ((2 ^ 53 * 2 ^ p : ℝ) : EReal)) :
    value (terms.foldl (· + ·) start) ≤ ((2 ^ 53 * 2 ^ p : ℝ) : EReal) := by
  induction terms generalizing start with
  | nil => exact sum
  | cons x rest ih =>
    have term : 0 ≤ x := nonneg x (by simp)
    have grown : 0 ≤ start + x := le_trans positive (le_add_right positive term)
    have bounded := value_add_le last fits positive term sum (small x (by simp))
    exact ih (fun y member => nonneg y (by simp [member])) (fun y member => small y (by simp [member])) grown bounded

/-- Terms up to one have a finite sum. -/
theorem isFinite_foldl_add {terms : List Float} (unit : ∀ x ∈ terms, 0 ≤ x ∧ x ≤ 1) :
    value (terms.foldl (· + ·) 0) ≠ ⊤ := by
  have bounded := value_foldl_add_le (p := 0) (by norm_num) (by norm_num) (fun x member => (unit x member).1)
    (fun x member => by simpa using ((le_one_iff x).mp (unit x member).2).2) (show (0 : Float) ≤ 0 by decide)
    (by rw [value_zero]; exact EReal.coe_nonneg.mpr (by positivity))
  exact (bounded.trans_lt (EReal.coe_lt_top _)).ne

/-! ## Finite doubles -/

/-- The smallest positive double. -/
theorem le_of_nearest_eq {r : ℝ} (positive : 0 < r) (kept : nearest r = r) : (2 : ℝ) ^ (-1074 : ℤ) ≤ r := by
  have digit : (2 : ℝ) ^ (-1074 : ℤ) ≤ unit r := zpow_le_zpow_right₀ (by norm_num) (le_max_right _ _)
  have least : 1 ≤ halfEven (r / unit r) := by
    rw [Nat.one_le_iff_ne_zero]
    intro zero
    rw [nearest, zero, Nat.cast_zero, zero_mul] at kept
    exact positive.ne kept
  calc (2 : ℝ) ^ (-1074 : ℤ) ≤ 1 * unit r := by rwa [one_mul]
    _ ≤ halfEven (r / unit r) * unit r := mul_le_mul_of_nonneg_right (by exact_mod_cast least) (unit_pos r).le
    _ = r := kept

/-! ## Shares of a sum -/

theorem exists_largest {terms : List Float} (given : terms ≠ []) : ∃ m ∈ terms, ∀ x ∈ terms, value x ≤ value m := by
  induction terms with
  | nil => exact absurd rfl given
  | cons x rest ih =>
    by_cases last : rest = []
    · exact ⟨x, by simp, by simp [last]⟩
    · obtain ⟨m, member, largest⟩ := ih last
      rcases le_total (value m) (value x) with below | above
      · refine ⟨x, by simp, fun y listed => ?_⟩
        rcases List.mem_cons.mp listed with rfl | later
        · exact le_rfl
        · exact (largest y later).trans below
      · refine ⟨m, by simp [member], fun y listed => ?_⟩
        rcases List.mem_cons.mp listed with rfl | later
        · exact above
        · exact largest y later

/-- A finite sum is less than `2 ^ 54` times as large as its largest term. -/
theorem sum_le_largest {terms : List Float} (nonneg : ∀ x ∈ terms, 0 ≤ x) {r t : ℝ} (positive : 0 < r)
    (kept : nearest r = r) (largest : ∀ x ∈ terms, value x ≤ (r : EReal))
    (sum : value (terms.foldl (· + ·) 0) = (t : EReal)) (finite : t < 2 ^ 1024) : t ≤ 2 ^ 54 * r := by
  -- The power of two above the largest term bounds all terms.
  have below : (2 : ℝ) ^ Int.log 2 r ≤ r := by exact_mod_cast Int.zpow_log_le_self (b := 2) (by norm_num) positive
  have above : r < (2 : ℝ) ^ (Int.log 2 r + 1) := by exact_mod_cast Int.lt_zpow_succ_log_self (b := 2) (by norm_num) r
  have last : -1074 ≤ Int.log 2 r + 1 := by
    have least := (le_of_nearest_eq positive kept).trans_lt above
    exact ((zpow_lt_zpow_iff_right₀ (by norm_num : (1 : ℝ) < 2)).mp least).le
  have bounded : t ≤ 2 ^ 53 * 2 ^ (Int.log 2 r + 1) := by
    by_cases fits : 53 + (Int.log 2 r + 1) < 1024
    · have total := value_foldl_add_le last fits nonneg
        (fun x member => (largest x member).trans (EReal.coe_le_coe_iff.mpr above.le)) (show (0 : Float) ≤ 0 by decide)
        (by rw [value_zero]; exact EReal.coe_nonneg.mpr (by positivity))
      rw [sum] at total
      exact EReal.coe_le_coe_iff.mp total
    · refine finite.le.trans ?_
      rw [two_pow_mul_zpow, ← zpow_natCast]
      exact zpow_le_zpow_right₀ (by norm_num) (by push_cast; omega)
  calc t ≤ 2 ^ 53 * 2 ^ (Int.log 2 r + 1) := bounded
    _ = 2 ^ 54 * 2 ^ Int.log 2 r := by rw [zpow_add_one₀ (by norm_num)]; ring
    _ ≤ 2 ^ 54 * r := mul_le_mul_of_nonneg_left below (by norm_num)

/-- In a finite sum, one of the terms has a share that does not vanish. -/
theorem exists_share_pos {terms : List Float} (finite : ∀ x ∈ terms, 0 ≤ x ∧ value x ≠ ⊤) (present : ∃ x ∈ terms, 0 < x)
    (total : 0 < terms.foldl (· + ·) 0) (bounded : value (terms.foldl (· + ·) 0) ≠ ⊤) :
    ∃ m ∈ terms, 0 < m / terms.foldl (· + ·) 0 := by
  obtain ⟨x, listed, positive⟩ := present
  obtain ⟨m, member, largest⟩ := exists_largest (List.ne_nil_of_mem listed)
  obtain ⟨nonneg, below⟩ := finite m member
  have above : 0 < value m := ((pos_iff x).mp positive).2.trans_le (largest x listed)
  have term : FinitePos m :=
    ⟨(pos_iff m).mpr ⟨number_right nonneg, above⟩, (isFinite_iff_of_nonneg nonneg).mpr below⟩
  have sum : FinitePos (terms.foldl (· + ·) 0) := ⟨total, (isFinite_iff_of_nonneg (le_of_lt total)).mpr bounded⟩
  have most : real (terms.foldl (· + ·) 0) ≤ 2 ^ 54 * real m :=
    sum_le_largest (fun y listed => (finite y listed).1) term.real_pos term.nearest_real.1
      (fun y listed => value_eq_real term.finite ▸ largest y listed) (value_eq_real sum.finite)
      (sum.nearest_real.2.trans overflow_lt)
  have share : (2 : ℝ) ^ (-54 : ℤ) ≤ real m / real (terms.foldl (· + ·) 0) := by
    rw [le_div_iff₀ sum.real_pos, zpow_neg, ← div_eq_inv_mul, div_le_iff₀ (by positivity), mul_comm]
    exact_mod_cast most
  have small : underflow < 2 ^ (-54 : ℤ) := zpow_lt_zpow_right₀ one_lt_two (by norm_num)
  exact ⟨m, member, (term.zero_lt_div_iff sum).mpr (small.trans_le share)⟩

end Bleu.Double
