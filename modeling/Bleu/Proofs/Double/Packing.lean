import Bleu.Proofs.Double.Machine

/-!
# Packed doubles

A double is kept in 64 bits. Unpacking gives back every packed number that is written canonically
(`unpack_pack_of_le`), or infinity where the exponent is too large (`unpack_pack_of_lt`), and it tells different
doubles apart (`eq_of_unpack_eq`).
-/
namespace Bleu.Double
open Float.Model Float.Model.UnpackedFloat

/-! ## The three parts -/

theorem toNat_one_append (mantissa : BitVec 52) : (1#1 ++ mantissa).toNat = 2 ^ 52 + mantissa.toNat := by
  rw [BitVec.toNat_append, ← Nat.shiftLeft_add_eq_or_of_lt mantissa.isLt]
  rfl

/-- The number with three given parts. -/
theorem unpack_packComponents (sign : Sign) (exponent : BitVec 11) (mantissa : BitVec 52) :
    unpack Format.binary64 (packComponents Format.binary64 sign exponent mantissa) =
      if exponent = -1#11 then if mantissa = 0#52 then .infinity sign else .notANumber
      else if exponent = 0#11 then
        if empty : mantissa = 0#52 then .zero sign
        else .finite sign mantissa.toNat (-1074) (Nat.pos_of_ne_zero fun zero => empty (BitVec.eq_of_toNat_eq zero))
      else .finite sign (2 ^ 52 + mantissa.toNat) (exponent.toNat - 1075) (by omega) := by
  unfold UnpackedFloat.unpack
  simp only [unpackMantissa_packComponents, unpackExponent_packComponents, unpackSign_packComponents,
    Sign.ofBitVec_toBitVec, toNat_one_append]
  by_cases special : exponent = -1#11
  · rw [if_pos special, if_pos special]
  · rw [if_neg special, if_neg special]
    by_cases zero : exponent = 0#11
    · subst zero
      rfl
    · rw [if_neg zero, if_neg zero]
      rfl

/-! ## Packing and unpacking -/

theorem pack_finite (sign : Sign) {m : ℕ} {e : ℤ} (positive : 0 < m) :
    pack Format.binary64 (.finite sign m e positive) =
      if 2 ^ 11 ≤ (e + 1023 + 52).toNat + 1 then packedInfinity Format.binary64 sign
      else if m.log2 + 1 = 53 then
        packComponents Format.binary64 sign (BitVec.ofNat 11 (e + 1023 + 52).toNat) (BitVec.ofNat 52 m)
      else packComponents Format.binary64 sign 0#11 (BitVec.ofNat 52 m) := rfl

theorem unpack_packedInfinity (sign : Sign) :
    unpack Format.binary64 (packedInfinity Format.binary64 sign) = .infinity sign :=
  unpack_packComponents sign (-1#11) 0#52

/-- An exponent that is too large for a double makes it infinite. -/
theorem unpack_pack_of_lt (sign : Sign) {m : ℕ} {e : ℤ} (positive : 0 < m) (large : 971 < e) :
    unpack Format.binary64 (pack Format.binary64 (.finite sign m e positive)) = .infinity sign := by
  rw [pack_finite, if_pos (by omega), unpack_packedInfinity]

/-- A number with all its digits keeps its exponent in the second part. -/
theorem unpack_pack_normal (sign : Sign) {m : ℕ} {e : ℤ} (positive : 0 < m) (digits : m < 2 ^ 53)
    (normal : 2 ^ 52 ≤ m) (last : -1074 ≤ e) (fits : e ≤ 971) :
    unpack Format.binary64 (pack Format.binary64 (.finite sign m e positive)) = .finite sign m e positive := by
  have length : m.log2 + 1 = 53 := by
    have lower := (Nat.le_log2 positive.ne').mpr normal
    have upper := (Nat.log2_lt positive.ne').mpr digits
    omega
  have exponent : (BitVec.ofNat 11 (e + 1023 + 52).toNat).toNat = (e + 1023 + 52).toNat :=
    (BitVec.toNat_ofNat _ _).trans (Nat.mod_eq_of_lt (by omega))
  have mantissa : 2 ^ 52 + (BitVec.ofNat 52 m).toNat = m := by
    rw [BitVec.toNat_ofNat]
    omega
  have finite : BitVec.ofNat 11 (e + 1023 + 52).toNat ≠ -1#11 := by
    intro same
    have := congrArg BitVec.toNat same
    rw [exponent] at this
    change _ = 2047 at this
    omega
  have nonzero : BitVec.ofNat 11 (e + 1023 + 52).toNat ≠ 0#11 := by
    intro same
    have := congrArg BitVec.toNat same
    rw [exponent] at this
    change _ = 0 at this
    omega
  rw [pack_finite, if_neg (by omega), if_pos length, unpack_packComponents, if_neg finite, if_neg nonzero]
  simp only [mantissa, exponent, UnpackedFloat.finite.injEq, true_and]
  omega

/-- A number with fewer digits has the least exponent, which the second part marks with zero. -/
theorem unpack_pack_subnormal (sign : Sign) {m : ℕ} (positive : 0 < m) (few : m < 2 ^ 52) :
    unpack Format.binary64 (pack Format.binary64 (.finite sign m (-1074) positive)) =
      .finite sign m (-1074) positive := by
  have length : ¬ m.log2 + 1 = 53 := by
    have upper := (Nat.log2_lt positive.ne').mpr few
    omega
  have mantissa : (BitVec.ofNat 52 m).toNat = m := (BitVec.toNat_ofNat _ _).trans (Nat.mod_eq_of_lt few)
  have nonzero : BitVec.ofNat 52 m ≠ 0#52 := by
    intro same
    rw [same] at mantissa
    change 0 = m at mantissa
    omega
  rw [pack_finite, if_neg (by decide), if_neg length, unpack_packComponents, if_neg (by decide), if_pos rfl,
    dif_neg nonzero]
  simp only [mantissa]

/-- Other numbers are kept, if they are written canonically. -/
theorem unpack_pack_of_le (sign : Sign) {m : ℕ} {e : ℤ} (positive : 0 < m) (canonical : Canonical m e)
    (fits : e ≤ 971) :
    unpack Format.binary64 (pack Format.binary64 (.finite sign m e positive)) = .finite sign m e positive := by
  obtain ⟨digits, last, least⟩ := canonical
  by_cases normal : 2 ^ 52 ≤ m
  · exact unpack_pack_normal sign positive digits normal last fits
  · obtain rfl := least.resolve_left normal
    exact unpack_pack_subnormal sign positive (Nat.lt_of_not_le normal)

/-- A number that unpacking gives is written canonically, with an exponent that fits. -/
theorem canonical_of_unpack_eq {b : BitVec Format.binary64.numBits} {sign : Sign} {m : ℕ} {e : ℤ} {positive : 0 < m}
    (finite : unpack Format.binary64 b = .finite sign m e positive) : Canonical m e ∧ e ≤ 971 := by
  rw [← packComponents_unpackSign_unpackExponent_unpackMantissa b, unpack_packComponents] at finite
  generalize unpackExponent b = exponent at finite
  generalize unpackMantissa b = mantissa at finite
  have below : mantissa.toNat < 2 ^ 52 := mantissa.isLt
  split_ifs at finite with special empty zero empty
  · simp only [UnpackedFloat.finite.injEq] at finite
    obtain ⟨_, rfl, rfl⟩ := finite
    exact ⟨⟨by omega, le_rfl, .inr rfl⟩, by omega⟩
  · simp only [UnpackedFloat.finite.injEq] at finite
    obtain ⟨_, rfl, rfl⟩ := finite
    have lower : exponent.toNat ≠ 0 := fun same => zero (BitVec.eq_of_toNat_eq same)
    have upper : exponent.toNat ≠ 2047 := fun same => special (BitVec.eq_of_toNat_eq same)
    have range : exponent.toNat < 2048 := exponent.isLt
    exact ⟨⟨by omega, by omega, .inl (by omega)⟩, by omega⟩

/-- Different doubles unpack differently. -/
theorem eq_of_unpack_eq {a b : Float} (same : a.toModel.unpack = b.toModel.unpack) : a = b := by
  obtain ⟨⟨bits, valid⟩⟩ := a
  obtain ⟨⟨others, fits⟩⟩ := b
  have equal : bits = others := UInt64.toBitVec_inj.mp ((unpack_inj_of_valid valid fits).mp same)
  subst equal
  rfl

end Bleu.Double
