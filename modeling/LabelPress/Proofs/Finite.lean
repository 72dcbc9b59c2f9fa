import LabelPress.Proofs.Range

/-!
# Finite positive numbers

`Single.value?` reads the rational number off the bits of a number in single precision. It gives
a positive one exactly if the number is finite and above zero, in the sense in which numbers are
compared (`Single.exists_value?_pos_iff`). So what is neither infinite nor no number at all, and
more than zero, is what has a positive value.

Both sides are told from the bits. The sign is the highest of them, the next eight are the
exponent, which has all bits set for what is not finite, and without its sign only zero has no
bit set at all.
-/

namespace LabelPress.Single

open Float.Model Float.Model.UnpackedFloat

/-! ## The parts of a word -/

section Word

variable (b : BitVec Format.binary32.numBits)

theorem unpackExponent_eq_iff (e : BitVec 8) :
    unpackExponent b = e ↔ b.toNat / leastFull % 256 = e.toNat := by
  rw [← BitVec.toNat_inj]
  simp [unpackExponent, BitVec.extractLsb, Nat.shiftRight_eq_div_pow, leastFull]

theorem unpackMantissa_eq_iff (m : BitVec 23) :
    unpackMantissa b = m ↔ b.toNat % leastFull = m.toNat := by
  rw [← BitVec.toNat_inj]
  simp [unpackMantissa, BitVec.extractLsb, leastFull]

/-- The sign is the highest bit. -/
theorem ofBitVec_unpackSign_eq_positive_iff :
    Sign.ofBitVec (unpackSign b) = .positive ↔ b.toNat < 2147483648 := by
  have hbit : (unpackSign b).toNat = b.toNat / 2147483648 % 2 := by
    change (BitVec.extractLsb 31 31 b).toNat = _
    simp [BitVec.extractLsb, Nat.shiftRight_eq_div_pow]
  have hzero : unpackSign b = 0#1 ↔ b.toNat < 2147483648 := by
    have hword : b.toNat < 4294967296 := b.isLt
    rw [← BitVec.toNat_inj, hbit, BitVec.toNat_zero]
    omega
  rw [← hzero, Sign.ofBitVec]
  split <;> simp_all

theorem isFinite_finite (s : Sign) (m : Nat) (e : Int) (h : 0 < m) :
    (UnpackedFloat.finite s m e h).isFinite = true := rfl

theorem zero_lt_finite_iff (s : Sign) (m : Nat) (e : Int) (h : 0 < m) :
    (UnpackedFloat.zero .positive).lt (.finite s m e h) = true ↔ s = .positive := by
  cases s with
  | positive => exact iff_of_true rfl rfl
  | negative => exact iff_of_false Bool.false_ne_true nofun

theorem unpack_isFinite_and_pos_iff :
    ((UnpackedFloat.unpack .binary32 b).isFinite = true ∧
        (UnpackedFloat.zero .positive).lt (UnpackedFloat.unpack .binary32 b) = true) ↔
      b.toNat / leastFull % 256 ≠ 255 ∧ b.toNat < 2147483648 ∧ b.toNat ≠ 0 := by
  have htop : unpackExponent b = -1#_ ↔ b.toNat / leastFull % 256 = 255 :=
    unpackExponent_eq_iff b _
  have hzero : unpackExponent b = 0#_ ↔ b.toNat / leastFull % 256 = 0 :=
    unpackExponent_eq_iff b _
  have hnone : unpackMantissa b = 0#_ ↔ b.toNat % leastFull = 0 := unpackMantissa_eq_iff b _
  have hsign := ofBitVec_unpackSign_eq_positive_iff b
  have hword : b.toNat < 4294967296 := b.isLt
  simp only [leastFull] at *
  unfold UnpackedFloat.unpack
  by_cases hmax : b.toNat / 8388608 % 256 = 255
  · rw [if_pos (htop.mpr hmax)]
    refine iff_of_false (fun h => ?_) (fun h => h.1 hmax)
    obtain ⟨hfinite, -⟩ := h
    by_cases hleft : b.toNat % 8388608 = 0
    · rw [if_pos (hnone.mpr hleft)] at hfinite
      exact Bool.false_ne_true hfinite
    · rw [if_neg (mt hnone.mp hleft)] at hfinite
      exact Bool.false_ne_true hfinite
  · rw [if_neg (mt htop.mp hmax)]
    by_cases hlow : b.toNat / 8388608 % 256 = 0
    · rw [if_pos (hzero.mpr hlow)]
      by_cases hleft : b.toNat % 8388608 = 0
      · have hnot : (UnpackedFloat.zero .positive).lt (.zero (.ofBitVec (unpackSign b))) = false :=
          rfl
        rw [dif_pos (hnone.mpr hleft), hnot]
        simp only [Bool.false_eq_true, and_false, false_iff]
        omega
      · rw [dif_neg (mt hnone.mp hleft), isFinite_finite, and_iff_right rfl, zero_lt_finite_iff,
          hsign]
        omega
    · rw [if_neg (mt hzero.mp hlow), isFinite_finite, and_iff_right rfl, zero_lt_finite_iff,
        hsign]
      omega

end Word

/-- What the bits of a number say of it as a finite one above zero. -/
theorem isFinite_and_pos_iff (f : Float32) :
    (f.isFinite = true ∧ 0 < f) ↔
      f.toBits.toNat / leastFull % 256 ≠ 255 ∧ f.toBits.toNat < 2147483648 ∧
        f.toBits.toNat ≠ 0 := by
  have hpos : 0 < f ↔ (UnpackedFloat.zero .positive).lt
      (UnpackedFloat.unpack .binary32 f.toBits.toBitVec) = true := decide_eq_true_iff
  rw [hpos]
  exact unpack_isFinite_and_pos_iff f.toBits.toBitVec

/-! ## The value of a word -/

theorem isNegative_iff (f : Float32) : isNegative f = true ↔ 2147483648 ≤ f.toBits.toNat := by
  simp [isNegative, UInt32.le_iff_toNat_le]

theorem magnitude?_eq_none_iff (f : Float32) :
    magnitude? f = none ↔ f.toBits.toNat / leastFull % 256 = 255 := by
  have hbiased : f.toBits.toNat % 2147483648 / leastFull = f.toBits.toNat / leastFull % 256 := by
    simp only [leastFull]
    omega
  rw [← hbiased]
  unfold magnitude?
  dsimp only
  split
  · simp_all
  · split <;> simp_all

theorem significand_pos_iff {f : Float32} {m : Magnitude} (h : magnitude? f = some m) :
    0 < m.significand ↔ f.toBits.toNat % 2147483648 ≠ 0 := by
  unfold magnitude? at h
  dsimp only at h
  split at h
  · cases h
  · split at h <;> cases h <;> simp only [leastFull] at * <;> omega

theorem Magnitude.value_pos_iff (m : Magnitude) : 0 < m.value ↔ 0 < m.significand := by
  have hpower : (0 : Rat) < 2 ^ m.exponent := Rat.zpow_pos (by decide)
  rw [Magnitude.value, mul_pos_iff_of_pos_right hpower]
  exact Nat.cast_pos

/-- A number has a positive value exactly if it is finite and above zero. -/
theorem exists_value?_pos_iff (f : Float32) :
    (∃ q, value? f = some q ∧ 0 < q) ↔ f.isFinite = true ∧ 0 < f := by
  have hword : f.toBits.toNat < 4294967296 := f.toBits.toBitVec.isLt
  have hnone := magnitude?_eq_none_iff f
  have hnegative := isNegative_iff f
  rw [isFinite_and_pos_iff, value?]
  cases h : magnitude? f with
  | none => simp [hnone.mp h]
  | some m =>
    have hfinite : ¬f.toBits.toNat / leastFull % 256 = 255 := by simp [← hnone, h]
    have hpos := m.value_pos_iff.trans (significand_pos_iff h)
    have hnonneg := m.value_nonneg
    simp only [Option.map_some, Option.some.injEq, exists_eq_left']
    by_cases hsign : isNegative f = true
    · have hbits := hnegative.mp hsign
      rw [if_pos hsign]
      constructor
      · intro hvalue
        linarith
      · omega
    · rw [if_neg hsign, hpos]
      rw [hnegative] at hsign
      omega

end LabelPress.Single
