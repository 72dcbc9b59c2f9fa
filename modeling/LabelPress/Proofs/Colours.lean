import LabelPress.Proofs.Register

/-!
# The colours of the stripes

A stripe is black if the lowest bit of the register is set after a step (`Stripes.black_nth`). The
lowest bit keeps sums, as a step does, so the sum of ten words that holds the register after 32
steps tells the next lowest bit from the 32 before it. If these are all equal, the next one is the
sum of an even number of equal bits, and the next stripe is white (`Register.low_iterate_32`).

So 32 white stripes would be followed by white ones only. But a register other than zero comes to
the word `1` some time, and then a stripe is black. Hence 32 lowest bits are zero only for a
register of zero (`Register.eq_zero_of_low`), and two registers with the same 32 lowest bits have a
sum of zero and are equal (`Register.eq_of_low`).
-/

namespace LabelPress.Barcode

open Function Word

namespace Register

/-- The lowest bit of a word. -/
def low (w : UInt32) : Nat := w.toNat % 2

theorem isLinear_low : IsLinear low := by
  intro v w
  rw [low, UInt32.toNat_xor]
  exact Nat.xor_mod_two_pow (n := 1)

variable {v w : UInt32}

/-- After 32 lowest bits that are equal comes a zero. -/
theorem low_iterate_32 (h : ∀ i < 32, low (shiftStep^[i] w) = low w) :
    low (shiftStep^[32] w) = 0 := by
  have hsum : low (act taps w) = combine id 32 taps (low w) :=
    map_combine isLinear_low isLinear_id taps fun i hi => by rw [h i hi, iterate_id]; rfl
  rw [iterate_32, hsum]
  -- the number of taps is even
  rcases Nat.mod_two_eq_zero_or_one w.toNat with hw | hw <;> rw [low, hw] <;> decide

theorem low_iterate_eq_zero (h : ∀ i < 32, low (shiftStep^[i] w) = 0) (n : Nat) :
    low (shiftStep^[n] w) = 0 := by
  induction n using Nat.strong_induction_on with
  | _ n ih =>
    by_cases hn : n < 32
    · exact h n hn
    · obtain ⟨m, rfl⟩ : ∃ m, n = 32 + m := ⟨n - 32, by omega⟩
      rw [iterate_add_apply]
      refine low_iterate_32 fun i hi => ?_
      rw [← iterate_add_apply, ih (i + m) (by omega), ih m (by omega)]

theorem eq_zero_of_low (h : ∀ i < 32, low (shiftStep^[i] w) = 0) : w = 0 := by
  by_contra hw
  obtain ⟨n, hn⟩ := exists_iterate_eq hw (by decide : (1 : UInt32) ≠ 0)
  have hzero := low_iterate_eq_zero h n
  rw [hn] at hzero
  exact absurd hzero (by decide)

theorem eq_of_low (h : ∀ i < 32, low (shiftStep^[i] v) = low (shiftStep^[i] w)) : v = w := by
  refine UInt32.xor_eq_zero_iff.mp (eq_zero_of_low fun i hi => ?_)
  rw [isLinear_shiftStep.iterate i, isLinear_low, h i hi, Nat.xor_self]

end Register

open Register

namespace Stripes

variable (s : Stripes) (n : Nat)

theorem take_eq_map : s.take n = (List.range n).map s.nth := by
  induction n generalizing s with
  | zero => rfl
  | succ n ih =>
    rw [take, ih, List.range_succ_eq_map, List.map_cons, List.map_map]
    rfl

theorem nth_mem_take {i n : Nat} (hi : i < n) : s.nth i ∈ s.take n := by
  rw [take_eq_map]
  exact List.mem_map_of_mem (List.mem_range.mpr hi)

theorem black_nth_iff : (s.nth n).black = true ↔ low (shiftStep^[n + 1] s.state) = 1 := by
  have hbit (w : UInt32) : w &&& 1 = 1 ↔ low w = 1 := by
    rw [← UInt32.toNat_inj, UInt32.toNat_and, low]
    exact iff_of_eq (congrArg (· = 1) (Nat.and_one_is_mod w.toNat))
  rw [iterate_succ_apply', ← state_skip, ← hbit]
  exact decide_eq_true_iff

theorem black_nth_eq_false_iff : (s.nth n).black = false ↔ low (shiftStep^[n + 1] s.state) = 0 := by
  rw [← Bool.not_eq_true, black_nth_iff]
  exact Nat.mod_two_ne_one

variable {s}

/-- One of 32 stripes is black. -/
theorem exists_black (hs : s.state ≠ 0) : ∃ i < 32, (s.nth i).black = true := by
  by_contra! hwhite
  have hlow : ∀ i < 32, low (shiftStep^[i] (shiftStep s.state)) = 0 := fun i hi =>
    (black_nth_eq_false_iff s i).mp (Bool.not_eq_true _ ▸ hwhite i hi)
  exact hs (iterate_eq_zero_iff.mp (eq_zero_of_low hlow : shiftStep^[1] s.state = 0))

/-- One of 33 stripes is white. -/
theorem exists_white (s : Stripes) : ∃ i < 33, (s.nth i).black = false := by
  by_contra! hblack
  have hlow : ∀ i < 33, low (shiftStep^[i] (shiftStep s.state)) = 1 := fun i hi =>
    (black_nth_iff s i).mp (Bool.not_eq_false _ ▸ hblack i hi)
  have hnext : low (shiftStep^[32] (shiftStep s.state)) = 0 :=
    low_iterate_32 fun i hi => (hlow i (by omega)).trans (hlow 0 (by decide)).symm
  exact absurd (hnext.symm.trans (hlow 32 (by decide))) (by decide)

/-- The colours of 32 stripes tell the register. -/
theorem black_nth_eq_iff {s t : Stripes} :
    (∀ i < 32, (s.nth i).black = (t.nth i).black) ↔ s.state = t.state := by
  constructor
  · intro h
    refine bijective_shiftStep.injective (eq_of_low fun i hi => ?_)
    cases ht : (t.nth i).black with
    | false =>
      have hs : (s.nth i).black = false := (h i hi).trans ht
      rw [black_nth_eq_false_iff] at hs ht
      exact hs.trans ht.symm
    | true =>
      have hs : (s.nth i).black = true := (h i hi).trans ht
      rw [black_nth_iff] at hs ht
      exact hs.trans ht.symm
  · intro h i _
    rw [Bool.eq_iff_iff, black_nth_iff, black_nth_iff, h]

theorem state_start_eq_iff (a b unit unit' : UInt32) :
    (start a unit).state = (start b unit').state ↔
      a = b ∨ (a = 0 ∧ b = hashBasis) ∨ (a = hashBasis ∧ b = 0) := by
  have hbasis : hashBasis ≠ 0 := by decide
  by_cases ha : a = 0 <;> by_cases hb : b = 0 <;> grind [start]

end Stripes

/-- The colours of the first 32 stripes tell the seed, but for zero and the hash of the empty text,
which give the same colours. Wherever one looks, there is a black stripe among any 32 and a white
one among any 33. -/
theorem colours_identify_seed :
    (∀ a b unit unit' : UInt32,
      ((Stripes.start a unit).take 32).map Stripe.black =
          ((Stripes.start b unit').take 32).map Stripe.black ↔
        a = b ∨ (a = 0 ∧ b = hashBasis) ∨ (a = hashBasis ∧ b = 0)) ∧
      ∀ (seed unit : UInt32) (n : Nat),
        (∃ stripe ∈ ((Stripes.start seed unit).skip n).take 32, stripe.black = true) ∧
          ∃ stripe ∈ ((Stripes.start seed unit).skip n).take 33, stripe.black = false := by
  refine ⟨fun a b unit unit' => ?_, fun seed unit n => ⟨?_, ?_⟩⟩
  · rw [← Stripes.state_start_eq_iff a b unit unit', ← Stripes.black_nth_eq_iff]
    simp only [Stripes.take_eq_map, List.map_map, List.map_inj_left, List.mem_range, comp_apply]
  · obtain ⟨i, hi, hblack⟩ := Stripes.exists_black (Stripes.state_skip_start_ne_zero seed unit n)
    exact ⟨_, Stripes.nth_mem_take _ hi, hblack⟩
  · obtain ⟨i, hi, hwhite⟩ := Stripes.exists_white ((Stripes.start seed unit).skip n)
    exact ⟨_, Stripes.nth_mem_take _ hi, hwhite⟩

end LabelPress.Barcode
