import LabelPress.Proofs.Words
import LabelPress.Barcode.Stripes
import Mathlib.Dynamics.PeriodicPts.Lemmas
import Mathlib.Tactic.NormNum.Pow
import Mathlib.Tactic.NormNum.Prime

/-!
# The cycle of the shift register

The stripes of a barcode are read off a register of 32 bits, which a step takes from one word to the
next (`shiftStep`). A step keeps sums. After 32 steps the register holds the sum of ten of the words
it held before, those that the bits of `Register.taps` choose (`Register.iterate_32`).

A number `p` stands for a sum of steps: `Register.act p w` adds up those of the words from `w` on
that its bits choose. One such sum after another is again such a sum. Its number is the product of
the two as polynomials over two elements, where 32 steps are replaced by what `taps` says
(`Register.act_mul`). So any number of steps is found by squaring again and again
(`Register.act_power`), and `2 ^ 32 - 1` steps turn out to be none at all
(`Register.isPeriodicPt_period`).

A word with a lesser period would already be back after `(2 ^ 32 - 1) / p` steps, for one of the
primes `p` of `2 ^ 32 - 1`. The sum of so many steps and of none would take it to zero. But a power
of this sum is no step at all, so it takes nothing to zero but zero
(`Register.eq_zero_of_isPeriodicPt`). The period of a word other than zero is therefore
`2 ^ 32 - 1`, and as there are no more such words, they lie on one cycle
(`Register.exists_iterate_eq`).
-/

namespace LabelPress.Barcode

open Function Word

namespace Register

/-! ## Sums of steps -/

theorem isLinear_shiftStep : IsLinear shiftStep :=
  (isLinear_id.xor (isLinear_shiftLeft 5)).comp
    ((isLinear_id.xor (isLinear_shiftRight 17)).comp (isLinear_id.xor (isLinear_shiftLeft 13)))

/-- The sum of the words that the bits of `p` choose among `w` and the words after it. -/
def act (p : Nat) (w : UInt32) : UInt32 := combine shiftStep 32 p w

/-- The words that add up to the one after 32 steps. -/
def taps : Nat := 0x003ec241

theorem isLinear_act (p : Nat) : IsLinear (act p) := isLinear_combine 32 p isLinear_shiftStep

theorem act_xor (p q : Nat) (w : UInt32) : act (p ^^^ q) w = act p w ^^^ act q w :=
  combine_xor shiftStep 32 p q w

theorem act_one (w : UInt32) : act 1 w = w := combine_one shiftStep 31 w

theorem act_two : act 2 = shiftStep :=
  funext fun w => (combine_two_mul shiftStep 31 1 w).trans (combine_one shiftStep 30 _)

theorem iterate_32 (w : UInt32) : shiftStep^[32] w = act taps w :=
  congrFun ((isLinear_shiftStep.iterate 32).ext (isLinear_act taps) (by decide +kernel)) w

/-- The number of a sum of steps with one more step after it. -/
def timesStep (p : Nat) : Nat := (2 * p ^^^ pick (p / 2147483648) taps) % 4294967296

theorem timesStep_eq (p : Nat) :
    timesStep p = (2 * p ^^^ pick (p / 2 ^ 31) taps) % 2 ^ 32 := by
  have htop : 2 ^ 31 = 2147483648 := by norm_num
  have hend : 2 ^ 32 = 4294967296 := by norm_num
  rw [htop, hend, timesStep]

theorem act_timesStep (p : Nat) (w : UInt32) : act (timesStep p) w = shiftStep (act p w) := by
  have hact : IsLinear (act · w) := fun p q => act_xor p q w
  have htop : act (pick (p / 2 ^ 31) taps) w =
      pick (p / 2 ^ 31) (shiftStep^[31] (shiftStep w)) := by
    rw [← iterate_succ_apply, iterate_32]
    exact hact.map_pick _ _
  calc act (timesStep p) w
      = act (2 * p ^^^ pick (p / 2 ^ 31) taps) w := by
        rw [timesStep_eq, act, combine_mod, act]
    _ = combine shiftStep 31 p (shiftStep w) ^^^
          pick (p / 2 ^ 31) (shiftStep^[31] (shiftStep w)) := by
        rw [act_xor, htop, act, combine_two_mul]
    _ = act p (shiftStep w) := (combine_succ shiftStep 31 p (shiftStep w)).symm
    _ = shiftStep (act p w) := combine_apply 32 p w isLinear_shiftStep

/-- The number of a sum of steps after another. -/
def mul (p q : Nat) : Nat := combine timesStep 32 p q

theorem act_mul (p q : Nat) (w : UInt32) : act (mul p q) w = act p (act q w) := by
  have hact : IsLinear (act · w) := fun p q => act_xor p q w
  have hstep : Semiconj (act · w) timesStep shiftStep := fun p => act_timesStep p w
  exact map_combine hact isLinear_id p fun i _ => hstep.iterate_right i q

/-- The number of a sum of steps that is taken `n` times, for an `n` with `k` digits. -/
def power (p : Nat) : Nat → Nat → Nat
  | 0, _ => 1
  | k + 1, n =>
    let rest := power (mul p p) k (n / 2)
    if n % 2 = 1 then mul p rest else rest

theorem act_power (p : Nat) {k n : Nat} (hn : n < 2 ^ k) : act (power p k n) = (act p)^[n] := by
  induction k generalizing p n with
  | zero =>
    obtain rfl : n = 0 := by simpa using hn
    exact funext act_one
  | succ k ih =>
    have hhalf : n / 2 < 2 ^ k := by
      rw [Nat.pow_succ] at hn
      omega
    have hsquare : act (mul p p) = (act p)^[2] := funext (act_mul p p)
    have hrest : act (power (mul p p) k (n / 2)) = (act p)^[2 * (n / 2)] := by
      rw [ih _ hhalf, hsquare, iterate_mul]
    by_cases hodd : n % 2 = 1
    · have hdigits : n = 2 * (n / 2) + 1 := by omega
      rw [power, if_pos hodd, hdigits, iterate_succ', ← hdigits, ← hrest]
      exact funext (act_mul p _)
    · have hdigits : n = 2 * (n / 2) := by omega
      rw [power, if_neg hodd, hrest, ← hdigits]

/-! ## The period -/

/-- The number of words other than zero. -/
def period : Nat := 4294967295

theorem isPeriodicPt_period (w : UInt32) : IsPeriodicPt shiftStep period w := by
  have hpower : power 2 32 period = 1 := by decide +kernel
  rw [IsPeriodicPt, ← act_two, ← act_power 2 (by decide : period < 2 ^ 32), hpower]
  exact act_one w

theorem mem_of_prime_of_dvd_period {p : Nat} (hp : p.Prime) (hdvd : p ∣ period) :
    p ∈ [3, 5, 17, 257, 65537] := by
  have hfactors : period = 3 * 5 * 17 * 257 * 65537 := by decide
  rw [hfactors] at hdvd
  simp only [hp.dvd_mul, Nat.prime_dvd_prime_iff_eq hp (by norm_num : Nat.Prime 3),
    Nat.prime_dvd_prime_iff_eq hp (by norm_num : Nat.Prime 5),
    Nat.prime_dvd_prime_iff_eq hp (by norm_num : Nat.Prime 17),
    Nat.prime_dvd_prime_iff_eq hp (by norm_num : Nat.Prime 257),
    Nat.prime_dvd_prime_iff_eq hp (by norm_num : Nat.Prime 65537)] at hdvd
  simpa [or_assoc] using hdvd

/-- No word but zero is back after the period divided by one of its primes. -/
theorem eq_zero_of_isPeriodicPt {p : Nat} (hp : p ∈ [3, 5, 17, 257, 65537]) {w : UInt32}
    (hw : IsPeriodicPt shiftStep (period / p) w) : w = 0 := by
  -- the sum of so many steps and of none, the power of which is no step at all
  let sum := power 2 32 (period / p) ^^^ 1
  have hunit : ∀ p ∈ [3, 5, 17, 257, 65537],
      power (power 2 32 (period / p) ^^^ 1) 32 period = 1 := by decide +kernel
  have hdiv : period / p < 2 ^ 32 := (Nat.div_le_self _ _).trans_lt (by decide)
  have hsum : act sum w = 0 := by
    rw [act_xor, act_power 2 hdiv, act_two, hw.eq, act_one, UInt32.xor_self]
  calc w = act (power sum 32 period) w := by rw [hunit p hp, act_one]
    _ = (act sum)^[period] w := by rw [act_power sum (by decide : period < 2 ^ 32)]
    _ = 0 := (isLinear_act sum).iterate_eq_zero hsum (by decide)

/-- A period is the least one if no division by a prime gives another. -/
theorem minimalPeriod_eq_of_prime {α : Type*} {f : α → α} {x : α} {n : Nat}
    (hn : IsPeriodicPt f n x) (hprime : ∀ p, Nat.Prime p → p ∣ n → ¬IsPeriodicPt f (n / p) x) :
    minimalPeriod f x = n := by
  obtain ⟨m, hm⟩ := hn.minimalPeriod_dvd
  by_contra hne
  have hm1 : m ≠ 1 := by
    rintro rfl
    exact hne (by omega)
  obtain ⟨p, hp, k, rfl⟩ := Nat.exists_prime_and_dvd hm1
  have hfactors : n = p * (minimalPeriod f x * k) := by rw [hm, Nat.mul_left_comm]
  refine hprime p hp ⟨_, hfactors⟩ (isPeriodicPt_iff_minimalPeriod_dvd.mpr ⟨k, ?_⟩)
  rw [hfactors, Nat.mul_div_cancel_left _ hp.pos]

theorem minimalPeriod_shiftStep {w : UInt32} (hw : w ≠ 0) :
    minimalPeriod shiftStep w = period :=
  minimalPeriod_eq_of_prime (isPeriodicPt_period w) fun _ hp hdvd hback =>
    hw (eq_zero_of_isPeriodicPt (mem_of_prime_of_dvd_period hp hdvd) hback)

theorem bijective_shiftStep : Bijective shiftStep := by
  have hall : periodicPts shiftStep = Set.univ :=
    Set.eq_univ_of_forall fun w => mk_mem_periodicPts (by decide) (isPeriodicPt_period w)
  have hbij := bijOn_periodicPts shiftStep
  rwa [hall, Set.bijOn_univ] at hbij

/-! ## The cycle -/

theorem iterate_zero_word (n : Nat) : shiftStep^[n] 0 = 0 :=
  (isLinear_shiftStep.iterate n).map_zero

theorem iterate_eq_zero_iff {w : UInt32} {n : Nat} : shiftStep^[n] w = 0 ↔ w = 0 := by
  have hinjective := bijective_shiftStep.injective.iterate n
  exact ⟨fun h => hinjective (h.trans (iterate_zero_word n).symm), fun h => h ▸ iterate_zero_word n⟩

theorem iterate_eq_self_iff {w : UInt32} {n : Nat} :
    shiftStep^[n] w = w ↔ w = 0 ∨ period ∣ n := by
  by_cases hw : w = 0
  · simp only [hw, iterate_zero_word, true_or]
  · rw [← minimalPeriod_shiftStep hw, ← isPeriodicPt_iff_minimalPeriod_dvd]
    simp only [hw, false_or]
    rfl

/-- The words on the cycle of `v`, counted by the words other than zero. -/
def walk (v u : UInt32) : UInt32 := if u = 0 then 0 else shiftStep^[u.toNat - 1] v

section
variable {v : UInt32} (hv : v ≠ 0)
include hv

theorem walk_eq_zero_iff {u : UInt32} : walk v u = 0 ↔ u = 0 := by
  unfold walk
  split
  case isTrue hu => exact iff_of_true rfl hu
  case isFalse hu => exact iff_of_false (mt iterate_eq_zero_iff.mp hv) hu

/-- The cycle does not close before all words other than zero are counted. -/
theorem injective_walk : Injective (walk v) := by
  intro a b hab
  by_cases ha : a = 0
  · have hb : walk v b = 0 := hab.symm.trans ((walk_eq_zero_iff hv).mpr ha)
    exact ha.trans ((walk_eq_zero_iff hv).mp hb).symm
  · have hb : b ≠ 0 := fun hb =>
      ha ((walk_eq_zero_iff hv).mp (hab.trans ((walk_eq_zero_iff hv).mpr hb)))
    have hpos {u : UInt32} (hu : u ≠ 0) : u.toNat ≠ 0 := fun h => hu (UInt32.toNat_inj.mp h)
    have hin (u : UInt32) : u.toNat - 1 < minimalPeriod shiftStep v := by
      have hword := u.toNat_lt
      rw [minimalPeriod_shiftStep hv, period]
      omega
    rw [walk, walk, if_neg ha, if_neg hb] at hab
    have hcounts := iterate_injOn_Iio_minimalPeriod (hin a) (hin b) hab
    have ha' := hpos ha
    have hb' := hpos hb
    exact UInt32.toNat_inj.mp (by omega)

/-- Every word other than zero is reached from every other one. -/
theorem exists_iterate_eq {w : UInt32} (hw : w ≠ 0) : ∃ n, shiftStep^[n] v = w := by
  have : Finite UInt32 := Finite.of_injective UInt32.toFin UInt32.toFin_injective
  obtain ⟨u, hu⟩ := Finite.surjective_of_injective (injective_walk hv) w
  have hcounted : u ≠ 0 := fun h => hw (hu.symm.trans ((walk_eq_zero_iff hv).mpr h))
  rw [walk, if_neg hcounted] at hu
  exact ⟨_, hu⟩

end

theorem exists_iterate_eq_iff {v w : UInt32} :
    (∃ n, shiftStep^[n] v = w) ↔ (v = 0 ↔ w = 0) := by
  constructor
  · rintro ⟨n, rfl⟩
    exact iterate_eq_zero_iff.symm
  · intro h
    by_cases hv : v = 0
    · exact ⟨0, hv.trans (h.mp hv).symm⟩
    · exact exists_iterate_eq hv (mt h.mpr hv)

end Register

/-! ## The register of the stripes -/

namespace Stripes

theorem state_skip (s : Stripes) (n : Nat) : (s.skip n).state = shiftStep^[n] s.state := by
  induction n generalizing s with
  | zero => rfl
  | succ n ih => exact ih s.next.2

theorem state_start_ne_zero (seed unit : UInt32) : (start seed unit).state ≠ 0 := by
  rw [start]
  split
  · exact (by decide : hashBasis ≠ 0)
  · assumption

theorem state_skip_start_ne_zero (seed unit : UInt32) (n : Nat) :
    ((start seed unit).skip n).state ≠ 0 := by
  rw [state_skip]
  exact mt Register.iterate_eq_zero_iff.mp (state_start_ne_zero seed unit)

end Stripes

/-- The register of the stripes is never zero, and no two words step to the same one. From a word
other than zero the register is back after a number of steps if and only if `2 ^ 32 - 1` divides
it, and before that it has held every word but zero. -/
theorem register_runs_through_all :
    (∀ (seed unit : UInt32) (n : Nat), ((Stripes.start seed unit).skip n).state ≠ 0) ∧
      Bijective shiftStep ∧
      (∀ (s : Stripes) (n : Nat),
        (s.skip n).state = s.state ↔ s.state = 0 ∨ 4294967295 ∣ n) ∧
      ∀ (s : Stripes) (w : UInt32), (∃ n, (s.skip n).state = w) ↔ (s.state = 0 ↔ w = 0) := by
  refine ⟨Stripes.state_skip_start_ne_zero, Register.bijective_shiftStep, fun s n => ?_,
    fun s w => ?_⟩
  · rw [Stripes.state_skip]
    exact Register.iterate_eq_self_iff
  · simp only [Stripes.state_skip]
    exact Register.exists_iterate_eq_iff

end LabelPress.Barcode
