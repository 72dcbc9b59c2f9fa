import LabelPress.Proofs.Range
import Mathlib.Algebra.Order.Field.Power
import Mathlib.Tactic.Positivity
import Mathlib.Tactic.Ring

/-!
# Rounding to single precision

A number above zero lies in its binade (`binade_spec`) and is rounded to a multiple of a power of
two, the one that leaves the significand 24 bits (`value_nearest`, `roundEven_div_grid_le`). On one
grid the order is kept because rounding to whole numbers keeps it. Between two grids it is kept
because the coarser one starts where the finer one ends (`nearest_mono`). Both signs are rounded
alike (`round_neg`), so rounding keeps the order (`round_mono`).

The numbers with a significand of 24 bits (`IsSingle`) are the results (`isSingle_round`), and none
of them is nearer to a number than its result (`abs_round_sub_le`). So they are left alone
(`round_of_isSingle`), and a bound that is one of them holds after rounding as well as before
(`le_round`, `round_le`), which is how edges in pixels are compared with the centres of pixels. The
distance of such a number from a whole number not far below it is exact (`IsSingle.sub_natCast`).
What is no such number is moved by half a step of the grid at most (`abs_round_sub_le_of_abs_le`).
-/

namespace LabelPress.Single

/-! ## Whole numbers -/

theorem floor_le_roundEven (q : Rat) : q.floor ≤ roundEven q := by
  unfold roundEven
  dsimp only
  split <;> omega

theorem roundEven_le (q : Rat) : roundEven q ≤ q.floor + 1 := by
  unfold roundEven
  dsimp only
  split <;> omega

theorem roundEven_intCast (n : Int) : roundEven n = n := by
  simp [roundEven, Rat.floor_intCast]

theorem abs_roundEven_sub_le_half (q : Rat) : |roundEven q - q| ≤ 1 / 2 := by
  have hlow := Rat.floor_le q
  have hhigh := Rat.lt_floor_add_one q
  push_cast at hhigh
  unfold roundEven
  rw [abs_le]
  dsimp only
  split_ifs with h
  · rcases h with h | ⟨h, -⟩ <;> constructor <;> linarith
  · have hhalf : 1 / 2 ≤ q - q.floor := not_lt.mp fun hlt => h (.inl hlt)
    push_cast
    constructor <;> linarith

/-- No whole number is nearer to a number than the one it is rounded to. -/
theorem abs_roundEven_sub_le (q : Rat) (n : Int) : |roundEven q - q| ≤ |n - q| := by
  rcases eq_or_ne (roundEven q) n with rfl | hne
  · exact le_rfl
  -- Another whole number is one away at least, and only half of it is on this side of the number.
  · have hone : (1 : Rat) ≤ |(roundEven q : Rat) - n| := by
      exact_mod_cast Int.one_le_abs (sub_ne_zero.mpr hne)
    have hway := abs_sub_le (roundEven q : Rat) q n
    rw [abs_sub_comm q] at hway
    linarith [abs_roundEven_sub_le_half q]

/-- Rounding to the nearest whole number keeps the order. -/
theorem roundEven_mono {p q : Rat} (h : p ≤ q) : roundEven p ≤ roundEven q := by
  have hfloor : p.floor ≤ q.floor := Rat.floor_monotone h
  rcases lt_or_eq_of_le hfloor with hlt | heq
  · have := roundEven_le p
    have := floor_le_roundEven q
    omega
  · have hpart : p - p.floor ≤ q - q.floor := by
      rw [heq]
      linarith
    unfold roundEven
    dsimp only
    rw [← heq] at hpart ⊢
    split_ifs with hp hq
    · exact le_rfl
    · omega
    · rename_i hq
      exfalso
      refine hp ?_
      rcases hq with hq | ⟨hq, heven⟩
      · exact .inl (by linarith)
      · rcases lt_or_eq_of_le (hq ▸ hpart) with hlt | hhalf
        · exact .inl hlt
        · exact .inr ⟨hhalf, heven⟩
    · exact le_rfl

theorem le_roundEven {n : Int} {q : Rat} (h : n ≤ q) : n ≤ roundEven q := by
  simpa only [roundEven_intCast] using roundEven_mono h

theorem roundEven_le_of_le {n : Int} {q : Rat} (h : q ≤ n) : roundEven q ≤ n := by
  simpa only [roundEven_intCast] using roundEven_mono h

theorem towardZero_le {q : Rat} {n : Int} (h : q < n + 1) (hn : 0 ≤ n) : towardZero q ≤ n := by
  unfold towardZero
  split
  · exact Int.lt_add_one_iff.mp (Rat.floor_lt_iff.mpr (by exact_mod_cast h))
  · rename_i hneg
    have hfloor : 0 ≤ (-q).floor := Rat.le_floor_iff.mpr (by push_cast; linarith)
    omega

theorem le_towardZero {q : Rat} {n : Int} (h : n ≤ q) : n ≤ towardZero q := by
  unfold towardZero
  split
  · exact Rat.le_floor_iff.mpr h
  · have hfloor := Rat.floor_monotone (neg_le_neg h)
    rw [← Int.cast_neg, Rat.floor_intCast] at hfloor
    omega

/-! ## Binades -/

theorem two_zpow_log2 {n : Nat} (h : n ≠ 0) :
    (2 : Rat) ^ (n.log2 : Int) ≤ n ∧ (n : Rat) < 2 ^ ((n.log2 : Int) + 1) := by
  constructor
  · rw [zpow_natCast]
    exact_mod_cast Nat.log2_self_le h
  · have hlt : n < 2 ^ (n.log2 + 1) := Nat.lt_log2_self
    rw [← Nat.cast_succ, zpow_natCast]
    exact_mod_cast hlt

/-- A positive number lies in its binade. -/
theorem binade_spec {q : Rat} (h : 0 < q) : 2 ^ binade q ≤ q ∧ q < 2 ^ (binade q + 1) := by
  have hnum := two_zpow_log2 (n := q.num.natAbs) (by simpa using h.ne')
  have hden := two_zpow_log2 q.den_ne_zero
  have hdenpos : (0 : Rat) < q.den := by exact_mod_cast q.den_pos
  have hcast : (q.num.natAbs : Rat) = q * q.den := by
    rw [Rat.mul_den_eq_num, ← Int.cast_natCast, Int.natAbs_of_nonneg (Rat.num_nonneg.mpr h.le)]
  rw [hcast] at hnum
  unfold binade
  dsimp only
  generalize (q.num.natAbs.log2 : Int) = a at *
  generalize (q.den.log2 : Int) = b at *
  have hlow : (2 : Rat) ^ (a - b - 1) ≤ q := by
    refine le_of_mul_le_mul_right ?_ hdenpos
    calc (2 : Rat) ^ (a - b - 1) * q.den
        ≤ 2 ^ (a - b - 1) * 2 ^ (b + 1) := by gcongr; exact hden.2.le
      _ = 2 ^ a := by rw [← zpow_add₀ two_ne_zero]; congr 1; omega
      _ ≤ q * q.den := hnum.1
  have hhigh : q < 2 ^ (a - b + 1) := by
    refine lt_of_mul_lt_mul_right ?_ hdenpos.le
    calc q * q.den < 2 ^ (a + 1) := hnum.2
      _ = 2 ^ (a - b + 1) * 2 ^ b := by rw [← zpow_add₀ two_ne_zero]; congr 1; omega
      _ ≤ 2 ^ (a - b + 1) * q.den := by gcongr; exact hden.1
  split_ifs with hbinade
  · exact ⟨hbinade, hhigh⟩
  · rw [sub_add_cancel]
    exact ⟨hlow, lt_of_not_ge hbinade⟩

/-! ## The grid that a number is rounded to -/

/-- The power of two whose multiples a positive number is rounded to. -/
def grid (q : Rat) : Int := max (binade q - 23) leastExponent

theorem value_nearest {q : Rat} (h : 0 < q) :
    (nearest q).value = roundEven (q / 2 ^ grid q) * 2 ^ grid q := by
  have hnonneg : 0 ≤ roundEven (q / 2 ^ grid q) :=
    le_roundEven (by rw [Int.cast_zero]; positivity)
  have hcast : ((roundEven (q / 2 ^ grid q)).toNat : Rat) = roundEven (q / 2 ^ grid q) := by
    exact_mod_cast Int.toNat_of_nonneg hnonneg
  rw [← hcast]
  rfl

theorem lt_two_zpow_grid {q : Rat} (h : 0 < q) : q < 2 ^ (grid q + 24) := by
  refine (binade_spec h).2.trans_le (zpow_le_zpow_right₀ one_le_two ?_)
  unfold grid
  omega

/-- The significand of a rounded number has 24 bits, or is the next power of two. -/
theorem roundEven_div_grid_le {q : Rat} (h : 0 < q) : roundEven (q / 2 ^ grid q) ≤ 16777216 := by
  refine roundEven_le_of_le ?_
  rw [div_le_iff₀ (by positivity)]
  refine (lt_two_zpow_grid h).le.trans_eq ?_
  rw [zpow_add₀ two_ne_zero, mul_comm]
  norm_num

/-- Above the least grid, the significand of a number has all its bits. -/
theorem mul_two_zpow_grid_le {q : Rat} (h : 0 < q) (hgrid : leastExponent < grid q) :
    8388608 * 2 ^ grid q ≤ q := by
  have hbinade : binade q = 23 + grid q := by
    unfold grid at hgrid ⊢
    omega
  have hlow := (binade_spec h).1
  rw [hbinade, zpow_add₀ two_ne_zero] at hlow
  exact (by norm_num : (8388608 : Rat) * 2 ^ grid q = 2 ^ (23 : Int) * 2 ^ grid q).trans_le hlow

/-- Above the least grid, so has the significand of a rounded number. -/
theorem le_roundEven_div_grid {q : Rat} (h : 0 < q) (hgrid : leastExponent < grid q) :
    8388608 ≤ roundEven (q / 2 ^ grid q) := by
  refine le_roundEven ?_
  rw [le_div_iff₀ (by positivity)]
  exact_mod_cast mul_two_zpow_grid_le h hgrid

theorem grid_mono {p q : Rat} (hp : 0 < p) (h : p ≤ q) : grid p ≤ grid q := by
  have hbinade : binade p < binade q + 1 := by
    refine (zpow_lt_zpow_iff_right₀ (one_lt_two : (1 : Rat) < 2)).mp ?_
    exact ((binade_spec hp).1.trans h).trans_lt (binade_spec (hp.trans_le h)).2
  unfold grid
  omega

/-! ## Numbers in single precision -/

/-- Whether a number is a significand of at most 24 bits times a power of two that is not below
the least one. -/
def IsSingle (q : Rat) : Prop :=
  ∃ (n e : Int), q = n * 2 ^ e ∧ -16777216 < n ∧ n < 16777216 ∧ leastExponent ≤ e

theorem IsSingle.neg {q : Rat} (h : IsSingle q) : IsSingle (-q) := by
  obtain ⟨n, e, rfl, hlow, hhigh, he⟩ := h
  exact ⟨-n, e, by push_cast; ring, by omega, by omega, he⟩

theorem isSingle_intCast {n : Int} (hlow : -16777216 ≤ n) (hhigh : n ≤ 16777216) : IsSingle n := by
  rcases lt_or_eq_of_le hlow with hlow | rfl
  · rcases lt_or_eq_of_le hhigh with hhigh | rfl
    · exact ⟨n, 0, by simp, hlow, hhigh, by decide⟩
    · exact ⟨8388608, 1, by norm_num, by decide, by decide, by decide⟩
  · exact ⟨-8388608, 1, by norm_num, by decide, by decide, by decide⟩

theorem isSingle_add_half {n : Int} (hlow : -8388608 ≤ n) (hhigh : n < 8388608) :
    IsSingle (n + 1 / 2) :=
  ⟨2 * n + 1, -1, by push_cast; ring, by omega, by omega, by decide⟩

theorem abs_mul_two_zpow_sub (n k : Int) (q : Rat) :
    |n * 2 ^ k - q| = |n - q / 2 ^ k| * 2 ^ k := by
  have hstep : (0 : Rat) < 2 ^ k := by positivity
  calc |n * 2 ^ k - q| = |(n - q / 2 ^ k) * 2 ^ k| := by
        rw [sub_mul, div_mul_cancel₀ q hstep.ne']
    _ = |n - q / 2 ^ k| * 2 ^ k := by rw [abs_mul, abs_of_pos hstep]

theorem abs_nearest_sub_le {p q : Rat} (hp : IsSingle p) (hq : 0 < q) :
    |(nearest q).value - q| ≤ |p - q| := by
  have hsteps (n : Int) : |(nearest q).value - q| ≤ |n * 2 ^ grid q - q| := by
    rw [value_nearest hq, abs_mul_two_zpow_sub, abs_mul_two_zpow_sub]
    exact mul_le_mul_of_nonneg_right (abs_roundEven_sub_le _ n) (by positivity)
  obtain ⟨n, e, rfl, -, hhigh, he⟩ := hp
  rcases le_or_gt (grid q) e with hcoarse | hfine
  · obtain ⟨k, hk⟩ := Int.eq_ofNat_of_zero_le (sub_nonneg.mpr hcoarse)
    obtain rfl : e = k + grid q := by omega
    refine (hsteps (n * 2 ^ k)).trans_eq ?_
    rw [zpow_add₀ two_ne_zero, zpow_natCast, ← mul_assoc]
    push_cast
    rfl
  -- A number that is not on the grid of another one lies below the binade of the latter.
  · have hlow := mul_two_zpow_grid_le hq (he.trans_lt hfine)
    have hbelow : (n : Rat) * 2 ^ e ≤ 8388608 * 2 ^ grid q := by
      calc (n : Rat) * 2 ^ e ≤ 16777216 * 2 ^ e := by gcongr; exact_mod_cast hhigh.le
        _ = 8388608 * 2 ^ (e + 1) := by rw [zpow_add₀ two_ne_zero]; ring
        _ ≤ 8388608 * 2 ^ grid q := by gcongr; exacts [one_le_two, hfine]
    have hfirst := hsteps 8388608
    push_cast at hfirst
    refine hfirst.trans ?_
    rw [abs_sub_comm, abs_of_nonneg (by linarith), abs_sub_comm, abs_of_nonneg (by linarith)]
    linarith

theorem isSingle_nearest {q : Rat} (h : 0 < q) : IsSingle (nearest q).value := by
  have hlow : 0 ≤ roundEven (q / 2 ^ grid q) := le_roundEven (by rw [Int.cast_zero]; positivity)
  have hle := roundEven_div_grid_le h
  have hgrid : leastExponent ≤ grid q := le_max_right _ _
  rw [value_nearest h]
  rcases lt_or_eq_of_le hle with hlt | heq
  · exact ⟨_, _, rfl, by omega, hlt, hgrid⟩
  -- The significand that takes a bit too many is a power of two.
  · refine ⟨8388608, grid q + 1, ?_, by omega, by omega, by omega⟩
    rw [heq, zpow_add₀ two_ne_zero]
    norm_num
    ring

theorem nearest_mono {p q : Rat} (hp : 0 < p) (h : p ≤ q) :
    (nearest p).value ≤ (nearest q).value := by
  have hq := hp.trans_le h
  rw [value_nearest hp, value_nearest hq]
  rcases lt_or_eq_of_le (grid_mono hp h) with hlt | heq
  -- On the coarser grid the first number of the binade lies between the two.
  · have hp' : (roundEven (p / 2 ^ grid p) : Rat) ≤ 16777216 := by
      exact_mod_cast roundEven_div_grid_le hp
    have hq' : (8388608 : Rat) ≤ roundEven (q / 2 ^ grid q) := by
      exact_mod_cast le_roundEven_div_grid hq ((le_max_right _ _).trans_lt hlt)
    calc (roundEven (p / 2 ^ grid p) : Rat) * 2 ^ grid p ≤ 16777216 * 2 ^ grid p := by gcongr
      _ = 8388608 * 2 ^ (grid p + 1) := by rw [zpow_add₀ two_ne_zero]; ring
      _ ≤ 8388608 * 2 ^ grid q := by gcongr; exacts [one_le_two, hlt]
      _ ≤ roundEven (q / 2 ^ grid q) * 2 ^ grid q := by gcongr
  · rw [heq]
    have hscaled : p / 2 ^ grid q ≤ q / 2 ^ grid q := by gcongr
    have hround : (roundEven (p / 2 ^ grid q) : Rat) ≤ roundEven (q / 2 ^ grid q) := by
      exact_mod_cast roundEven_mono hscaled
    gcongr

/-! ## Rounding -/

theorem round_neg (q : Rat) : round (-q) = -round q := by
  rcases lt_trichotomy q 0 with h | rfl | h
  · simp [round, h, not_lt.mpr h.le]
  · simp [round]
  · simp [round, h, not_lt.mpr h.le]

theorem round_of_pos {q : Rat} (h : 0 < q) : round q = (nearest q).value := if_pos h

theorem round_zero : round 0 = 0 := by simp [round]

/-- What holds of zero and of the numbers above it, with what they are rounded to, holds of all
numbers if it does not depend on the sign. -/
theorem round_cases {P : Rat → Rat → Prop} (zero : P 0 0)
    (pos : ∀ q, 0 < q → P q (nearest q).value) (neg : ∀ q r, P q r → P (-q) (-r)) (q : Rat) :
    P q (round q) := by
  rcases lt_trichotomy q 0 with hneg | rfl | hpos
  · have hpos : 0 < -q := neg_pos.mpr hneg
    have h := neg _ _ (pos _ hpos)
    rwa [← round_of_pos hpos, round_neg, neg_neg, neg_neg] at h
  · rwa [round_zero]
  · rw [round_of_pos hpos]
    exact pos q hpos

/-- No number in single precision is nearer to a number than the one it is rounded to. -/
theorem abs_round_sub_le {p : Rat} (hp : IsSingle p) (q : Rat) : |round q - q| ≤ |p - q| := by
  refine round_cases (P := fun q r => ∀ {p}, IsSingle p → |r - q| ≤ |p - q|) ?_ ?_ ?_ q hp
  · intro p _
    rw [sub_zero, abs_zero]
    exact abs_nonneg _
  · exact fun q hq _ hp => abs_nearest_sub_le hp hq
  · intro q r hr p hp
    have hle := hr hp.neg
    rwa [neg_sub_neg, abs_sub_comm, ← abs_neg (p - -q), neg_sub', neg_neg]

/-- A number in single precision is rounded to itself. -/
theorem round_of_isSingle {q : Rat} (h : IsSingle q) : round q = q := by
  have hnear := abs_round_sub_le h q
  rw [sub_self, abs_zero] at hnear
  exact sub_eq_zero.mp (abs_nonpos_iff.mp hnear)

/-- Rounding gives numbers in single precision. -/
theorem isSingle_round (q : Rat) : IsSingle (round q) := by
  refine round_cases (P := fun _ r => IsSingle r) ?_ ?_ ?_ q
  · exact isSingle_intCast (n := 0) (by decide) (by decide)
  · exact fun q hpos => isSingle_nearest hpos
  · exact fun q r hr => hr.neg

theorem round_nonneg {q : Rat} (h : 0 ≤ q) : 0 ≤ round q := by
  have hneg := round_nonpos (neg_nonpos.mpr h)
  rw [round_neg] at hneg
  exact neg_nonpos.mp hneg

/-- Rounding keeps the order. -/
theorem round_mono {p q : Rat} (h : p ≤ q) : round p ≤ round q := by
  rcases lt_or_ge 0 p with hp | hp
  · rw [round_of_pos hp, round_of_pos (hp.trans_le h)]
    exact nearest_mono hp h
  rcases lt_or_ge q 0 with hq | hq
  · have hle := nearest_mono (neg_pos.mpr hq) (neg_le_neg h)
    rw [← round_of_pos (neg_pos.mpr hq), ← round_of_pos (neg_pos.mpr (h.trans_lt hq)), round_neg,
      round_neg] at hle
    exact neg_le_neg_iff.mp hle
  · exact (round_nonpos hp).trans (round_nonneg hq)

theorem le_round {p q : Rat} (hp : IsSingle p) (h : p ≤ q) : p ≤ round q :=
  (round_of_isSingle hp).symm.trans_le (round_mono h)

theorem round_le {p q : Rat} (hq : IsSingle q) (h : p ≤ q) : round p ≤ q :=
  (round_mono h).trans_eq (round_of_isSingle hq)

/-- Taking a whole number off a greater one in single precision is exact, as long as what is left
is in the range where all whole numbers are single. -/
theorem IsSingle.sub_natCast {q : Rat} (h : IsSingle q) {k : Nat} (hk : k ≤ q)
    (hq : q < k + 16777216) : IsSingle (q - k) := by
  obtain ⟨n, e, rfl, hlow, hhigh, he⟩ := h
  rcases le_total 0 e with hpos | hneg
  -- A multiple of a whole power of two is whole.
  · obtain ⟨j, rfl⟩ := Int.eq_ofNat_of_zero_le hpos
    have hcast : (n : Rat) * 2 ^ ((j : Nat) : Int) = ((n * 2 ^ j : Int) : Rat) := by push_cast; rfl
    rw [hcast] at hk hq ⊢
    have hk' : (k : Int) ≤ n * 2 ^ j := by exact_mod_cast hk
    have hq' : n * 2 ^ j < k + 16777216 := by exact_mod_cast hq
    have hsub := isSingle_intCast (n := n * 2 ^ j - k) (by omega) (by omega)
    exact_mod_cast hsub
  -- Otherwise the whole number is a multiple of the same power of two.
  · obtain ⟨j, hj⟩ := Int.eq_ofNat_of_zero_le (neg_nonneg.mpr hneg)
    have hone : (2 : Rat) ^ j * 2 ^ e = 1 := by
      rw [← zpow_natCast, ← hj, ← zpow_add₀ two_ne_zero, neg_add_cancel, zpow_zero]
    refine ⟨n - k * 2 ^ j, e, ?_, ?_, ?_, he⟩
    · push_cast
      rw [sub_mul, mul_assoc, hone, mul_one]
    · have hle : (k : Rat) * 2 ^ j ≤ n := by
        calc (k : Rat) * 2 ^ j ≤ n * 2 ^ e * 2 ^ j := by gcongr
          _ = n * (2 ^ j * 2 ^ e) := by ring
          _ = n := by rw [hone, mul_one]
      have hle' : (k : Int) * 2 ^ j ≤ n := by exact_mod_cast hle
      omega
    · have hnonneg : (0 : Int) ≤ k * 2 ^ j := by positivity
      omega

/-- Rounding moves a number by half a step of a grid at most, if the significand that the number
takes on that grid has 24 bits. -/
theorem abs_round_sub_le_of_abs_le {q : Rat} {k : Int} (hk : leastExponent ≤ k)
    (hq : |q| ≤ 16777215 * 2 ^ k) : |round q - q| ≤ 2 ^ k / 2 := by
  have hstep : (0 : Rat) < 2 ^ k := by positivity
  obtain ⟨hlow, hhigh⟩ := abs_le.mp hq
  have hlow' : -16777215 ≤ roundEven (q / 2 ^ k) :=
    le_roundEven (by rw [le_div_iff₀ hstep]; push_cast; linarith)
  have hhigh' : roundEven (q / 2 ^ k) ≤ 16777215 :=
    roundEven_le_of_le (by rw [div_le_iff₀ hstep]; exact_mod_cast hhigh)
  have hsingle : IsSingle (roundEven (q / 2 ^ k) * 2 ^ k) := ⟨_, k, rfl, by omega, by omega, hk⟩
  calc |round q - q| ≤ |roundEven (q / 2 ^ k) * 2 ^ k - q| := abs_round_sub_le hsingle q
    _ = |roundEven (q / 2 ^ k) - q / 2 ^ k| * 2 ^ k := abs_mul_two_zpow_sub _ _ _
    _ ≤ 1 / 2 * 2 ^ k := by gcongr; exact abs_roundEven_sub_le_half _
    _ = 2 ^ k / 2 := by ring

/-- Above the whole numbers that are all single, the grid is one of whole numbers. -/
theorem exists_round_of_le {n : Int} (hn : 16777216 ≤ n) : ∃ m : Int, round n = m := by
  have hq : (16777216 : Rat) ≤ n := by exact_mod_cast hn
  have hpos : (0 : Rat) < n := by linarith
  have hbinade : 24 < binade n + 1 := by
    refine (zpow_lt_zpow_iff_right₀ (one_lt_two : (1 : Rat) < 2)).mp ?_
    calc (2 : Rat) ^ (24 : Int) = 16777216 := by norm_num
      _ ≤ n := hq
      _ < 2 ^ (binade n + 1) := (binade_spec hpos).2
  obtain ⟨k, hk⟩ : ∃ k : Nat, grid n = k := Int.eq_ofNat_of_zero_le (by unfold grid; omega)
  refine ⟨roundEven (n / 2 ^ grid n) * 2 ^ k, ?_⟩
  rw [round_of_pos hpos, value_nearest hpos, hk]
  push_cast
  rfl

/-- A whole number is rounded to a whole number. -/
theorem exists_round_intCast (n : Int) : ∃ m : Int, round n = m := by
  by_cases hsmall : -16777216 < n ∧ n < 16777216
  · exact ⟨n, round_of_isSingle (isSingle_intCast hsmall.1.le hsmall.2.le)⟩
  rcases le_total 0 n with hn | hn
  · exact exists_round_of_le (by omega)
  · obtain ⟨m, hm⟩ := exists_round_of_le (n := -n) (by omega)
    rw [Int.cast_neg, round_neg] at hm
    exact ⟨-m, by rw [Int.cast_neg, ← hm, neg_neg]⟩

end LabelPress.Single
