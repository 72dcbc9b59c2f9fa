import Mathlib.Data.LawfulXor.Basic
import Mathlib.Data.UInt
import Mathlib.Logic.Function.Iterate

/-!
# Sums of words

Exclusive or adds words without a carry, so that every word is its own negative. Many words are sums
of what a map makes of one word when it is applied again and again: `Word.combine f n p w` adds up
some of the words `w`, `f w`, `f (f w)` and so on, and the bits of the number `p` choose which. What
linear maps make of two such sums is the same if it is the same for every word that may be summed
(`Word.map_combine`).

A word of 32 bits is the sum of its bits, which are the word `1` doubled again and again
(`Word.combine_double_toNat`). Two linear maps of such words are therefore equal if they are equal
at 32 words (`Word.IsLinear.ext`), and this can be found by evaluation.
-/

namespace LabelPress.Word

section
variable {α β γ : Type*} [XorOp α] [XorOp β] [XorOp γ]

/-! ## Linear maps -/

/-- Whether a map keeps sums. -/
def IsLinear (f : α → β) : Prop := ∀ v w, f (v ^^^ w) = f v ^^^ f w

theorem isLinear_id : IsLinear (id : α → α) := fun _ _ => rfl

theorem IsLinear.comp {f : β → γ} {g : α → β} (hf : IsLinear f) (hg : IsLinear g) :
    IsLinear (f ∘ g) := by
  intro v w
  rw [Function.comp_apply, hg, hf, Function.comp_apply, Function.comp_apply]

theorem IsLinear.iterate {f : α → α} (hf : IsLinear f) (n : Nat) : IsLinear f^[n] := by
  induction n with
  | zero => exact isLinear_id
  | succ n ih => exact ih.comp hf

variable [Zero α] [LawfulXor α] [Zero β] [LawfulXor β] [Zero γ] [LawfulXor γ]

theorem xor_xor_xor_comm (a b c d : α) : (a ^^^ b) ^^^ (c ^^^ d) = (a ^^^ c) ^^^ (b ^^^ d) := by
  rw [LawfulXor.xor_assoc, ← LawfulXor.xor_assoc b, LawfulXor.xor_comm b, LawfulXor.xor_assoc c,
    LawfulXor.xor_assoc]

/-- The word itself for an odd number, zero for an even one. -/
def pick (p : Nat) (w : α) : α := if p % 2 = 1 then w else 0

theorem pick_xor (p q : Nat) (w : α) : pick (p ^^^ q) w = pick p w ^^^ pick q w := by
  have hodd : (p ^^^ q) % 2 = 1 ↔ ¬(p % 2 = 1 ↔ q % 2 = 1) := Nat.xor_mod_two_eq_one
  simp only [pick, hodd]
  by_cases hp : p % 2 = 1 <;> by_cases hq : q % 2 = 1 <;> simp [hp, hq]

theorem isLinear_pick (p : Nat) : IsLinear (pick p : α → α) := by
  intro v w
  unfold pick
  split
  · rfl
  · exact (LawfulXor.xor_self 0).symm

namespace IsLinear

omit [Zero α] [LawfulXor α] in
theorem xor {f g : α → β} (hf : IsLinear f) (hg : IsLinear g) : IsLinear fun w => f w ^^^ g w := by
  intro v w
  dsimp only
  rw [hf, hg, xor_xor_xor_comm]

theorem map_zero {f : α → β} (hf : IsLinear f) : f 0 = 0 := by
  have hdouble := hf 0 0
  rwa [LawfulXor.xor_self, LawfulXor.xor_self] at hdouble

theorem map_pick {f : α → β} (hf : IsLinear f) (p : Nat) (w : α) :
    f (pick p w) = pick p (f w) := by
  unfold pick
  split
  · rfl
  · exact hf.map_zero

theorem iterate_eq_zero {f : α → α} (hf : IsLinear f) {w : α} (hw : f w = 0) {n : Nat}
    (hn : n ≠ 0) : f^[n] w = 0 := by
  obtain ⟨m, rfl⟩ := Nat.exists_eq_succ_of_ne_zero hn
  rw [Function.iterate_succ_apply, hw, (hf.iterate m).map_zero]

end IsLinear

/-! ## Sums -/

/-- The sum of the words that the lowest `n` bits of `p` choose among `w`, `f w`, `f (f w)` and so
on. -/
def combine (f : α → α) : Nat → Nat → α → α
  | 0, _, _ => 0
  | n + 1, p, w => pick p w ^^^ combine f n (p / 2) (f w)

/-- Two linear maps take sums to the same word if they do so with every word that may be summed. -/
theorem map_combine {f : α → α} {f' : β → β} {g : α → γ} {h : β → γ} {n : Nat} {v : α} {w : β}
    (hg : IsLinear g) (hh : IsLinear h) (p : Nat) (hvw : ∀ i < n, g (f^[i] v) = h (f'^[i] w)) :
    g (combine f n p v) = h (combine f' n p w) := by
  induction n generalizing p v w with
  | zero => rw [combine, combine, hg.map_zero, hh.map_zero]
  | succ n ih =>
    have hfirst : g v = h w := hvw 0 (Nat.succ_pos n)
    have hrest : g (combine f n (p / 2) (f v)) = h (combine f' n (p / 2) (f' w)) :=
      ih (p / 2) fun i hi => hvw (i + 1) (by omega)
    rw [combine, combine, hg, hh, hg.map_pick, hh.map_pick, hfirst, hrest]

variable (f : α → α) (n p q : Nat) (w : α)

theorem combine_xor : combine f n (p ^^^ q) w = combine f n p w ^^^ combine f n q w := by
  induction n generalizing p q w with
  | zero => exact (LawfulXor.xor_self 0).symm
  | succ n ih => rw [combine, combine, combine, Nat.xor_div_two, ih, pick_xor, xor_xor_xor_comm]

theorem isLinear_combine {f : α → α} (hf : IsLinear f) : IsLinear (combine f n p) := by
  intro v w
  induction n generalizing p v w with
  | zero => exact (LawfulXor.xor_self 0).symm
  | succ n ih => rw [combine, combine, combine, hf, ih, isLinear_pick, xor_xor_xor_comm]

theorem combine_apply {f : α → α} (hf : IsLinear f) : combine f n p (f w) = f (combine f n p w) :=
  map_combine isLinear_id hf p fun i _ =>
    (Function.iterate_succ_apply f i w).symm.trans (Function.iterate_succ_apply' f i w)

@[simp] theorem combine_zero : combine f n 0 w = 0 := by
  induction n generalizing w with
  | zero => rfl
  | succ n ih => simp [combine, pick, ih]

theorem combine_one : combine f (n + 1) 1 w = w := by
  simp [combine, pick]

/-- Doubling the number moves every choice to the next word. -/
theorem combine_two_mul : combine f (n + 1) (2 * p) w = combine f n p (f w) := by
  simp [combine, pick]

omit [LawfulXor α] in
theorem combine_mod : combine f n (p % 2 ^ n) w = combine f n p w := by
  induction n generalizing p w with
  | zero => rfl
  | succ n ih =>
    have hdigits : p % 2 ^ (n + 1) = p % 2 + 2 * (p / 2 % 2 ^ n) := by
      rw [Nat.pow_succ', Nat.mod_mul]
    have hfirst : p % 2 ^ (n + 1) % 2 = p % 2 := by omega
    have hrest : p % 2 ^ (n + 1) / 2 = p / 2 % 2 ^ n := by omega
    rw [combine, combine, hrest, ih, pick, pick, hfirst]

/-- The last choice taken apart from the others. -/
theorem combine_succ :
    combine f (n + 1) p w = combine f n p w ^^^ pick (p / 2 ^ n) (f^[n] w) := by
  induction n generalizing p w with
  | zero => simp [combine]
  | succ n ih =>
    have hbit : p / 2 / 2 ^ n = p / 2 ^ (n + 1) := by
      rw [Nat.div_div_eq_div_mul, Nat.pow_succ']
    rw [combine, ih, combine, hbit, Function.iterate_succ_apply, LawfulXor.xor_assoc]

end

/-! ## Words of 32 bits -/

theorem isLinear_shiftLeft (i : UInt32) : IsLinear fun w : UInt32 => w <<< i :=
  fun _ _ => UInt32.shiftLeft_xor

theorem isLinear_shiftRight (i : UInt32) : IsLinear fun w : UInt32 => w >>> i :=
  fun _ _ => UInt32.shiftRight_xor

/-- A word with its bits moved up by one place. -/
def double (w : UInt32) : UInt32 := w <<< 1

theorem isLinear_double : IsLinear double := isLinear_shiftLeft 1

theorem toNat_double (w : UInt32) : (double w).toNat = 2 * w.toNat % 2 ^ 32 := by
  rw [double, UInt32.toNat_shiftLeft, Nat.shiftLeft_eq, Nat.mul_comm]
  rfl

theorem toNat_pick_one (p : Nat) : (pick p (1 : UInt32)).toNat = p % 2 := by
  rcases Nat.mod_two_eq_zero_or_one p with hp | hp <;> rw [pick, hp] <;> rfl

theorem mod_two_xor_two_mul (p : Nat) : p % 2 ^^^ 2 * (p / 2) = p := by
  refine Nat.eq_of_testBit_eq fun i => ?_
  cases i with
  | zero => simp [Nat.testBit_zero]
  | succ i => simp [Nat.testBit_succ, Nat.xor_div_two]

theorem toNat_combine_double {n p : Nat} (hn : n ≤ 32) (hp : p < 2 ^ n) :
    (combine double n p 1).toNat = p := by
  induction n generalizing p with
  | zero =>
    obtain rfl : p = 0 := by simpa using hp
    rfl
  | succ n ih =>
    have hhalf : p / 2 < 2 ^ n := by
      rw [Nat.pow_succ] at hp
      omega
    have hword : 2 ^ n ≤ 2 ^ 31 := Nat.pow_le_pow_right (by decide) (by omega)
    have hfits : 2 * (p / 2) < 2 ^ 32 := by omega
    rw [combine, combine_apply _ _ _ isLinear_double, UInt32.toNat_xor, toNat_pick_one,
      toNat_double, ih (by omega) hhalf, Nat.mod_eq_of_lt hfits, mod_two_xor_two_mul]

/-- A word is the sum of its bits. -/
theorem combine_double_toNat (w : UInt32) : combine double 32 w.toNat 1 = w :=
  UInt32.toNat_inj.mp (toNat_combine_double (Nat.le_refl 32) w.toNat_lt)

/-- Linear maps that are equal at the words with one bit are equal. -/
theorem IsLinear.ext {β : Type*} [XorOp β] [Zero β] [LawfulXor β] {g h : UInt32 → β}
    (hg : IsLinear g) (hh : IsLinear h) (hbits : ∀ i < 32, g (double^[i] 1) = h (double^[i] 1)) :
    g = h := by
  funext w
  rw [← combine_double_toNat w]
  exact map_combine hg hh w.toNat hbits

end LabelPress.Word
