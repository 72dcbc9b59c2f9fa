import LabelPress.Script.Grammar
import LabelPress.Script.Printer

/-!
# Numbers that are written and read

A numeral is a run of digits with the number's value (`isDigits_numeral`,
`numeralValue_numeral`), so the tokens a command is written with are ways to write its
numbers (`isUnsigned_unsignedToken`, `isSigned_signedToken`).

`numbersIn` reads the numbers off a text that also holds other things, and gives them in
order: a number that is written before a word is read (`numbersIn_repr`), and a word
without digits makes no difference (`numbersIn_append`).
-/

namespace LabelPress.Text

/-- The digits of a number have its value. -/
theorem numeralValue_numeral (n : Nat) : numeralValue (numeral n) = n :=
  Nat.ofDigitChars_ten_toDigits

theorem isDigit_of_mem_numeral {n : Nat} {c : Char} (h : c ∈ numeral n) : c.isDigit :=
  Nat.isDigit_of_mem_toDigits (by decide) (by decide) h

theorem isDigits_numeral (n : Nat) : IsDigits (numeral n) :=
  ⟨Nat.toDigits_ne_nil, fun _ hc => isDigit_of_mem_numeral hc⟩

/-! ## Tokens -/

theorem isUnsigned_unsignedToken (n : UInt32) : IsUnsigned n (unsignedToken n) :=
  ⟨isDigits_numeral _, numeralValue_numeral _⟩

/-- A number of dots is written with a sign exactly if it is negative. -/
theorem isSigned_signedToken (d : Dot) : IsSigned d (signedToken d) := by
  unfold signedToken
  cases h : d.val with
  | ofNat n =>
    refine .plain (isDigits_numeral n) ?_
    rw [signedNumeral, numeralValue_numeral, h]
    rfl
  | negSucc n =>
    refine .minus (isDigits_numeral (n + 1)) ?_
    rw [numeralValue_numeral, h]
    rfl

/-! ## Numbers in a text -/

/-- The numbers that a text holds: the values of its runs of digits, in order. -/
def numbersIn (cs : List Char) : List Nat :=
  ((cs.splitOnP fun c => !c.isDigit).filter (· ≠ [])).map numeralValue

theorem numbersIn_nil : numbersIn [] = [] := by simp [numbersIn]

theorem numbersIn_cons {c : Char} (hc : ¬ c.isDigit) (cs : List Char) :
    numbersIn (c :: cs) = numbersIn cs := by
  simp [numbersIn, List.splitOnP_cons_eq_if_modifyHead, hc]

/-- Words without digits hold no number. -/
theorem numbersIn_append {w : List Char} (hw : ∀ c ∈ w, ¬ c.isDigit) (cs : List Char) :
    numbersIn (w ++ cs) = numbersIn cs := by
  induction w with
  | nil => rfl
  | cons c w ih =>
    obtain ⟨hc, hw⟩ := List.forall_mem_cons.mp hw
    rw [List.cons_append, numbersIn_cons hc, ih hw]

/-- A number that is written before a word without digits is read. -/
theorem numbersIn_repr (n : Nat) {w : String} (hne : w ≠ "") (hw : ∀ c ∈ w.toList, ¬ c.isDigit)
    (cs : List Char) : numbersIn (n.repr.toList ++ (w.toList ++ cs)) = n :: numbersIn cs := by
  obtain ⟨c, tail, hcons⟩ := List.exists_cons_of_ne_nil (mt String.toList_eq_nil_iff.mp hne)
  rw [hcons] at hw ⊢
  obtain ⟨hc, htail⟩ := List.forall_mem_cons.mp hw
  have hdigits : ∀ d ∈ numeral n, (!d.isDigit) = false := by
    intro d hd
    rw [isDigit_of_mem_numeral hd, Bool.not_true]
  calc numbersIn (n.repr.toList ++ (c :: tail ++ cs))
      = numbersIn (numeral n ++ c :: (tail ++ cs)) := by rw [Nat.toList_repr]; rfl
    _ = n :: numbersIn (tail ++ cs) := by
      rw [numbersIn, List.splitOnP_append_cons_of_forall_mem hdigits c (by simpa using hc),
        List.filter_cons_of_pos (by simpa using (isDigits_numeral n).1), List.map_cons,
        numeralValue_numeral, numbersIn]
    _ = n :: numbersIn cs := by rw [numbersIn_append htail]

end LabelPress.Text
