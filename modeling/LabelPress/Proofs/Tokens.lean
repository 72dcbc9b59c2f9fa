import LabelPress.Script.Grammar
import Mathlib.Data.List.Basic
import Mathlib.Data.List.TakeWhile

/-!
# Readers take whole tokens

A reader is greedy: digits are taken as long as there are any, and so are separators. What
it takes is nevertheless decided by the grammar alone, because a token ends where a gap or
the end of the line follows (`EndsToken`) and starts with a character that is no separator.
`Reader.Takes p R` says this of one token: `p` takes exactly the tokens `R`.

`Reader.ReadsAll k L` says it of a whole rest of a line: `k` reads it to its end, and the
tokens on it, each after a gap (`Trails`), are those of `L`. `Reader.ReadsAll.field` puts one
token in front, so the language of a line is built in the order in which it is read.
-/

namespace LabelPress

open Text

/-- Nothing, or something that starts with a separator: a token may end before it. -/
def EndsToken (cs : List Char) : Prop := ∀ c ∈ cs.head?, Reader.isSeparator c

/-- Tokens with a gap before each of them, and any separators after the last one. -/
inductive Trails : List (List Char) → List Char → Prop where
  | nil {cs : List Char} : (∀ c ∈ cs, Reader.isSeparator c) → Trails [] cs
  | cons {gap token cs : List Char} {tokens : List (List Char)} :
    IsGap gap → Trails tokens cs → Trails (token :: tokens) (gap ++ (token ++ cs))

/-- A character separates tokens exactly if it is a space or a tab. -/
theorem isSeparator_iff {c : Char} : Reader.isSeparator c ↔ c = ' ' ∨ c = '\t' := by
  simp [Reader.isSeparator]

theorem not_isSeparator_of_isDigit {c : Char} (h : c.isDigit) : ¬ Reader.isSeparator c := by
  rw [isSeparator_iff]
  rintro (rfl | rfl) <;> simp [Char.isDigit] at h

/-- A number starts with a digit, so with no separator. -/
theorem IsDigits.solid {ds : List Char} (h : IsDigits ds) :
    ∃ c cs, ds = c :: cs ∧ ¬ Reader.isSeparator c := by
  obtain ⟨c, cs, rfl⟩ := List.exists_cons_of_ne_nil h.1
  exact ⟨c, cs, rfl, not_isSeparator_of_isDigit (h.2 c (by simp))⟩

theorem IsGap.all_isSeparator {gap : List Char} (h : IsGap gap) :
    ∀ c ∈ gap, Reader.isSeparator c :=
  fun c hc => isSeparator_iff.mpr (h.2 c hc)

/-- The end of the line ends a token, and so does a gap. -/
theorem Trails.endsToken {tokens : List (List Char)} {cs : List Char} (h : Trails tokens cs) :
    EndsToken cs := by
  intro c hc
  cases h with
  | nil hcs => exact hcs c (List.mem_of_mem_head? hc)
  | cons hgap =>
    obtain ⟨d, ds, rfl⟩ := List.exists_cons_of_ne_nil hgap.1
    obtain rfl : d = c := by simpa using hc
    exact hgap.all_isSeparator d (by simp)

/-- Taking as long as `p` holds stops where a part that satisfies `p` is followed by one that
does not. -/
theorem takeWhile_dropWhile_append {p : Char → Bool} {cs rest : List Char}
    (hcs : ∀ c ∈ cs, p c) (hrest : ∀ c ∈ rest.head?, ¬ p c) :
    (cs ++ rest).takeWhile p = cs ∧ (cs ++ rest).dropWhile p = rest := by
  rw [List.takeWhile_append_of_pos hcs, List.dropWhile_append_of_pos hcs]
  cases rest with
  | nil => simp
  | cons c rest =>
    have hc : ¬ p c := hrest c rfl
    simp [hc]

/-- A rest of a line goes on behind its first gap with its first token. -/
theorem Trails.head?_dropWhile {c : Char} {token cs : List Char} {tokens : List (List Char)}
    (h : Trails ((c :: token) :: tokens) cs) (hc : ¬ Reader.isSeparator c) :
    (cs.dropWhile Reader.isSeparator).head? = some c := by
  cases h with
  | @cons _ _ cs _ hgap =>
    have hstop : ∀ d ∈ (c :: token ++ cs).head?, ¬ Reader.isSeparator d := by simpa using hc
    rw [(takeWhile_dropWhile_append hgap.all_isSeparator hstop).2]
    rfl

/-- Spaced tokens are a token with a rest of a line behind it. -/
theorem IsSpaced.exists_trails {tokens : List (List Char)} {cs : List Char}
    (h : IsSpaced tokens cs) : ∀ {token tokens'}, tokens = token :: tokens' →
      ∃ tail, cs = token ++ tail ∧ Trails tokens' tail := by
  induction h with
  | last token =>
    rintro _ _ ⟨rfl, rfl⟩
    exact ⟨[], by simp, .nil (by simp)⟩
  | @cons token gap cs tokens hgap hcs ih =>
    rintro _ _ ⟨rfl, rfl⟩
    cases tokens with
    | nil => cases hcs
    | cons next tokens =>
      obtain ⟨tail, rfl, ht⟩ := ih rfl
      exact ⟨gap ++ (next ++ tail), by simp, .cons hgap ht⟩

/-- A rest of a line behind a token is spaced tokens if no separator stands at its end. -/
theorem Trails.isSpaced {tokens : List (List Char)} {tail : List Char} (h : Trails tokens tail) :
    ∀ {token : List Char}, (∀ c ∈ (token ++ tail).getLast?, ¬ Reader.isSeparator c) →
      IsSpaced (token :: tokens) (token ++ tail) := by
  induction h with
  | @nil cs hcs =>
    intro token hlast
    have hnil : cs = [] := by
      by_contra hne
      refine hlast (cs.getLast hne) ?_ (hcs _ (List.getLast_mem hne))
      exact List.mem_getLast?_append_of_mem_getLast? (List.getLast?_eq_some_getLast hne)
    rw [hnil, List.append_nil]
    exact .last token
  | @cons gap next cs tokens hgap ht ih =>
    intro token hlast
    have hlast' : ∀ c ∈ (next ++ cs).getLast?, ¬ Reader.isSeparator c := by
      intro c hc
      refine hlast c ?_
      rw [← List.append_assoc]
      exact List.mem_getLast?_append_of_mem_getLast? hc
    rw [← List.append_assoc]
    exact .cons hgap (ih hlast')

namespace Reader

variable {α β : Type}

/-! ## One token -/

/-- The reader `p` takes the tokens `R` off the front of a line, each as a whole. -/
structure Takes (p : Reader α) (R : α → List Char → Prop) : Prop where
  /-- What is taken is a token. -/
  sound {cs rest : List Char} {a : α} :
    p cs = some (a, rest) → ∃ token, R a token ∧ cs = token ++ rest
  /-- A token is taken where it ends. -/
  complete {token rest : List Char} {a : α} :
    R a token → EndsToken rest → p (token ++ rest) = some (a, rest)
  /-- A token starts with a character that is no separator. -/
  solid {token : List Char} {a : α} : R a token → ∃ c cs, token = c :: cs ∧ ¬ isSeparator c

@[simp] theorem pure_apply (a : α) (cs : List Char) : (pure a : Reader α) cs = some (a, cs) := rfl

@[simp] theorem failure_apply (cs : List Char) : (failure : Reader α) cs = none := rfl

/-- One reader after the other. -/
theorem bind_eq_some_iff {p : Reader α} {k : α → Reader β} {cs rest : List Char} {b : β} :
    (p >>= k) cs = some (b, rest) ↔ ∃ a mid, p cs = some (a, mid) ∧ k a mid = some (b, rest) := by
  change (p cs).bind (fun x => k x.1 x.2) = _ ↔ _
  simp [Option.bind_eq_some_iff]

theorem word_eq_some_iff {w : String} {cs rest : List Char} :
    word w cs = some ((), rest) ↔ cs = w.toList ++ rest := by
  unfold word
  split
  · rename_i h
    obtain ⟨tail, rfl⟩ := List.isPrefixOf_iff_prefix.mp h
    simp
  · rename_i h
    simp only [reduceCtorEq, false_iff]
    rintro rfl
    exact h (List.isPrefixOf_iff_prefix.mpr (List.prefix_append _ _))

/-- A word takes itself. -/
theorem takes_word {w : String} {c : Char} {cs : List Char} (hw : w.toList = c :: cs)
    (hc : ¬ isSeparator c) : Takes (word w) fun _ token => token = w.toList where
  sound h := ⟨_, rfl, word_eq_some_iff.mp h⟩
  complete h _ := word_eq_some_iff.mpr (h ▸ rfl)
  solid h := ⟨c, cs, h.trans hw, hc⟩

/-- What stands before the rest of a gap is a gap. -/
theorem exists_of_gap_eq_some {cs rest : List Char} (h : gap cs = some ((), rest)) :
    ∃ g, IsGap g ∧ cs = g ++ rest := by
  unfold gap at h
  cases cs with
  | nil => simp at h
  | cons c cs =>
    simp only [Option.ite_none_right_eq_some, Option.some.injEq, Prod.mk.injEq, true_and] at h
    obtain ⟨hc, rfl⟩ := h
    refine ⟨c :: cs.takeWhile isSeparator, ⟨by simp, ?_⟩, by simp⟩
    intro d hd
    rw [← isSeparator_iff]
    rcases List.mem_cons.mp hd with rfl | hd
    · exact hc
    · exact List.mem_takeWhile_imp hd

/-- A gap is read up to the character that is no separator. -/
theorem gap_append {g rest : List Char} (hg : IsGap g) (hrest : ∀ c ∈ rest.head?, ¬ isSeparator c) :
    gap (g ++ rest) = some ((), rest) := by
  have hall := hg.all_isSeparator
  cases g with
  | nil => exact absurd rfl hg.1
  | cons c g =>
    have hc : isSeparator c := hall c (by simp)
    have htail : ∀ d ∈ g, isSeparator d := fun d hd => hall d (List.mem_cons_of_mem c hd)
    simp only [List.cons_append, gap, hc, if_true, (takeWhile_dropWhile_append htail hrest).2]

/-- A capital letter is one from `A` to `Z`. -/
theorem isUpper_iff {c : Char} : c.isUpper ↔ 'A' ≤ c ∧ c ≤ 'Z' := decide_eq_true_iff

theorem takes_letter : Takes letter IsLetter where
  sound {cs rest a} h := by
    cases cs with
    | nil => simp [letter] at h
    | cons c cs =>
      simp only [letter, Option.ite_none_right_eq_some, Option.some.injEq, Prod.mk.injEq] at h
      obtain ⟨hc, rfl, rfl⟩ := h
      exact ⟨[c], ⟨rfl, isUpper_iff.mp hc⟩, rfl⟩
  complete {token rest a} h _ := by
    obtain ⟨rfl, ha⟩ := h
    simp [letter, isUpper_iff.mpr ha]
  solid {token a} h := by
    obtain ⟨rfl, ha⟩ := h
    refine ⟨a, [], rfl, ?_⟩
    rw [isSeparator_iff]
    rintro (rfl | rfl) <;> simp [Char.le_def] at ha

/-- A quoted value takes everything up to the next quote. -/
theorem takes_quoted : Takes quoted IsQuoted where
  sound {cs rest value} h := by
    unfold quoted at h
    split at h
    · rename_i cs
      split at h
      · rename_i c tail hdrop
        simp only [Option.some.injEq, Prod.mk.injEq] at h
        obtain ⟨rfl, rfl⟩ := h
        have hc : c = '"' := by
          have hhead := List.head?_dropWhile_not (· ≠ '"') cs
          rw [hdrop] at hhead
          simpa using hhead
        refine ⟨_, ⟨rfl, ?_⟩, ?_⟩
        · intro hmem
          rw [String.toList_ofList] at hmem
          simpa using List.mem_takeWhile_imp hmem
        · have happend := List.takeWhile_append_dropWhile (p := (· ≠ '"')) (l := cs)
          rw [hdrop, hc] at happend
          simpa using happend.symm
      · simp at h
    · simp at h
  complete {token rest value} h _ := by
    obtain ⟨rfl, hq⟩ := h
    have hall : ∀ c ∈ value.toList, decide (c ≠ '"') = true := by
      intro c hc
      exact decide_eq_true fun h => hq (h ▸ hc)
    have hquote : ∀ c ∈ ('"' :: rest).head?, ¬ decide (c ≠ '"') = true := by simp
    have hspan := takeWhile_dropWhile_append hall hquote
    simp only [List.cons_append, List.append_assoc, List.nil_append, quoted, hspan.1, hspan.2,
      String.ofList_toList]
  solid h := ⟨'"', _, h.1, by decide⟩

/-! ## Numbers -/

/-- What stands before the rest is the run of digits that was read. -/
theorem exists_of_digits_eq_some {cs rest : List Char} {n : Nat} (h : digits cs = some (n, rest)) :
    ∃ ds, IsDigits ds ∧ numeralValue ds = n ∧ cs = ds ++ rest := by
  unfold digits at h
  split at h
  · simp at h
  · rename_i hne
    simp only [Option.some.injEq, Prod.mk.injEq] at h
    obtain ⟨rfl, rfl⟩ := h
    exact ⟨_, ⟨hne, fun c hc => List.mem_takeWhile_imp hc⟩, rfl, by simp⟩

/-- Digits are read as a whole where they end. -/
theorem digits_append {ds rest : List Char} (hds : IsDigits ds) (hrest : EndsToken rest) :
    digits (ds ++ rest) = some (numeralValue ds, rest) := by
  have hstop : ∀ c ∈ rest.head?, ¬ c.isDigit := by
    intro c hc hdigit
    exact not_isSeparator_of_isDigit hdigit (hrest c hc)
  have hspan := takeWhile_dropWhile_append hds.2 hstop
  simp only [digits, hspan.1, hspan.2, if_neg hds.1]

/-- A number without sign is taken if it fits its word. -/
theorem takes_unsigned : Takes unsigned IsUnsigned where
  sound {cs rest n} h := by
    obtain ⟨m, mid, hdigits, hk⟩ := bind_eq_some_iff.mp h
    obtain ⟨ds, hds, rfl, rfl⟩ := exists_of_digits_eq_some hdigits
    split at hk
    · rename_i hle
      simp only [pure_apply, Option.some.injEq, Prod.mk.injEq] at hk
      obtain ⟨rfl, rfl⟩ := hk
      refine ⟨ds, ⟨hds, ?_⟩, rfl⟩
      rw [UInt32.toNat_ofNat_of_lt' (by simpa [UInt32.size] using Nat.lt_succ_of_le hle)]
    · simp at hk
  complete {token rest n} h hrest := by
    have hle : numeralValue token ≤ 4294967295 := by
      have := n.toNat_lt
      rw [h.2]
      omega
    refine bind_eq_some_iff.mpr ⟨_, rest, digits_append h.1 hrest, ?_⟩
    rw [if_pos hle, pure_apply, h.2, UInt32.ofNat_toNat]
  solid h := h.1.solid

/-- Digits with the sign before them taken off. -/
theorem exists_of_dots_eq_some {sign : Int} {cs rest : List Char} {d : Dot}
    (h : dots sign cs = some (d, rest)) :
    ∃ ds, IsDigits ds ∧ d.val = sign * numeralValue ds ∧ cs = ds ++ rest := by
  obtain ⟨m, mid, hdigits, hk⟩ := bind_eq_some_iff.mp h
  obtain ⟨ds, hds, rfl, rfl⟩ := exists_of_digits_eq_some hdigits
  split at hk
  · simp only [pure_apply, Option.some.injEq, Prod.mk.injEq] at hk
    obtain ⟨rfl, rfl⟩ := hk
    exact ⟨ds, hds, rfl, rfl⟩
  · simp at hk

theorem dots_append {sign : Int} {ds rest : List Char} {d : Dot} (hds : IsDigits ds)
    (hd : d.val = sign * numeralValue ds) (hrest : EndsToken rest) :
    dots sign (ds ++ rest) = some (d, rest) := by
  refine bind_eq_some_iff.mpr ⟨_, rest, digits_append hds hrest, ?_⟩
  have hrange : -2147483648 ≤ sign * numeralValue ds ∧ sign * numeralValue ds ≤ 2147483647 :=
    hd ▸ ⟨d.le_val, d.val_le⟩
  rw [dif_pos hrange, pure_apply]
  congr
  exact hd.symm

/-- A number of dots is taken with its sign if it fits its range. -/
theorem takes_signed : Takes signed IsSigned where
  sound {cs rest d} h := by
    unfold signed at h
    split at h
    · obtain ⟨ds, hds, hd, rfl⟩ := exists_of_dots_eq_some h
      exact ⟨_, .minus hds (by omega), rfl⟩
    · obtain ⟨ds, hds, hd, rfl⟩ := exists_of_dots_eq_some h
      exact ⟨_, .plus hds (by omega), rfl⟩
    · obtain ⟨ds, hds, hd, rfl⟩ := exists_of_dots_eq_some h
      exact ⟨_, .plain hds (by omega), rfl⟩
  complete {token rest d} h hrest := by
    cases h with
    | plain hds hd =>
      have hdots : dots 1 (token ++ rest) = some (d, rest) := dots_append hds (by omega) hrest
      obtain ⟨c, cs, rfl⟩ := List.exists_cons_of_ne_nil hds.1
      have hc : c.isDigit := hds.2 c (by simp)
      unfold signed
      split
      · rename_i heq
        obtain ⟨rfl, -⟩ := List.cons.inj heq
        exact absurd hc (by decide)
      · rename_i heq
        obtain ⟨rfl, -⟩ := List.cons.inj heq
        exact absurd hc (by decide)
      · exact hdots
    | plus hds hd => exact dots_append hds (by omega) hrest
    | minus hds hd => exact dots_append hds (by omega) hrest
  solid h := by
    cases h with
    | plain hds => exact hds.solid
    | plus => exact ⟨'+', _, rfl, by decide⟩
    | minus => exact ⟨'-', _, rfl, by decide⟩

/-! ## The rest of a line -/

/-- The reader `k` reads a rest of a line to its end, and the tokens on it are those of `L`. -/
def ReadsAll (k : Reader β) (L : β → List (List Char) → Prop) : Prop :=
  ∀ cs b rest, k cs = some (b, rest) ↔ rest = [] ∧ ∃ tokens, L b tokens ∧ Trails tokens cs

/-- At the end of a line there are no more tokens. -/
theorem readsAll_atEnd (b : β) :
    ReadsAll (do atEnd; return b) fun b' tokens => b' = b ∧ tokens = [] := by
  intro cs b' rest
  constructor
  · intro h
    obtain ⟨_, mid, hend, hb⟩ := bind_eq_some_iff.mp h
    simp only [atEnd, Option.ite_none_right_eq_some, Option.some.injEq, Prod.mk.injEq, true_and,
      List.all_eq_true] at hend
    simp only [pure_apply, Option.some.injEq, Prod.mk.injEq] at hb
    obtain ⟨hcs, rfl⟩ := hend
    exact ⟨hb.2.symm, [], ⟨hb.1.symm, rfl⟩, .nil hcs⟩
  · rintro ⟨rfl, _, ⟨rfl, rfl⟩, ht⟩
    cases ht with
    | nil hcs =>
      refine bind_eq_some_iff.mpr ⟨(), [], ?_, rfl⟩
      rw [atEnd, if_pos (List.all_eq_true.mpr hcs)]

/-- A gap and a token, and then a rest of a line, are a rest of a line with one token more. -/
theorem ReadsAll.field {p : Reader α} {R : α → List Char → Prop} {k : α → Reader β}
    {L : α → β → List (List Char) → Prop} (hp : Takes p R) (hk : ∀ a, ReadsAll (k a) (L a)) :
    ReadsAll (do gap; let a ← p; k a) fun b tokens =>
      ∃ a token tokens', tokens = token :: tokens' ∧ R a token ∧ L a b tokens' := by
  intro cs b rest
  constructor
  · intro h
    obtain ⟨_, mid, hgap, hfield⟩ := bind_eq_some_iff.mp h
    obtain ⟨a, mid', htoken, hrest⟩ := bind_eq_some_iff.mp hfield
    obtain ⟨g, hg, rfl⟩ := exists_of_gap_eq_some hgap
    obtain ⟨token, hR, rfl⟩ := hp.sound htoken
    obtain ⟨rfl, tokens, hL, ht⟩ := (hk a mid' b rest).mp hrest
    exact ⟨rfl, token :: tokens, ⟨a, token, tokens, rfl, hR, hL⟩, .cons hg ht⟩
  · rintro ⟨rfl, _, ⟨a, token, tokens, rfl, hR, hL⟩, ht⟩
    cases ht with
    | @cons g _ cs _ hg ht =>
      have hstart : ∀ c ∈ (token ++ cs).head?, ¬ isSeparator c := by
        obtain ⟨c, token, rfl, hc⟩ := hp.solid hR
        simpa using hc
      refine bind_eq_some_iff.mpr ⟨(), token ++ cs, gap_append hg hstart, ?_⟩
      refine bind_eq_some_iff.mpr ⟨a, cs, hp.complete hR ht.endsToken, ?_⟩
      exact (hk a cs b []).mpr ⟨rfl, tokens, hL, ht⟩

end Reader

end LabelPress
