import LabelPress.Proofs.Lines
import LabelPress.Proofs.Tokens

/-!
# The language of one line

Each of the three readers of a drawing line reads exactly the lines of its form
(`readsLine_textLine`, `readsLine_ruleLine`, `readsLine_barcodeLine`). The forms differ in
their second token, so it makes no difference that the readers are tried one after the
other, and `Form.read?` reads the whole language (`Form.read?_eq_some_iff`).

A line is trimmed before it is read. On a trimmed line nothing follows the last token, and
what is read is what the grammar says (`Form.read?_trim_eq_some_iff`).
-/

namespace LabelPress

open Text Reader

namespace Form

/-! ## The three forms -/

/-- The reader `p` reads the lines of the forms whose second token is the letter `c`. -/
def ReadsLine (p : Reader Form) (c : Char) : Prop :=
  ∀ cs form rest, p cs = some (form, rest) ↔ rest = [] ∧ ∃ tokens tail,
    form.IsTokens (['!', 'F'] :: [c] :: tokens) ∧ cs = '!' :: 'F' :: tail ∧
      Trails ([c] :: tokens) tail

/-- A reader for the rest of a line reads the line behind its first token. -/
theorem readsLine_of_readsAll {k : Reader Form} {c : Char} {L : Form → List (List Char) → Prop}
    (hk : ReadsAll k L) (hL : ∀ form tokens, L form tokens ↔
      ∃ tokens', tokens = [c] :: tokens' ∧ form.IsTokens (['!', 'F'] :: tokens)) :
    ReadsLine (do word "!F"; k) c := by
  intro cs form rest
  constructor
  · intro h
    obtain ⟨_, tail, hword, hrest⟩ := bind_eq_some_iff.mp h
    obtain ⟨rfl, tokens, hform, ht⟩ := (hk tail form rest).mp hrest
    obtain ⟨tokens', rfl, hform⟩ := (hL form tokens).mp hform
    exact ⟨rfl, tokens', tail, hform, word_eq_some_iff.mp hword, ht⟩
  · rintro ⟨rfl, tokens, tail, hform, rfl, ht⟩
    refine bind_eq_some_iff.mpr ⟨(), tail, word_eq_some_iff.mpr rfl, ?_⟩
    exact (hk tail form []).mpr ⟨rfl, _, (hL form _).mpr ⟨tokens, rfl, hform⟩, ht⟩

/-- A line under the word `kind` with the fields of a value. -/
theorem readsLine_valueLine {kind : String} {c : Char}
    {f : Dot → Dot → Char → UInt32 → UInt32 → UInt32 → String → Form} (hkind : kind.toList = [c])
    (hc : ¬ isSeparator c) (hf : ∀ form fields, form.IsTokens (['!', 'F'] :: [c] :: fields) ↔
      ∃ x y o a b e v, IsValueFields x y o a b e v fields ∧ form = f x y o a b e v) :
    ReadsLine (valueLine kind f) c := by
  refine readsLine_of_readsAll (ReadsAll.field (takes_word hkind hc) fun _ =>
    ReadsAll.field (takes_word (c := 'S') rfl (by decide)) fun _ =>
    ReadsAll.field takes_signed fun y => ReadsAll.field takes_signed fun x =>
    ReadsAll.field takes_letter fun o => ReadsAll.field takes_unsigned fun a =>
    ReadsAll.field takes_unsigned fun b => ReadsAll.field takes_unsigned fun e =>
    ReadsAll.field takes_quoted fun v => readsAll_atEnd (f x y o a b e v)) fun form tokens => ?_
  rw [hkind]
  constructor
  -- The tokens come off in order: the words, the position, the letter, the numbers, the value.
  · rintro ⟨_, _, _, rfl, rfl, _, _, _, rfl, rfl, hrest⟩
    obtain ⟨y, _, _, rfl, hy, x, _, _, rfl, hx, hrest⟩ := hrest
    obtain ⟨o, _, _, rfl, ho, hrest⟩ := hrest
    obtain ⟨a, _, _, rfl, ha, b, _, _, rfl, hb, e, _, _, rfl, he, hrest⟩ := hrest
    obtain ⟨v, _, _, rfl, hv, rfl, rfl⟩ := hrest
    refine ⟨_, rfl, (hf _ _).mpr ⟨x, y, o, a, b, e, v, ?_, rfl⟩⟩
    exact .mk hy hx ho ha hb he hv
  · rintro ⟨fields, rfl, hform⟩
    obtain ⟨x, y, o, a, b, e, v, hfields, rfl⟩ := (hf _ _).mp hform
    obtain ⟨hy, hx, ho, ha, hb, he, hv⟩ := hfields
    refine ⟨(), _, _, rfl, rfl, (), _, _, rfl, rfl, ?_⟩
    refine ⟨y, _, _, rfl, hy, x, _, _, rfl, hx, ?_⟩
    refine ⟨o, _, _, rfl, ho, ?_⟩
    refine ⟨a, _, _, rfl, ha, b, _, _, rfl, hb, e, _, _, rfl, he, ?_⟩
    exact ⟨v, _, _, rfl, hv, rfl, rfl⟩

theorem readsLine_textLine : ReadsLine textLine 'T' := by
  refine readsLine_valueLine rfl (by decide) fun form fields => ⟨fun h => ?_, ?_⟩
  · cases h with
    | text h => exact ⟨_, _, _, _, _, _, _, h, rfl⟩
  · rintro ⟨x, y, o, a, b, e, v, h, rfl⟩
    exact .text h

theorem readsLine_barcodeLine : ReadsLine barcodeLine 'C' := by
  refine readsLine_valueLine rfl (by decide) fun form fields => ⟨fun h => ?_, ?_⟩
  · cases h with
    | barcode h => exact ⟨_, _, _, _, _, _, _, h, rfl⟩
  · rintro ⟨x, y, o, a, b, e, v, h, rfl⟩
    exact .barcode h

theorem readsLine_ruleLine : ReadsLine ruleLine 'B' := by
  refine readsLine_of_readsAll (ReadsAll.field (takes_word (c := 'B') rfl (by decide)) fun _ =>
    ReadsAll.field takes_letter fun direction => ReadsAll.field takes_signed fun y =>
    ReadsAll.field takes_signed fun x =>
    ReadsAll.field (takes_word (c := 'L') rfl (by decide)) fun _ =>
    ReadsAll.field takes_unsigned fun thickness => ReadsAll.field takes_unsigned fun length =>
    readsAll_atEnd (rule x y direction thickness length)) fun form tokens => ?_
  constructor
  · rintro ⟨_, _, _, rfl, rfl, _, _, _, rfl, hd, hrest⟩
    obtain ⟨_, _, _, rfl, hy, _, _, _, rfl, hx, hrest⟩ := hrest
    obtain ⟨_, _, _, rfl, rfl, _, _, _, rfl, ht, _, _, _, rfl, hl, rfl, rfl⟩ := hrest
    exact ⟨_, rfl, .rule hd hy hx ht hl⟩
  · rintro ⟨_, rfl, hform⟩
    cases hform with
    | rule hd hy hx ht hl =>
      refine ⟨(), _, _, rfl, rfl, _, _, _, rfl, hd, ?_⟩
      refine ⟨_, _, _, rfl, hy, _, _, _, rfl, hx, ?_⟩
      exact ⟨(), _, _, rfl, rfl, _, _, _, rfl, ht, _, _, _, rfl, hl, rfl, rfl⟩

/-! ## All forms together -/

/-- A line that is read by one of the readers is refused by one for another kind. -/
theorem ReadsLine.eq_none {p q : Reader Form} {c d : Char} (hp : ReadsLine p c)
    (hq : ReadsLine q d) (hcd : c ≠ d) (hc : ¬ isSeparator c) (hd : ¬ isSeparator d)
    {cs rest : List Char} {form : Form} (h : p cs = some (form, rest)) : q cs = none := by
  obtain ⟨-, tokens, tail, -, rfl, ht⟩ := (hp cs form rest).mp h
  by_contra hne
  obtain ⟨⟨form', rest'⟩, h'⟩ := Option.ne_none_iff_exists'.mp hne
  obtain ⟨-, tokens', tail', -, htail, ht'⟩ := (hq _ form' rest').mp h'
  obtain rfl : tail = tail' := by simpa using htail
  exact hcd (Option.some.inj ((ht.head?_dropWhile hc).symm.trans (ht'.head?_dropWhile hd)))

/-- A line is read exactly if its tokens write a form. -/
theorem read?_eq_some_iff {cs : List Char} {form : Form} :
    read? cs = some form ↔ ∃ tokens tail, form.IsTokens (['!', 'F'] :: tokens) ∧
      cs = '!' :: 'F' :: tail ∧ Trails tokens tail := by
  constructor
  · intro h
    obtain ⟨⟨_, rest⟩, hread, rfl⟩ := Option.map_eq_some_iff.mp h
    simp only [Option.orElse_eq_orElse, Option.orElse_eq_or, Option.or_eq_some_iff] at hread
    rcases hread with hread | ⟨-, hread | ⟨-, hread⟩⟩
    · obtain ⟨-, tokens, tail, hform, hcs, ht⟩ := (readsLine_textLine _ _ _).mp hread
      exact ⟨_, tail, hform, hcs, ht⟩
    · obtain ⟨-, tokens, tail, hform, hcs, ht⟩ := (readsLine_ruleLine _ _ _).mp hread
      exact ⟨_, tail, hform, hcs, ht⟩
    · obtain ⟨-, tokens, tail, hform, hcs, ht⟩ := (readsLine_barcodeLine _ _ _).mp hread
      exact ⟨_, tail, hform, hcs, ht⟩
  · rintro ⟨tokens, tail, hform, rfl, ht⟩
    cases hform with
    | text hfields =>
      have h := (readsLine_textLine _ _ _).mpr ⟨rfl, _, tail, .text hfields, rfl, ht⟩
      simp [read?, h]
    | rule hl hy hx h₁ h₂ =>
      have h := (readsLine_ruleLine _ _ _).mpr ⟨rfl, _, tail, .rule hl hy hx h₁ h₂, rfl, ht⟩
      have htext := readsLine_ruleLine.eq_none readsLine_textLine (by decide) (by decide)
        (by decide) h
      simp [read?, h, htext]
    | barcode hfields =>
      have h := (readsLine_barcodeLine _ _ _).mpr ⟨rfl, _, tail, .barcode hfields, rfl, ht⟩
      have htext := readsLine_barcodeLine.eq_none readsLine_textLine (by decide) (by decide)
        (by decide) h
      have hrule := readsLine_barcodeLine.eq_none readsLine_ruleLine (by decide) (by decide)
        (by decide) h
      simp [read?, h, htext, hrule]

/-- What is written is a drawing line. -/
theorem Written.isDrawing {form : Form} {cs : List Char} (h : form.Written cs) :
    ['!', 'F'] <+: cs := by
  obtain ⟨tokens, hform, hcs⟩ := h
  cases hform <;>
  · obtain ⟨tail, rfl, -⟩ := hcs.exists_trails rfl
    exact List.prefix_append _ _

/-- A trimmed line is read exactly if it is written. -/
theorem read?_trim_eq_some_iff {raw : List Char} {form : Form} :
    read? (trim raw) = some form ↔ form.Written (trim raw) := by
  rw [read?_eq_some_iff]
  constructor
  · rintro ⟨tokens, tail, hform, hcs, ht⟩
    refine ⟨_, hform, ?_⟩
    have hlast : ∀ c ∈ (['!', 'F'] ++ tail).getLast?, ¬ isSeparator c := by
      intro c hc hsep
      refine getLast?_trim raw c (hcs ▸ hc) ?_
      rcases isSeparator_iff.mp hsep with rfl | rfl <;> decide
    exact hcs ▸ ht.isSpaced hlast
  · rintro ⟨tokens, hform, hcs⟩
    obtain ⟨fields, rfl⟩ : ∃ fields, tokens = ['!', 'F'] :: fields := by
      cases hform <;> exact ⟨_, rfl⟩
    obtain ⟨tail, htail, ht⟩ := hcs.exists_trails rfl
    exact ⟨fields, tail, hform, htail, ht⟩

end Form

/-! ## Lines -/

theorem isDrawing_iff {cs : List Char} : isDrawing cs ↔ ['!', 'F'] <+: cs :=
  List.isPrefixOf_iff_prefix

/-- A line that does not draw is skipped. -/
theorem readLine_of_not_drawing {raw : List Char} (h : ¬ ['!', 'F'] <+: trim raw) (n : Nat) :
    readLine raw n = .skipped := by
  have hdraws : isDrawing (trim raw) = false := by simpa [← isDrawing_iff] using h
  simp only [readLine, hdraws, Bool.not_false, if_true, ite_self]

/-- A drawing line is none of those that are left out before. -/
theorem readLine_of_drawing {raw : List Char} (h : ['!', 'F'] <+: trim raw) (n : Nat) :
    readLine raw n = match Form.read? (trim raw) with
      | some form => .ofResult (form.toCommand n)
      | none => .warning (.unparsed n (String.ofList raw)) := by
  have hdraws := isDrawing_iff.mpr h
  obtain ⟨tail, htail⟩ := h
  have hkept : ((trim raw).isEmpty || isComment (trim raw) || isDirective (trim raw)) = false := by
    rw [← htail]
    rfl
  refine (if_neg ?_).trans (if_neg ?_)
  · rw [hkept]
    exact Bool.false_ne_true
  · rw [hdraws]
    exact Bool.false_ne_true

/-- A line that is written gives what its form stands for. -/
theorem readLine_of_written {raw : List Char} {form : Form} (h : form.Written (trim raw))
    (n : Nat) : readLine raw n = .ofResult (form.toCommand n) := by
  rw [readLine_of_drawing h.isDrawing, Form.read?_trim_eq_some_iff.mpr h]

/-- Reading a line makes of it what the grammar does, for every line: nothing else is read
as a command, and no way to write one is missed. -/
theorem readLine_eq_iff (raw : List Char) (n : Nat) (r : Reading) :
    readLine raw n = r ↔ Reading.IsMeant raw n r := by
  constructor
  · rintro rfl
    by_cases hdraws : ['!', 'F'] <+: trim raw
    · rw [readLine_of_drawing hdraws]
      cases hread : Form.read? (trim raw) with
      | none =>
        refine .unparsed hdraws fun form hform => ?_
        simp [Form.read?_trim_eq_some_iff.mpr hform] at hread
      | some form =>
        have hform := Form.read?_trim_eq_some_iff.mp hread
        cases form with
        | text x y spec => exact .text hform
        | barcode x y spec => exact .barcode hform
        | rule x y letter thickness length =>
          simp only [Form.toCommand]
          cases hletter : Direction.ofLetter? letter with
          | none =>
            obtain ⟨hN, hE⟩ := Direction.ofLetter?_eq_none_iff.mp hletter
            exact .unsupportedDirection hform hN hE
          | some direction =>
            obtain rfl := Direction.ofLetter?_eq_some_iff.mp hletter
            refine .rule ?_
            exact hform
    · rw [readLine_of_not_drawing hdraws]
      exact .skipped hdraws
  · intro h
    cases h with
    | text h => exact readLine_of_written h n
    | barcode h => exact readLine_of_written h n
    | @rule x y spec h =>
      rw [readLine_of_written h, Form.toCommand, Direction.ofLetter?_eq_some_iff.mpr rfl]
      rfl
    | unsupportedDirection h hN hE =>
      rw [readLine_of_written h, Form.toCommand, Direction.ofLetter?_eq_none_iff.mpr ⟨hN, hE⟩]
      rfl
    | unparsed hdraws h =>
      rw [readLine_of_drawing hdraws]
      cases hread : Form.read? (trim raw) with
      | none => rfl
      | some form => exact absurd (Form.read?_trim_eq_some_iff.mp hread) (h form)
    | skipped h => exact readLine_of_not_drawing h n

/-- What each line of a script comes to. It is a text, a rule or a barcode exactly if it is a
way to write one, and carries the number of the line; a rule whose letter is neither `N` nor
`E` is reported with its letter; any other line that starts with `!F` is reported as it was
written; and the lines that do not start so are skipped. -/
theorem readLine_decides (raw : List Char) (n : Nat) :
    (∀ x y k spec, readLine raw n = .command ⟨x, y, k, .text spec⟩ ↔
      k = n ∧ (Form.text x y spec).Written (trim raw)) ∧
    (∀ x y k spec, readLine raw n = .command ⟨x, y, k, .rule spec⟩ ↔
      k = n ∧ (Form.rule x y spec.direction.letter spec.thickness spec.length).Written
        (trim raw)) ∧
    (∀ x y k spec, readLine raw n = .command ⟨x, y, k, .barcode spec⟩ ↔
      k = n ∧ (Form.barcode x y spec).Written (trim raw)) ∧
    (∀ k letter, readLine raw n = .warning (.unsupportedDirection k letter) ↔
      k = n ∧ letter ≠ 'N' ∧ letter ≠ 'E' ∧ ∃ x y thickness length,
        (Form.rule x y letter thickness length).Written (trim raw)) ∧
    (∀ k quote, readLine raw n = .warning (.unparsed k quote) ↔
      k = n ∧ quote = String.ofList raw ∧ ['!', 'F'] <+: trim raw ∧
        ∀ form : Form, ¬ form.Written (trim raw)) ∧
    (readLine raw n = .skipped ↔ ¬ ['!', 'F'] <+: trim raw) := by
  simp only [readLine_eq_iff]
  refine ⟨fun x y k spec => ?_, fun x y k spec => ?_, fun x y k spec => ?_, fun k letter => ?_,
    fun k quote => ?_, ?_⟩
  · constructor
    · intro h
      cases h with
      | text h => exact ⟨rfl, h⟩
    · rintro ⟨rfl, h⟩
      exact .text h
  · constructor
    · intro h
      cases h with
      | rule h => exact ⟨rfl, h⟩
    · rintro ⟨rfl, h⟩
      exact .rule h
  · constructor
    · intro h
      cases h with
      | barcode h => exact ⟨rfl, h⟩
    · rintro ⟨rfl, h⟩
      exact .barcode h
  · constructor
    · intro h
      cases h with
      | unsupportedDirection h hN hE => exact ⟨rfl, hN, hE, _, _, _, _, h⟩
    · rintro ⟨rfl, hN, hE, x, y, thickness, length, h⟩
      exact .unsupportedDirection h hN hE
  · constructor
    · intro h
      cases h with
      | unparsed hdraws h => exact ⟨rfl, rfl, hdraws, h⟩
    · rintro ⟨rfl, rfl, hdraws, h⟩
      exact .unparsed hdraws h
  · constructor
    · intro h
      cases h with
      | skipped h => exact h
    · exact .skipped

end LabelPress
