import LabelPress.Proofs.Concatenation

/-!
# Writing and reading a script

`Command.toLine` writes a command as a line of its form (`Command.written_toLine`), and the
line is read back as that command (`Command.readLine_toLine`). A script written by hand also
has lines that draw nothing; `Item` is one line of it, of either kind. `Script.parse_written`
says that reading such a script gives its commands, numbered by their lines, and no warning.

Whatever is read can be written again (`Script.printable_of_mem_commands`), so the commands of
any script survive being written and read, but for their line numbers.
-/

namespace LabelPress

open Text

/-! ## Written lines are trimmed -/

/-- Spaced tokens end as the last of them does. -/
theorem IsSpaced.mem_getLast? {tokens : List (List Char)} {cs : List Char}
    (h : IsSpaced tokens cs) : ∀ {token c}, tokens.getLast? = some token → c ∈ token.getLast? →
      c ∈ cs.getLast? := by
  induction h with
  | last token =>
    rintro _ c ⟨rfl⟩ hc
    exact hc
  | @cons token gap cs tokens hgap hcs ih =>
    intro last c hlast hc
    refine List.mem_getLast?_append_of_mem_getLast? (ih ?_ hc)
    cases tokens with
    | nil => cases hcs
    | cons next tokens => rwa [List.getLast?_cons_cons] at hlast

/-- A character of a token stands on the line. -/
theorem IsSpaced.mem_of_mem_token {tokens : List (List Char)} {cs : List Char}
    (h : IsSpaced tokens cs) : ∀ {token c}, token ∈ tokens → c ∈ token → c ∈ cs := by
  induction h with
  | last token =>
    intro t c ht hc
    exact List.mem_singleton.mp ht ▸ hc
  | cons hgap hcs ih =>
    intro t c ht hc
    rcases List.mem_cons.mp ht with rfl | ht
    · simp [hc]
    · exact List.mem_append_right _ (ih ht hc)

/-- No digit is a blank. -/
theorem not_isBlank_of_isDigit {c : Char} (h : c.isDigit) : ¬ isBlank c := by
  simp only [Char.isDigit, Bool.and_eq_true, decide_eq_true_eq, ge_iff_le, UInt32.le_iff_toNat_le]
    at h
  have h0 : '0'.val.toNat = 48 := rfl
  have h9 : '9'.val.toNat = 57 := rfl
  have hnat : c.toNat = c.val.toNat := rfl
  simp [isBlank, blankRanges]
  omega

theorem IsDigits.exists_last {ds : List Char} (h : IsDigits ds) :
    ∃ c ∈ ds.getLast?, ¬ isBlank c := by
  refine ⟨ds.getLast h.1, List.getLast?_eq_some_getLast h.1, ?_⟩
  exact not_isBlank_of_isDigit (h.2 _ (List.getLast_mem h.1))

namespace Form

/-- The last token of a line is a quoted value or a number, so it ends with no blank. -/
theorem IsTokens.exists_last {form : Form} {tokens : List (List Char)} (h : form.IsTokens tokens) :
    ∃ token, tokens.getLast? = some token ∧ ∃ c ∈ token.getLast?, ¬ isBlank c := by
  have hquoted : ∀ {value v}, IsQuoted value v → ∃ c ∈ v.getLast?, ¬ isBlank c := by
    rintro value _ ⟨rfl, -⟩
    exact ⟨'"', List.getLast?_concat, by decide⟩
  cases h with
  | text h => cases h with | mk _ _ _ _ _ _ hv => exact ⟨_, rfl, hquoted hv⟩
  | rule _ _ _ _ hn => exact ⟨_, rfl, hn.1.exists_last⟩
  | barcode h => cases h with | mk _ _ _ _ _ _ hv => exact ⟨_, rfl, hquoted hv⟩

/-- A line that is written by the grammar has no blanks around it. -/
theorem Written.trim_eq {form : Form} {cs : List Char} (h : form.Written cs) : trim cs = cs := by
  obtain ⟨tail, rfl⟩ := h.isDrawing
  obtain ⟨tokens, htokens, hcs⟩ := h
  obtain ⟨token, htoken, c, hc, hblank⟩ := htokens.exists_last
  refine trim_of_solid (by simp; decide) fun d hd => ?_
  obtain rfl := Option.mem_unique hd (hcs.mem_getLast? htoken hc)
  exact hblank

end Form

/-! ## Writing a command -/

/-- One space between words is a gap. -/
theorem isSpaced_spaced : ∀ {ws : List (List Char)}, ws ≠ [] → IsSpaced ws (spaced ws)
  | [], h => absurd rfl h
  | [w], _ => .last w
  | w :: v :: ws, _ => by
    have hgap : IsGap [' '] := ⟨by simp, by simp⟩
    have hrest : IsSpaced (v :: ws) (spaced (v :: ws)) := isSpaced_spaced (by simp)
    have hcons : IsSpaced (w :: v :: ws) _ := .cons hgap hrest
    simpa [spaced] using hcons

theorem mem_spaced : ∀ {ws : List (List Char)} {c : Char}, c ∈ spaced ws →
    c = ' ' ∨ ∃ w ∈ ws, c ∈ w
  | [], _, h => by simp [spaced] at h
  | [w], _, h => Or.inr ⟨w, by simp, h⟩
  | w :: v :: ws, c, h => by
    rcases List.mem_append.mp h with h | h
    · exact Or.inr ⟨w, by simp, h⟩
    · rcases List.mem_cons.mp h with rfl | h
      · exact Or.inl rfl
      · rcases mem_spaced h with rfl | ⟨u, hu, hc⟩
        · exact Or.inl rfl
        · exact Or.inr ⟨u, List.mem_cons_of_mem w hu, hc⟩

theorem feed_not_mem_unsignedToken (n : UInt32) : '\n' ∉ unsignedToken n := by
  intro h
  exact absurd (isDigit_of_mem_numeral h) (by decide)

theorem feed_not_mem_signedToken (d : Dot) : '\n' ∉ signedToken d := by
  intro h
  unfold signedToken at h
  cases hd : d.val with
  | ofNat n =>
    rw [hd] at h
    exact absurd (isDigit_of_mem_numeral h) (by decide)
  | negSucc n =>
    rw [hd] at h
    rcases List.mem_cons.mp h with h | h
    · simp at h
    · exact absurd (isDigit_of_mem_numeral h) (by decide)

namespace Command

/-- The form of the line that writes a command. -/
def form (c : Command) : Form :=
  match c.shape with
  | .text spec => .text c.x c.y spec
  | .rule spec => .rule c.x c.y spec.direction.letter spec.thickness spec.length
  | .barcode spec => .barcode c.x c.y spec

/-- The form of a command stands for it, wherever its line stands. -/
theorem toCommand_form (c : Command) (n : Nat) : c.form.toCommand n = .ok { c with line := n } := by
  unfold form
  cases h : c.shape with
  | text => simp [Form.toCommand]
  | barcode => simp [Form.toCommand]
  | rule => simp [Form.toCommand, Direction.ofLetter?_eq_some_iff.mpr rfl]

/-- The fields of a value that can be written are written by the grammar. -/
theorem isValueFields_tokens (x y : Dot) (n₁ n₂ n₃ : UInt32) {letter : Char} {value : String}
    (hletter : letter.isUpper) (hvalue : PrintableValue value) :
    IsValueFields x y letter n₁ n₂ n₃ value [['S'], signedToken y, signedToken x, [letter],
      unsignedToken n₁, unsignedToken n₂, unsignedToken n₃, quotedToken value] := by
  have hl : IsLetter letter [letter] := ⟨rfl, Reader.isUpper_iff.mp hletter⟩
  have hv : IsQuoted value (quotedToken value) := ⟨rfl, hvalue.1⟩
  exact .mk (isSigned_signedToken y) (isSigned_signedToken x) hl (isUnsigned_unsignedToken n₁)
    (isUnsigned_unsignedToken n₂) (isUnsigned_unsignedToken n₃) hv

/-- The tokens of a command that can be written are tokens of its form. -/
theorem isTokens_tokens {c : Command} (hc : c.Printable) : c.form.IsTokens c.tokens := by
  unfold Printable at hc
  unfold form tokens
  cases h : c.shape with
  | text spec =>
    rw [h] at hc
    exact .text (isValueFields_tokens _ _ _ _ _ hc.1 hc.2)
  | rule spec =>
    have hletter : IsLetter spec.direction.letter [spec.direction.letter] :=
      ⟨rfl, by cases spec.direction <;> decide⟩
    exact .rule hletter (isSigned_signedToken _) (isSigned_signedToken _)
      (isUnsigned_unsignedToken _) (isUnsigned_unsignedToken _)
  | barcode spec =>
    rw [h] at hc
    exact .barcode (isValueFields_tokens _ _ _ _ _ hc.1 hc.2)

theorem tokens_ne_nil (c : Command) : c.tokens ≠ [] := by
  unfold tokens
  split <;> simp

/-- The line of a command is a way to write it. -/
theorem written_toLine {c : Command} (hc : c.Printable) : c.form.Written c.toLine :=
  ⟨c.tokens, isTokens_tokens hc, isSpaced_spaced c.tokens_ne_nil⟩

/-- The line of a command is read back as the command. -/
theorem readLine_toLine {c : Command} (hc : c.Printable) (n : Nat) :
    readLine c.toLine n = .command { c with line := n } := by
  have hwritten := written_toLine hc
  rw [← hwritten.trim_eq] at hwritten
  rw [readLine_of_written hwritten, toCommand_form]
  rfl

/-- The line of a command is one line. -/
theorem feed_not_mem_toLine {c : Command} (hc : c.Printable) : '\n' ∉ c.toLine := by
  have hquoted : ∀ value, PrintableValue value → '\n' ∉ quotedToken value := by
    intro value hvalue
    simpa [quotedToken] using hvalue.2
  have hupper : ∀ letter : Char, letter.isUpper → '\n' ≠ letter := by
    rintro _ hletter rfl
    exact absurd hletter (by decide)
  have htokens : ∀ w ∈ c.tokens, '\n' ∉ w := by
    unfold Printable at hc
    unfold tokens
    cases hshape : c.shape with
    | text spec =>
      rw [hshape] at hc
      simp [feed_not_mem_signedToken, feed_not_mem_unsignedToken, hupper _ hc.1, hquoted _ hc.2]
    | rule spec =>
      cases h : spec.direction <;>
        simp [feed_not_mem_signedToken, feed_not_mem_unsignedToken, h, Direction.letter]
    | barcode spec =>
      rw [hshape] at hc
      simp [feed_not_mem_signedToken, feed_not_mem_unsignedToken, hupper _ hc.1, hquoted _ hc.2]
  intro h
  rcases mem_spaced h with h | ⟨w, hw, h⟩
  · simp at h
  · exact htokens w hw h

end Command

/-! ## Writing a script -/

namespace Item

/-- What a line comes to when it is line number `n`. -/
def reading (n : Nat) : Item → Reading
  | command c _ => .command { c with line := n }
  | aside _ _ => .skipped

theorem command?_reading (e : Item) (n : Nat) : (e.reading n).command? = e.command? n := by
  cases e <;> rfl

theorem warning?_reading (e : Item) (n : Nat) : (e.reading n).warning? = none := by
  cases e <;> rfl

theorem feed_not_mem_line : ∀ e : Item, '\n' ∉ e.line
  | command _ h => Command.feed_not_mem_toLine h
  | aside _ h => h.1

/-- A line beside the commands does not draw. -/
theorem not_drawing_of_isAside {l : List Char} (h : IsAside l) : ¬ ['!', 'F'] <+: trim l := by
  rintro ⟨tail, htail⟩
  obtain ⟨-, h⟩ := h
  rw [← htail] at h
  simp [isComment, isDirective] at h

theorem readLine_line (e : Item) (n : Nat) : readLine e.line n = e.reading n := by
  cases e with
  | command c h => exact Command.readLine_toLine h n
  | aside l h => exact readLine_of_not_drawing (not_drawing_of_isAside h) n

/-- A line that ends with a carriage return comes to the same without it. -/
theorem readLine_withoutReturn (e : Item) (n : Nat) :
    readLine (withoutReturn e.line) n = e.reading n := by
  rw [readLine_reword (trim_withoutReturn _), readLine_line]
  cases e <;> rfl

theorem readFrom_withoutReturn (k : Nat) (items : List Item) :
    Script.readFrom k ((items.map line).map withoutReturn) =
      (items.zipIdx k).map fun item => item.1.reading item.2 := by
  induction items generalizing k with
  | nil => rfl
  | cons e items ih =>
    rw [List.map_cons, List.map_cons, Script.readFrom_cons, readLine_withoutReturn, ih,
      List.zipIdx_cons, List.map_cons]

end Item

namespace Script

variable {α : Type} {keep : Reading → Option α}

/-- What is kept of a written script, and of a line behind it. -/
theorem filterMap_readings_items (hskip : keep .skipped = none) (items : List Item)
    {l : List Char} (hl : '\n' ∉ l) :
    (readings (unlines (items.map Item.line) ++ l)).filterMap keep =
      ((items.zipIdx 1).filterMap fun item => keep (item.1.reading item.2))
        ++ (keep (readLine l (items.length + 1))).toList := by
  have hlines : ∀ m ∈ items.map Item.line, '\n' ∉ m := by
    intro m hm
    obtain ⟨item, -, rfl⟩ := List.mem_map.mp hm
    exact item.feed_not_mem_line
  rw [filterMap_readings hskip hlines hl, Item.readFrom_withoutReturn, List.filterMap_map,
    List.length_map]
  rfl

/-- A written script is read as its commands, and whatever stands on a line behind it. -/
theorem parse_unlines_append (items : List Item) {l : List Char} (hl : '\n' ∉ l) :
    parse (String.ofList (unlines (items.map Item.line) ++ l)) =
      { commands := Item.commands items ++ (readLine l (items.length + 1)).command?.toList
        warnings := (readLine l (items.length + 1)).warning?.toList } := by
  have hcommands := @filterMap_readings_items _ Reading.command? rfl items l hl
  have hwarnings := @filterMap_readings_items _ Reading.warning? rfl items l hl
  simp only [Item.command?_reading] at hcommands
  simp only [Item.warning?_reading, List.filterMap_none, List.nil_append] at hwarnings
  rw [parse, String.toList_ofList, hcommands, hwarnings, Item.commands]

/-- Reading a script that was written line after line gives its commands, each under the number
of its line. -/
theorem parse_unlines (items : List Item) :
    parse (String.ofList (unlines (items.map Item.line))) = ⟨Item.commands items, []⟩ := by
  have h := parse_unlines_append items (l := []) (by simp)
  have hskip : readLine [] (items.length + 1) = .skipped := rfl
  rw [hskip, List.append_nil] at h
  simpa [Reading.command?, Reading.warning?] using h

/-- Lines with a line feed between each two are lines with one after each, and a last one. -/
theorem intercalate_concat (ls : List (List Char)) (l : List Char) :
    ['\n'].intercalate (ls ++ [l]) = unlines ls ++ l := by
  induction ls with
  | nil => simp [unlines]
  | cons m ls ih =>
    rw [List.cons_append, List.intercalate_cons_of_ne_nil (by simp), ih]
    simp [unlines]

/-- The last line of a written script may lack its line feed. -/
theorem parse_intercalate (items : List Item) :
    parse (String.ofList (['\n'].intercalate (items.map Item.line))) =
      ⟨Item.commands items, []⟩ := by
  rcases List.eq_nil_or_concat items with rfl | ⟨items, last, rfl⟩
  · rfl
  · have hcommands : Item.commands (items ++ [last]) =
        Item.commands items ++ (last.command? (items.length + 1)).toList := by
      rw [Item.commands, List.zipIdx_append, List.filterMap_append, ← Item.commands,
        Nat.add_comm 1]
      cases h : last.command? (items.length + 1) <;> simp [h]
    rw [List.concat_eq_append, List.map_append, List.map_singleton, intercalate_concat,
      parse_unlines_append items last.feed_not_mem_line, Item.readLine_line,
      Item.command?_reading, Item.warning?_reading, ← hcommands, Option.toList_none]

end Script

/-! ## Writing what was read -/

/-- The letter and the value on a line can be written again. -/
theorem IsValueFields.printable {x y : Dot} {letter : Char} {n₁ n₂ n₃ : UInt32} {value : String}
    {fields tokens : List (List Char)} {cs : List Char}
    (h : IsValueFields x y letter n₁ n₂ n₃ value fields) (hcs : IsSpaced tokens cs)
    (htokens : fields ⊆ tokens) (hfeed : '\n' ∉ cs) :
    letter.isUpper ∧ Command.PrintableValue value := by
  cases h with
  | mk _ _ hletter _ _ _ hvalue =>
    obtain ⟨rfl, hquote⟩ := hvalue
    refine ⟨Reader.isUpper_iff.mpr hletter.2, hquote, fun hmem => hfeed ?_⟩
    refine hcs.mem_of_mem_token (htokens (List.mem_of_getLast? rfl)) ?_
    simp [hmem]

/-- The command on a line can be written. -/
theorem Command.printable_of_readLine_eq {raw : List Char} {n : Nat} {c : Command}
    (hfeed : '\n' ∉ raw) (h : readLine raw n = .command c) : c.Printable := by
  have hfeed : '\n' ∉ trim raw := mt mem_of_mem_trim hfeed
  rw [readLine_eq_iff] at h
  cases h with
  | text h =>
    obtain ⟨tokens, htokens, hcs⟩ := h
    cases htokens with
    | text hfields => exact hfields.printable hcs (by intro w; simp +contextual) hfeed
  | rule => trivial
  | barcode h =>
    obtain ⟨tokens, htokens, hcs⟩ := h
    cases htokens with
    | barcode hfields => exact hfields.printable hcs (by intro w; simp +contextual) hfeed

namespace Script

/-- The commands of any script can be written. -/
theorem printable_of_mem_commands {text : String} {c : Command} (h : c ∈ (parse text).commands) :
    c.Printable := by
  obtain ⟨r, hr, hc⟩ := List.mem_filterMap.mp h
  obtain ⟨⟨raw, n⟩, hraw, rfl⟩ := List.mem_map.mp hr
  refine Command.printable_of_readLine_eq ?_ (Reading.eq_command_of_command?_eq_some hc)
  exact not_mem_of_mem_lines (List.fst_mem_of_mem_zipIdx hraw)

/-- Commands that are written one after the other are read again, under new numbers. -/
theorem parse_unlines_toLine {cs : List Command} (hcs : ∀ c ∈ cs, c.Printable) :
    parse (String.ofList (unlines (cs.map Command.toLine))) =
      ⟨(cs.zipIdx 1).map fun c => { c.1 with line := c.2 }, []⟩ := by
  have hcommands : ∀ k, ((cs.pmap Item.command hcs).zipIdx k).filterMap
      (fun item => item.1.command? item.2) = (cs.zipIdx k).map fun c => { c.1 with line := c.2 } := by
    induction cs with
    | nil => intro k; rfl
    | cons c cs ih =>
      intro k
      obtain ⟨-, htail⟩ := List.forall_mem_cons.mp hcs
      rw [List.pmap_cons, List.zipIdx_cons, List.zipIdx_cons, List.map_cons, ← ih htail]
      rfl
  have hlines : (cs.pmap Item.command hcs).map Item.line = cs.map Command.toLine := by
    rw [List.map_pmap]
    exact List.pmap_eq_map hcs
  rw [← hlines, parse_unlines, Item.commands, hcommands]

/-- A script that is written from commands, with any lines beside them, is read as these
commands under the numbers of their lines, and without warnings; the last line may lack its
line feed. And whatever script is read, its commands can be written, and are read again. -/
theorem parse_written (items : List Item) (text : String) :
    parse (String.ofList (unlines (items.map Item.line))) = ⟨Item.commands items, []⟩ ∧
      parse (String.ofList (['\n'].intercalate (items.map Item.line))) =
        ⟨Item.commands items, []⟩ ∧
      (∀ c ∈ (parse text).commands, c.Printable) ∧
      parse (String.ofList (unlines ((parse text).commands.map Command.toLine))) =
        ⟨((parse text).commands.zipIdx 1).map fun c => { c.1 with line := c.2 }, []⟩ :=
  ⟨parse_unlines items, parse_intercalate items, fun _ => printable_of_mem_commands,
    parse_unlines_toLine fun _ => printable_of_mem_commands⟩

end Script

end LabelPress
