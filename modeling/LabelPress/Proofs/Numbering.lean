import LabelPress.Proofs.Language
import LabelPress.Proofs.Numerals

/-!
# Every drawing line is accounted for

`Script.readFrom k ls` is what the lines `ls` come to when the first of them has number `k`.
A line that draws gives a command or a warning, never both, and it carries the line's number;
any other line gives neither (`command?_isSome_or_warning?_isSome`).

So the numbers of the commands are those of some of the lines, in order, and the numbers of
the warnings are those of the other drawing lines (`map_line_filterMap`). `Script.Accounts`
collects what follows for a whole script, and `Script.parse_accounts` says that it holds of
every text.
-/

namespace LabelPress

open Text

/-! ## One line -/

theorem Reading.eq_command_of_command?_eq_some {r : Reading} {c : Command}
    (h : r.command? = some c) : r = .command c := by
  cases r <;> simp_all [command?]

theorem Reading.eq_warning_of_warning?_eq_some {r : Reading} {w : Warning}
    (h : r.warning? = some w) : r = .warning w := by
  cases r <;> simp_all [warning?]

/-- The command on a line carries the line's number. -/
theorem line_of_readLine_eq_command {raw : List Char} {n : Nat} {c : Command}
    (h : (readLine raw n).command? = some c) : c.line = n := by
  have hread := Reading.eq_command_of_command?_eq_some h
  cases (readLine_eq_iff _ _ _).mp hread <;> rfl

/-- The warning for a line carries the line's number. -/
theorem line_of_readLine_eq_warning {raw : List Char} {n : Nat} {w : Warning}
    (h : (readLine raw n).warning? = some w) : w.line = n := by
  have hread := Reading.eq_warning_of_warning?_eq_some h
  cases (readLine_eq_iff _ _ _).mp hread <;> rfl

/-- A line is skipped exactly if it does not draw. -/
theorem readLine_eq_skipped_iff {raw : List Char} {n : Nat} :
    readLine raw n = .skipped ↔ ¬ isDrawing (trim raw) := by
  rw [readLine_eq_iff, isDrawing_iff]
  exact ⟨fun | .skipped h => h, .skipped⟩

/-- A line gives a command or a warning exactly if it draws. -/
theorem command?_isSome_or_warning?_isSome (raw : List Char) (n : Nat) :
    ((readLine raw n).command?.isSome || (readLine raw n).warning?.isSome)
      = isDrawing (trim raw) := by
  have hskip : readLine raw n = .skipped ↔ _ := readLine_eq_skipped_iff
  cases h : readLine raw n <;> simp_all [Reading.command?, Reading.warning?]

theorem Reading.not_command?_and_warning? (r : Reading) :
    ¬ (r.command?.isSome ∧ r.warning?.isSome) := by
  cases r <;> simp [command?, warning?]

/-! ## Lines with their numbers -/

namespace Script

/-- What lines come to, the first one being number `k`. -/
def readFrom (k : Nat) (ls : List (List Char)) : List Reading :=
  (ls.zipIdx k).map fun line => readLine line.1 line.2

theorem readings_eq (cs : List Char) : readings cs = readFrom 1 (lines cs) := rfl

@[simp] theorem readFrom_nil (k : Nat) : readFrom k [] = [] := rfl

@[simp] theorem readFrom_cons (k : Nat) (l : List Char) (ls : List (List Char)) :
    readFrom k (l :: ls) = readLine l k :: readFrom (k + 1) ls := rfl

/-- The numbers of what is kept of some lines are the numbers of the lines it is kept of. -/
theorem map_line_filterMap {α : Type} {keep : Reading → Option α} {line : α → Nat}
    (hline : ∀ raw n a, keep (readLine raw n) = some a → line a = n) (k : Nat)
    (ls : List (List Char)) :
    ((readFrom k ls).filterMap keep).map line =
      ((ls.zipIdx k).filter fun l => (keep (readLine l.1 l.2)).isSome).map Prod.snd := by
  induction ls generalizing k with
  | nil => rfl
  | cons l ls ih =>
    rw [readFrom_cons, List.zipIdx_cons, List.filterMap_cons, List.filter_cons]
    cases h : keep (readLine l k) with
    | none => simpa using ih (k + 1)
    | some a => simpa [hline l k a h] using ih (k + 1)

/-- Some of the lines, in order, have increasing numbers. -/
theorem pairwise_lt_map_snd_filter (p : List Char × Nat → Bool) (k : Nat)
    (ls : List (List Char)) : (((ls.zipIdx k).filter p).map Prod.snd).Pairwise (· < ·) := by
  have hsub : (((ls.zipIdx k).filter p).map Prod.snd).Sublist (List.range' k ls.length) := by
    rw [← List.zipIdx_map_snd]
    exact List.filter_sublist.map Prod.snd
  exact List.Pairwise.sublist hsub List.pairwise_lt_range'

theorem mem_map_snd_filter {p : List Char × Nat → Bool} {ls : List (List Char)} {n : Nat} :
    n ∈ ((ls.zipIdx 1).filter p).map Prod.snd ↔
      ∃ i l, n = i + 1 ∧ ls[i]? = some l ∧ p (l, n) := by
  simp only [List.mem_map, List.mem_filter, Prod.exists, exists_eq_right,
    List.mk_mem_zipIdx_iff_le_and_getElem?_sub]
  constructor
  · rintro ⟨l, ⟨hle, hget⟩, hp⟩
    exact ⟨n - 1, l, by omega, hget, hp⟩
  · rintro ⟨i, l, rfl, hget, hp⟩
    exact ⟨l, ⟨by omega, by simpa using hget⟩, hp⟩

/-- Each drawing line gives one command or one warning, and other lines give nothing. -/
theorem length_add_length (k : Nat) (ls : List (List Char)) :
    ((readFrom k ls).filterMap Reading.command?).length
        + ((readFrom k ls).filterMap Reading.warning?).length
      = ls.countP fun l => isDrawing (trim l) := by
  induction ls generalizing k with
  | nil => rfl
  | cons l ls ih =>
    have hdraws := command?_isSome_or_warning?_isSome l k
    rw [List.countP_cons, ← ih (k + 1), ← hdraws, readFrom_cons, List.filterMap_cons,
      List.filterMap_cons]
    cases readLine l k with
    | skipped => rfl
    | command c => simp [Reading.command?, Reading.warning?, Nat.add_right_comm]
    | warning w => simp [Reading.command?, Reading.warning?, Nat.add_assoc]

/-! ## The counts -/

/-- Every command is of one of the three kinds. -/
theorem textCount_add_ruleCount_add_barcodeCount (s : Script) :
    s.textCount + s.ruleCount + s.barcodeCount = s.commands.length := by
  unfold textCount ruleCount barcodeCount
  induction s.commands with
  | nil => rfl
  | cons c cs ih =>
    rw [List.length_cons, ← ih]
    cases h : c.shape <;> simp [Command.isText, Command.isRule, Command.isBarcode, h] <;> omega

/-- A number with its word is read as the number where the word has no digits. -/
theorem numbersIn_counted (n : Nat) {noun : String} (hnoun : ∀ c ∈ noun.toList, ¬ c.isDigit)
    (cs : List Char) : numbersIn ((counted n noun).toList ++ cs) = n :: numbersIn cs := by
  have hplural : ∀ c ∈ (if n = 1 then "" else "s").toList, ¬ c.isDigit := by
    split <;> simp
  simp only [counted, String.toList_append, List.append_assoc]
  rw [numbersIn_repr n (by decide) (by simp), numbersIn_append hnoun, numbersIn_append hplural]

/-- The summary says how many commands there are, how many of each kind, and how many
warnings. -/
theorem numbersIn_summary (s : Script) : numbersIn s.summary.toList =
    [s.commands.length, s.textCount, s.ruleCount, s.barcodeCount, s.warnings.length] := by
  have hlast : ∀ n, numbersIn (counted n "warning").toList = [n] := by
    intro n
    rw [← List.append_nil (counted n "warning").toList, numbersIn_counted n (by simp),
      numbersIn_nil]
  simp only [summary, String.toList_append, List.append_assoc]
  rw [numbersIn_counted _ (by simp), numbersIn_append (by simp),
    numbersIn_repr _ (by decide) (by simp), numbersIn_counted _ (by simp),
    numbersIn_append (by simp), numbersIn_counted _ (by simp), numbersIn_append (by simp),
    hlast]

/-! ## Whole scripts -/

/-- The script accounts for the drawing lines among `ls`: each of them gave one command or
one warning, under its own number and in order, and no other line gave anything. -/
structure Accounts (s : Script) (ls : List (List Char)) : Prop where
  /-- The commands are in the order of their lines, at most one for each line. -/
  commands_lt : (s.commands.map Command.line).Pairwise (· < ·)
  /-- The warnings are in the order of their lines, at most one for each line. -/
  warnings_lt : (s.warnings.map Warning.line).Pairwise (· < ·)
  /-- No line gave both. -/
  disjoint : ∀ c ∈ s.commands, ∀ w ∈ s.warnings, c.line ≠ w.line
  /-- The lines that gave something are those that draw, the first line being number one. -/
  drawing : ∀ n, n ∈ s.commands.map Command.line ∨ n ∈ s.warnings.map Warning.line ↔
    ∃ i l, n = i + 1 ∧ ls[i]? = some l ∧ ['!', 'F'] <+: trim l
  /-- There are as many commands and warnings as drawing lines. -/
  total : s.commands.length + s.warnings.length = ls.countP fun l => isDrawing (trim l)
  /-- There are as many commands as texts, rules and barcodes. -/
  kinds : s.textCount + s.ruleCount + s.barcodeCount = s.commands.length
  /-- The numbers in the summary are these. -/
  summary : numbersIn s.summary.toList =
    [s.commands.length, s.textCount, s.ruleCount, s.barcodeCount, s.warnings.length]

theorem map_line_commands (text : String) : (parse text).commands.map Command.line =
    (((lines text.toList).zipIdx 1).filter fun l => (readLine l.1 l.2).command?.isSome).map
      Prod.snd :=
  map_line_filterMap (fun _ _ _ => line_of_readLine_eq_command) 1 _

theorem map_line_warnings (text : String) : (parse text).warnings.map Warning.line =
    (((lines text.toList).zipIdx 1).filter fun l => (readLine l.1 l.2).warning?.isSome).map
      Prod.snd :=
  map_line_filterMap (fun _ _ _ => line_of_readLine_eq_warning) 1 _

/-- No drawing line of a text is lost, counted twice or moved. -/
theorem parse_accounts (text : String) : (parse text).Accounts (lines text.toList) where
  commands_lt := by
    rw [map_line_commands]
    exact pairwise_lt_map_snd_filter _ 1 _
  warnings_lt := by
    rw [map_line_warnings]
    exact pairwise_lt_map_snd_filter _ 1 _
  disjoint c hc w hw hline := by
    have hc := List.mem_map_of_mem (f := Command.line) hc
    have hw := List.mem_map_of_mem (f := Warning.line) hw
    rw [map_line_commands, mem_map_snd_filter] at hc
    rw [map_line_warnings, mem_map_snd_filter, ← hline] at hw
    obtain ⟨i, l, hi, hl, hcommand⟩ := hc
    obtain ⟨j, m, hj, hm, hwarning⟩ := hw
    obtain rfl : i = j := by omega
    obtain rfl : l = m := Option.some.inj (hl.symm.trans hm)
    exact (readLine l c.line).not_command?_and_warning? ⟨hcommand, hwarning⟩
  drawing n := by
    rw [map_line_commands, map_line_warnings, mem_map_snd_filter, mem_map_snd_filter]
    constructor
    · rintro (⟨i, l, hi, hl, h⟩ | ⟨i, l, hi, hl, h⟩)
      · refine ⟨i, l, hi, hl, isDrawing_iff.mp ?_⟩
        rw [← command?_isSome_or_warning?_isSome l n, h, Bool.true_or]
      · refine ⟨i, l, hi, hl, isDrawing_iff.mp ?_⟩
        rw [← command?_isSome_or_warning?_isSome l n, h, Bool.or_true]
    · rintro ⟨i, l, hi, hl, h⟩
      have hdraws := command?_isSome_or_warning?_isSome l n
      rw [isDrawing_iff.mpr h, Bool.or_eq_true] at hdraws
      exact hdraws.imp (fun h => ⟨i, l, hi, hl, h⟩) fun h => ⟨i, l, hi, hl, h⟩
  total := length_add_length 1 _
  kinds := textCount_add_ruleCount_add_barcodeCount _
  summary := numbersIn_summary _

end Script

end LabelPress
