import LabelPress.Proofs.Numbering

/-!
# Scripts one after the other

A line means the same wherever it stands, apart from its number (`readLine_later`), and its
blanks matter only for the text of a warning that quotes it (`readLine_reword`).

A script `a`, a line feed and a script `b` have the lines of `a`, the last of them ended by
the line feed, and then those of `b` (`lines_append_feed`). So reading them gives what `a`
gives and then what `b` gives, with the lines of `b` numbered on (`Script.parse_append`). The
one thing the line feed can change is a carriage return at the end of `a`: it belongs to the
last line of `a` as long as nothing follows, and to the line's end once a line feed does.
-/

namespace LabelPress

open Text

/-! ## One line at another place -/

/-- The command on a line that stands `n` lines further down. -/
def Command.later (n : Nat) (c : Command) : Command := { c with line := c.line + n }

namespace Warning

/-- The warning for a line that stands `n` lines further down. -/
def later (n : Nat) : Warning → Warning
  | unsupportedDirection k letter => unsupportedDirection (k + n) letter
  | unparsed k raw => unparsed (k + n) raw

/-- The warning for a line that was written with other blanks around it. -/
def reword (raw : String) : Warning → Warning
  | unparsed k _ => unparsed k raw
  | w => w

/-- The warning with the last character of line `n` left out. -/
def shorten (n : Nat) : Warning → Warning
  | unparsed k raw => unparsed k (if k = n then String.ofList raw.toList.dropLast else raw)
  | w => w

/-- Only a warning for line `n` is shortened. -/
theorem shorten_of_ne {w : Warning} {n : Nat} (h : w.line ≠ n) : w.shorten n = w := by
  cases w with
  | unsupportedDirection => rfl
  | unparsed k raw =>
    have hk : k ≠ n := h
    rw [shorten, if_neg hk]

end Warning

namespace Reading

/-- What a line comes to that stands `n` lines further down. -/
def later (n : Nat) : Reading → Reading
  | skipped => skipped
  | command c => command (c.later n)
  | warning w => warning (w.later n)

/-- What a line comes to that was written with other blanks around it. -/
def reword (raw : String) : Reading → Reading
  | warning w => warning (w.reword raw)
  | r => r

theorem command?_later (n : Nat) (r : Reading) :
    (r.later n).command? = r.command?.map (Command.later n) := by
  cases r <;> rfl

theorem warning?_later (n : Nat) (r : Reading) :
    (r.later n).warning? = r.warning?.map (Warning.later n) := by
  cases r <;> rfl

theorem command?_reword (raw : String) (r : Reading) : (r.reword raw).command? = r.command? := by
  cases r <;> rfl

theorem warning?_reword (raw : String) (r : Reading) :
    (r.reword raw).warning? = r.warning?.map (Warning.reword raw) := by
  cases r <;> rfl

end Reading

/-- A line further down comes to the same. -/
theorem readLine_later (raw : List Char) (k n : Nat) :
    readLine raw (k + n) = (readLine raw k).later n := by
  have h := (readLine_eq_iff raw k _).mp rfl
  rw [readLine_eq_iff]
  generalize readLine raw k = r at h
  cases h with
  | text h => exact .text h
  | rule h => exact .rule h
  | barcode h => exact .barcode h
  | unsupportedDirection h hN hE => exact .unsupportedDirection h hN hE
  | unparsed hdraws h => exact .unparsed hdraws h
  | skipped h => exact .skipped h

/-- A line that is quoted in a warning draws, so it is not empty, and is quoted as it stands. -/
theorem eq_of_readLine_eq_unparsed {raw : List Char} {n k : Nat} {quote : String}
    (h : readLine raw n = .warning (.unparsed k quote)) :
    raw ≠ [] ∧ quote = String.ofList raw := by
  cases (readLine_eq_iff _ _ _).mp h with
  | unparsed hdraws =>
    refine ⟨?_, rfl⟩
    rintro rfl
    exact absurd hdraws (by decide)

/-- Lines that differ only in the blanks around them come to the same, but for the text of a
warning that quotes them. -/
theorem readLine_reword {raw raw' : List Char} (htrim : trim raw = trim raw') (n : Nat) :
    readLine raw n = (readLine raw' n).reword (String.ofList raw) := by
  have h := (readLine_eq_iff raw' n _).mp rfl
  rw [readLine_eq_iff]
  generalize readLine raw' n = r at h
  cases h with
  | text h => exact .text (htrim ▸ h)
  | rule h => exact .rule (htrim ▸ h)
  | barcode h => exact .barcode (htrim ▸ h)
  | unsupportedDirection h hN hE => exact .unsupportedDirection (htrim ▸ h) hN hE
  | unparsed hdraws h => exact .unparsed (htrim ▸ hdraws) (htrim ▸ h)
  | skipped h => exact .skipped (htrim ▸ h)

namespace Text

/-! ## The lines of two texts -/

/-- What stands behind the last line feed is what a text ends with. -/
theorem getLast?_unlines_append (ls : List (List Char)) {l : List Char} (hl : l ≠ []) :
    (unlines ls ++ l).getLast? = l.getLast? := by
  rw [List.getLast?_append, List.getLast?_eq_some_getLast hl, Option.some_or]

/-- A text ends with a carriage return exactly if its last line does. -/
theorem getLast?_unlines_append_eq_return_iff (ls : List (List Char)) (l : List Char) :
    (unlines ls ++ l).getLast? = some '\r' ↔ l.getLast? = some '\r' := by
  by_cases hl : l = []
  · subst hl
    rcases List.eq_nil_or_concat ls with rfl | ⟨ls, m, rfl⟩
    · simp [unlines]
    · simp [unlines]
  · rw [getLast?_unlines_append ls hl]

/-- A line feed between two texts ends the last line of the first. -/
theorem lines_append_feed {ls : List (List Char)} {l : List Char} (hls : ∀ m ∈ ls, '\n' ∉ m)
    (hl : '\n' ∉ l) (cs : List Char) : lines (unlines ls ++ l ++ '\n' :: cs) =
      ls.map withoutReturn ++ withoutReturn l :: lines cs := by
  obtain ⟨ms, m, hms, hm, rfl, -⟩ := exists_unlines cs
  have hall : ∀ k ∈ ls ++ l :: ms, '\n' ∉ k := by
    intro k hk
    rcases List.mem_append.mp hk with hk | hk
    · exact hls k hk
    · rcases List.mem_cons.mp hk with rfl | hk
      · exact hl
      · exact hms k hk
  calc lines (unlines ls ++ l ++ '\n' :: (unlines ms ++ m))
      = lines (unlines (ls ++ l :: ms) ++ m) := by simp [unlines]
    _ = (ls ++ l :: ms).map withoutReturn ++ lastLine m := lines_unlines_append hall hm
    _ = ls.map withoutReturn ++ withoutReturn l :: lines (unlines ms ++ m) := by
      rw [lines_unlines_append hms hm]
      simp

end Text

namespace Script

/-! ## Reading two texts -/

theorem readFrom_append (k : Nat) (ls ms : List (List Char)) :
    readFrom k (ls ++ ms) = readFrom k ls ++ readFrom (k + ls.length) ms := by
  rw [readFrom, List.zipIdx_append, List.map_append, ← readFrom, ← readFrom]

/-- Lines further down come to the same. -/
theorem readFrom_later (k n : Nat) (ls : List (List Char)) :
    readFrom (k + n) ls = (readFrom k ls).map (Reading.later n) := by
  induction ls generalizing k with
  | nil => rfl
  | cons l ls ih =>
    rw [readFrom_cons, readFrom_cons, List.map_cons, readLine_later, Nat.add_right_comm, ih]

variable {α : Type} {keep : Reading → Option α}

/-- An empty last line is no line, and gives nothing as a line either. -/
theorem filterMap_readFrom_lastLine (hskip : keep .skipped = none) (n : Nat) (l : List Char) :
    (readFrom n (lastLine l)).filterMap keep = (keep (readLine l n)).toList := by
  unfold lastLine
  split
  · rename_i hl
    have hempty : readLine l n = .skipped := by
      rw [hl]
      rfl
    rw [hempty, hskip]
    rfl
  · cases h : keep (readLine l n) <;> simp [h]

/-- What is kept of a text is kept of its lines with line feeds, and of its last line. -/
theorem filterMap_readings {ls : List (List Char)} {l : List Char} (hskip : keep .skipped = none)
    (hls : ∀ m ∈ ls, '\n' ∉ m) (hl : '\n' ∉ l) :
    (readings (unlines ls ++ l)).filterMap keep =
      (readFrom 1 (ls.map withoutReturn)).filterMap keep
        ++ (keep (readLine l (ls.length + 1))).toList := by
  rw [readings_eq, lines_unlines_append hls hl, readFrom_append, List.filterMap_append,
    filterMap_readFrom_lastLine hskip, List.length_map, Nat.add_comm 1]

/-- Where a line feed and another text follow, the last line loses its carriage return, and the
lines that follow are numbered on. -/
theorem filterMap_readings_append_feed {ls : List (List Char)} {l : List Char}
    (hls : ∀ m ∈ ls, '\n' ∉ m) (hl : '\n' ∉ l) (cs : List Char) :
    (readings (unlines ls ++ l ++ '\n' :: cs)).filterMap keep =
      (readFrom 1 (ls.map withoutReturn)).filterMap keep
        ++ (keep (readLine (withoutReturn l) (ls.length + 1))).toList
        ++ ((readings cs).map (Reading.later (ls.length + 1))).filterMap keep := by
  have hnext : readFrom (1 + ls.length + 1) (lines cs) =
      (readings cs).map (Reading.later (ls.length + 1)) := by
    rw [Nat.add_assoc, readFrom_later]
    rfl
  rw [readings_eq, lines_append_feed hls hl, readFrom_append, List.length_map, readFrom_cons,
    hnext, Nat.add_comm 1, List.filterMap_append, List.append_assoc]
  congr 1
  cases h : keep (readLine (withoutReturn l) (ls.length + 1)) <;> simp [h]

/-- The line numbers of what is kept of some lines do not exceed their number. -/
theorem line_le_of_mem_filterMap {line : α → Nat} {ls : List (List Char)} {a : α}
    (hline : ∀ raw n a, keep (readLine raw n) = some a → line a = n)
    (ha : a ∈ (readFrom 1 ls).filterMap keep) : line a ≤ ls.length := by
  have hmem := List.mem_map_of_mem (f := line) ha
  rw [map_line_filterMap hline, mem_map_snd_filter] at hmem
  obtain ⟨i, l, hi, hl, -⟩ := hmem
  have := (List.getElem?_eq_some_iff.mp hl).1
  omega

/-- What is kept of lines further down is what is kept of the lines, moved down. -/
theorem filterMap_map_later {move : Nat → α → α}
    (hmove : ∀ n r, keep (Reading.later n r) = (keep r).map (move n)) (n : Nat)
    (rs : List Reading) :
    (rs.map (Reading.later n)).filterMap keep = (rs.filterMap keep).map (move n) := by
  rw [List.filterMap_map, List.map_filterMap]
  exact congrArg (rs.filterMap ·) (funext (hmove n))

/-- A warning for a line that ends with a carriage return is reworded by leaving that out. -/
theorem warning?_withoutReturn {l : List Char} (hreturn : l.getLast? = some '\r') (n : Nat) :
    (readLine (withoutReturn l) n).warning? =
      (readLine l n).warning?.map (Warning.shorten n) := by
  rw [readLine_reword (trim_withoutReturn l), Reading.warning?_reword]
  have hshort : withoutReturn l = l.dropLast := if_pos hreturn
  have h := (readLine_eq_iff l n _).mp rfl
  generalize readLine l n = r at h
  cases h with
  | unparsed => simp [Reading.warning?, Warning.reword, Warning.shorten, hshort]
  | _ => rfl

/-- The text quoted in the warning for the line behind all line feeds ends as the script
does. -/
theorem getLast?_of_unparsed_mem {cs : List Char} {raw : String}
    (h : Warning.unparsed (cs.count '\n' + 1) raw ∈ (readings cs).filterMap Reading.warning?) :
    raw.toList.getLast? = cs.getLast? := by
  obtain ⟨ls, l, hls, hl, rfl, hcount⟩ := exists_unlines cs
  rw [filterMap_readings rfl hls hl, ← hcount] at h
  rcases List.mem_append.mp h with h | h
  · have hle := line_le_of_mem_filterMap (fun _ _ _ => line_of_readLine_eq_warning) h
    rw [List.length_map] at hle
    exact absurd hle (Nat.not_succ_le_self _)
  · have hread := Reading.eq_warning_of_warning?_eq_some (Option.mem_toList.mp h)
    obtain ⟨hne, rfl⟩ := eq_of_readLine_eq_unparsed hread
    rw [String.toList_ofList, getLast?_unlines_append ls hne]

/-- Reading a script, a line feed and another script gives what the two give, with the lines of
the second numbered on. Where the first ends with a carriage return, that one is left out of
the warning that quotes its last line. -/
theorem parse_append (a b : String) :
    (parse (a ++ "\n" ++ b)).commands = (parse a).commands
        ++ (parse b).commands.map (Command.later (a.toList.count '\n' + 1)) ∧
      (parse (a ++ "\n" ++ b)).warnings =
        (if a.toList.getLast? = some '\r'
          then (parse a).warnings.map (Warning.shorten (a.toList.count '\n' + 1))
          else (parse a).warnings)
        ++ (parse b).warnings.map (Warning.later (a.toList.count '\n' + 1)) ∧
      ∀ raw, .unparsed (a.toList.count '\n' + 1) raw ∈ (parse a).warnings →
        raw.toList.getLast? = a.toList.getLast? := by
  obtain ⟨ls, l, hls, hl, ha, hcount⟩ := exists_unlines a.toList
  have htext : (a ++ "\n" ++ b).toList = unlines ls ++ l ++ '\n' :: b.toList := by
    simp [String.toList_append, ha]
  rw [← hcount]
  refine ⟨?_, ?_, fun raw h => getLast?_of_unparsed_mem (hcount ▸ h)⟩
  · have hlast := congrArg Reading.command? (readLine_reword (trim_withoutReturn l) (ls.length + 1))
    rw [Reading.command?_reword] at hlast
    simp only [parse]
    rw [htext, ha, filterMap_readings_append_feed hls hl, filterMap_readings rfl hls hl, hlast,
      filterMap_map_later Reading.command?_later]
  · have hfirst : ((readFrom 1 (ls.map withoutReturn)).filterMap Reading.warning?).map
        (Warning.shorten (ls.length + 1))
          = (readFrom 1 (ls.map withoutReturn)).filterMap Reading.warning? := by
      refine Eq.trans (List.map_congr_left fun w hw => Warning.shorten_of_ne ?_) (List.map_id _)
      have hle := line_le_of_mem_filterMap (fun _ _ _ => line_of_readLine_eq_warning) hw
      rw [List.length_map] at hle
      omega
    simp only [parse]
    rw [htext, ha, filterMap_readings_append_feed hls hl, filterMap_readings rfl hls hl,
      filterMap_map_later Reading.warning?_later]
    split
    · rename_i hreturn
      rw [getLast?_unlines_append_eq_return_iff] at hreturn
      rw [warning?_withoutReturn hreturn, List.map_append, hfirst, Option.toList_map]
    · rename_i hreturn
      rw [getLast?_unlines_append_eq_return_iff] at hreturn
      rw [withoutReturn, if_neg hreturn]

/-- The carriage return is quoted only as long as no line feed follows it. -/
example : (parse "!F\r").warnings = [.unparsed 1 "!F\r"] ∧
    (parse "!F\r\n").warnings = [.unparsed 1 "!F"] := by decide

end Script

end LabelPress
