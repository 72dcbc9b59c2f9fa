import LabelPress.Script.Printer
import LabelPress.Text.Blank
import Mathlib.Data.List.DropRight

/-!
# Trimming and lines

`trim` takes the blanks off both ends of a line: it leaves none behind (`getLast?_trim`),
changes nothing where there is none (`trim_of_solid`), and does not see blanks added behind
(`trim_append_blanks`).

Every text is a list of lines, each with a line feed after it, and a last line without one,
which may be empty (`exists_unlines`). `lines_unlines_append` says what `lines` makes of
such a text: a line before a line feed loses the carriage return at its end, the last line
keeps it, and an empty last line is no line.
-/

namespace LabelPress.Text

/-! ## Trimming -/

theorem trim_eq (cs : List Char) : trim cs = (cs.dropWhile isBlank).rdropWhile isBlank := rfl

/-- A trimmed line ends with no blank. -/
theorem getLast?_trim (cs : List Char) : ∀ c ∈ (trim cs).getLast?, ¬ isBlank c := by
  intro c hc
  obtain ⟨hne, rfl⟩ := List.mem_getLast?_eq_getLast hc
  exact List.rdropWhile_last_not isBlank _ hne

/-- A line without blanks at its ends is trimmed. -/
theorem trim_of_solid {cs : List Char} (hhead : ∀ c ∈ cs.head?, ¬ isBlank c)
    (hlast : ∀ c ∈ cs.getLast?, ¬ isBlank c) : trim cs = cs := by
  have hdrop : cs.dropWhile isBlank = cs := by
    cases cs with
    | nil => rfl
    | cons c cs => exact List.dropWhile_cons_of_neg (hhead c rfl)
  rw [trim_eq, hdrop, List.rdropWhile_eq_self_iff]
  intro hne
  exact hlast _ (List.getLast?_eq_some_getLast hne)

/-- Blanks behind a line do not count. -/
theorem trim_append_blanks (cs : List Char) {bs : List Char} (h : ∀ c ∈ bs, isBlank c) :
    trim (cs ++ bs) = trim cs := by
  rw [trim_eq, trim_eq, List.dropWhile_append]
  split
  · rename_i hempty
    rw [List.isEmpty_iff.mp hempty, List.rdropWhile_nil, List.rdropWhile_eq_nil_iff]
    intro c hc
    exact h c ((List.dropWhile_sublist _).subset hc)
  · rw [List.rdropWhile, List.reverse_append, List.dropWhile_append_of_pos, ← List.rdropWhile]
    simpa using h

/-- A character of a trimmed line is one of the line. -/
theorem mem_of_mem_trim {c : Char} {cs : List Char} (h : c ∈ trim cs) : c ∈ cs := by
  rw [trim_eq] at h
  exact (List.dropWhile_sublist _).subset ((List.rdropWhile_prefix _ _).subset h)

/-! ## The ends of lines -/

/-- A line without the carriage return at its end. -/
def withoutReturn (l : List Char) : List Char :=
  if l.getLast? = some '\r' then l.dropLast else l

theorem lineBody_append_feed (l : List Char) : lineBody (l ++ ['\n']) = withoutReturn l := by
  simp [lineBody, withoutReturn]

theorem lineBody_of_not_mem {l : List Char} (h : '\n' ∉ l) : lineBody l = l := by
  refine if_neg fun hlast => h ?_
  exact List.mem_of_getLast? hlast

/-- A carriage return is a blank, so trimming takes it off in any case. -/
theorem trim_withoutReturn (l : List Char) : trim (withoutReturn l) = trim l := by
  unfold withoutReturn
  split
  · rename_i h
    obtain ⟨l', rfl⟩ := List.getLast?_eq_some_iff.mp h
    rw [List.dropLast_concat, trim_append_blanks]
    simp [isBlank, blankRanges]
  · rfl

theorem not_mem_withoutReturn {l : List Char} {c : Char} (h : c ∉ l) : c ∉ withoutReturn l := by
  unfold withoutReturn
  split
  · exact fun hc => h ((List.dropLast_sublist l).subset hc)
  · exact h

/-! ## The lines of a text -/

theorem pieces_line_feed {l : List Char} (h : '\n' ∉ l) (cs : List Char) :
    pieces (l ++ '\n' :: cs) = (l ++ ['\n']) :: pieces cs := by
  induction l with
  | nil => simp [pieces]
  | cons c l ih =>
    obtain ⟨hc, hl⟩ := not_or.mp (mt List.mem_cons.mpr h)
    rw [List.cons_append, pieces, if_neg (Ne.symm hc), ih hl]
    rfl

theorem pieces_of_not_mem {l : List Char} (h : '\n' ∉ l) (hne : l ≠ []) : pieces l = [l] := by
  induction l with
  | nil => exact absurd rfl hne
  | cons c l ih =>
    obtain ⟨hc, hl⟩ := not_or.mp (mt List.mem_cons.mpr h)
    rw [pieces, if_neg (Ne.symm hc)]
    cases l with
    | nil => rfl
    | cons d l => rw [ih hl (by simp)]

/-- A last line without a line feed is a line unless it is empty. -/
def lastLine (l : List Char) : List (List Char) := if l = [] then [] else [l]

/-- The lines of a text made up of lines with line feeds and a last line without. -/
theorem lines_unlines_append {ls : List (List Char)} {l : List Char} (hls : ∀ m ∈ ls, '\n' ∉ m)
    (hl : '\n' ∉ l) : lines (unlines ls ++ l) = ls.map withoutReturn ++ lastLine l := by
  induction ls with
  | nil =>
    rw [lastLine]
    split
    · rename_i h
      simp [h, unlines, lines, pieces]
    · rename_i h
      simp [unlines, lines, pieces_of_not_mem hl h, lineBody_of_not_mem hl]
  | cons m ls ih =>
    obtain ⟨hm, hls⟩ := List.forall_mem_cons.mp hls
    have htext : unlines (m :: ls) ++ l = m ++ '\n' :: (unlines ls ++ l) := by simp [unlines]
    rw [htext, lines, pieces_line_feed hm, List.map_cons, lineBody_append_feed, ← lines, ih hls,
      List.map_cons, List.cons_append]

/-- Every text is made up of lines with line feeds and a last line without. -/
theorem exists_unlines (cs : List Char) : ∃ ls l, (∀ m ∈ ls, '\n' ∉ m) ∧ '\n' ∉ l ∧
    cs = unlines ls ++ l ∧ ls.length = cs.count '\n' := by
  induction cs with
  | nil => exact ⟨[], [], by simp, by simp, rfl, rfl⟩
  | cons c cs ih =>
    obtain ⟨ls, l, hls, hl, rfl, hcount⟩ := ih
    by_cases hc : c = '\n'
    · subst hc
      exact ⟨[] :: ls, l, by simpa using hls, hl, by simp [unlines], by simpa using hcount⟩
    · cases ls with
      | nil => exact ⟨[], c :: l, by simp, by simp [hl, Ne.symm hc], rfl, by simpa [hc] using hcount⟩
      | cons m ls =>
        refine ⟨(c :: m) :: ls, l, ?_, hl, by simp [unlines], by simpa [hc] using hcount⟩
        simpa [Ne.symm hc] using hls

/-- No line of a text holds a line feed. -/
theorem not_mem_of_mem_lines {cs l : List Char} (h : l ∈ lines cs) : '\n' ∉ l := by
  obtain ⟨ls, last, hls, hlast, rfl, -⟩ := exists_unlines cs
  rw [lines_unlines_append hls hlast] at h
  rcases List.mem_append.mp h with h | h
  · obtain ⟨m, hm, rfl⟩ := List.mem_map.mp h
    exact not_mem_withoutReturn (hls m hm)
  · unfold lastLine at h
    split at h
    · simp at h
    · exact List.mem_singleton.mp h ▸ hlast

end LabelPress.Text
