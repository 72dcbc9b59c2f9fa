import LabelPress.Proofs.Concatenation
import Mathlib.Data.List.Forall2

/-!
# Blanks and line ends

A script is a list of lines, and there are many texts that have these lines: each line may end
with a line feed or with a carriage return and a line feed, and the last one may have no end at
all (`IsTextOf`). Which of them it is makes no difference, because a line end of either kind is
taken off as a whole (`lines_append_lineEnd`) and an empty last line comes to nothing
(`Script.parse_eq_ofLines`).

Nor do blanks around a line (`Pads`). They are trimmed off before the line is read
(`trim_eq_of_pads`), so the line comes to the same, and only a warning that quotes it shows them
(`Script.warnings_readFrom_of_pads`).
-/

namespace LabelPress

open Text

namespace Text

/-! ## Line ends -/

/-- The ways to end a line. -/
inductive LineEnd where
  | feed
  | returnFeed
deriving DecidableEq

/-- The characters of a line end. -/
def LineEnd.chars : LineEnd → List Char
  | feed => ['\n']
  | returnFeed => ['\r', '\n']

/-- A line whose end can be told from it: it holds no line feed, and no carriage return stands
at its end. -/
def IsLine (l : List Char) : Prop := '\n' ∉ l ∧ l.getLast? ≠ some '\r'

instance (l : List Char) : Decidable (IsLine l) := inferInstanceAs (Decidable (_ ∧ _))

/-- The text has the given lines. Each of them has an end of either kind, and the last one may
have none. -/
inductive IsTextOf : List (List Char) → List Char → Prop where
  | nil : IsTextOf [] []
  | last (l : List Char) : IsTextOf [l] l
  | line {l cs : List Char} {ls : List (List Char)} (e : LineEnd) :
    IsTextOf ls cs → IsTextOf (l :: ls) (l ++ e.chars ++ cs)

/-- A line end is taken off as a whole. -/
theorem lines_append_lineEnd {l : List Char} (hl : IsLine l) (e : LineEnd) (cs : List Char) :
    lines (l ++ e.chars ++ cs) = l :: lines cs := by
  obtain ⟨hfeed, hreturn⟩ := hl
  cases e with
  | feed =>
    have htext : l ++ LineEnd.feed.chars ++ cs = l ++ '\n' :: cs := by simp [LineEnd.chars]
    rw [htext, lines, pieces_line_feed hfeed, List.map_cons, lineBody_append_feed, withoutReturn,
      if_neg hreturn, ← lines]
  | returnFeed =>
    have htext : l ++ LineEnd.returnFeed.chars ++ cs = (l ++ ['\r']) ++ '\n' :: cs := by
      simp [LineEnd.chars]
    have hfeed' : '\n' ∉ l ++ ['\r'] := by simpa using hfeed
    rw [htext, lines, pieces_line_feed hfeed', List.map_cons, lineBody_append_feed, withoutReturn,
      if_pos List.getLast?_concat, List.dropLast_concat, ← lines]

/-- A text without a line feed is one line, unless it is empty. -/
theorem lines_of_not_mem {l : List Char} (h : '\n' ∉ l) : lines l = lastLine l :=
  @lines_unlines_append [] l (by simp) h

/-! ## Padding -/

/-- The line `m` is the line `l` with blanks around it. -/
def Pads (l m : List Char) : Prop :=
  ∃ left right, (∀ c ∈ left, isBlank c) ∧ (∀ c ∈ right, isBlank c) ∧ m = left ++ l ++ right

theorem trim_eq_of_pads {l m : List Char} (h : Pads l m) : trim m = trim l := by
  obtain ⟨left, right, hleft, hright, rfl⟩ := h
  rw [trim_append_blanks _ hright, trim_eq, List.dropWhile_append_of_pos hleft, ← trim_eq]

end Text

namespace Script

variable {α : Type} {keep : Reading → Option α}

/-- What is kept of a text is what is kept of its lines. -/
theorem filterMap_readFrom_of_isTextOf {ls : List (List Char)} {cs : List Char}
    (hskip : keep .skipped = none) (h : IsTextOf ls cs) (hls : ∀ l ∈ ls, IsLine l) (k : Nat) :
    (readFrom k (lines cs)).filterMap keep = (readFrom k ls).filterMap keep := by
  induction h generalizing k with
  | nil => rfl
  | last l =>
    obtain ⟨hl, -⟩ := hls l (by simp)
    rw [lines_of_not_mem hl, filterMap_readFrom_lastLine hskip]
    cases h : keep (readLine l k) <;> simp [h]
  | line e _ ih =>
    obtain ⟨hl, hls⟩ := List.forall_mem_cons.mp hls
    rw [lines_append_lineEnd hl, readFrom_cons, readFrom_cons, List.filterMap_cons,
      List.filterMap_cons, ih hls]

/-- The script that some lines come to. -/
def ofLines (ls : List (List Char)) : Script where
  commands := (readFrom 1 ls).filterMap Reading.command?
  warnings := (readFrom 1 ls).filterMap Reading.warning?

/-- A text is read as its lines, whatever ends they have. -/
theorem parse_eq_ofLines {ls : List (List Char)} {text : String} (h : IsTextOf ls text.toList)
    (hls : ∀ l ∈ ls, IsLine l) : parse text = ofLines ls := by
  rw [parse, readings_eq, filterMap_readFrom_of_isTextOf rfl h hls,
    filterMap_readFrom_of_isTextOf rfl h hls, ofLines]

/-- Blanks around lines make no difference to the commands. -/
theorem commands_readFrom_of_pads {ls ms : List (List Char)} (h : List.Forall₂ Pads ls ms)
    (k : Nat) : (readFrom k ms).filterMap Reading.command? =
      (readFrom k ls).filterMap Reading.command? := by
  induction h generalizing k with
  | nil => rfl
  | cons hpads _ ih =>
    rw [readFrom_cons, readFrom_cons, readLine_reword (trim_eq_of_pads hpads), List.filterMap_cons,
      List.filterMap_cons, Reading.command?_reword, ih]

/-- A warning with the line in it that it is about, out of some lines. -/
def requote (ls : List (List Char)) (w : Warning) : Warning :=
  w.reword (String.ofList (ls.getD (w.line - 1) []))

/-- Blanks around lines make no difference to the warnings, but that those which quote a line
show it with its blanks. -/
theorem warnings_readFrom_of_pads {ls ms : List (List Char)} (h : List.Forall₂ Pads ls ms)
    (before : List (List Char)) :
    (readFrom (before.length + 1) ms).filterMap Reading.warning? =
      ((readFrom (before.length + 1) ls).filterMap Reading.warning?).map
        (requote (before ++ ms)) := by
  induction h generalizing before with
  | nil => rfl
  | @cons l m ls ms hpads _ ih =>
    have hrest := ih (before ++ [m])
    rw [List.length_append, List.length_singleton, List.append_assoc,
      List.singleton_append] at hrest
    rw [readFrom_cons, readFrom_cons, readLine_reword (trim_eq_of_pads hpads), List.filterMap_cons,
      List.filterMap_cons, Reading.warning?_reword, hrest]
    cases hwarning : (readLine l (before.length + 1)).warning? with
    | none => rfl
    | some w =>
      have hquote : w.reword (String.ofList m) = requote (before ++ m :: ms) w := by
        simp [requote, line_of_readLine_eq_warning hwarning]
      simp [hquote]

/-- The script of a list of lines does not depend on the ends that its lines have. Blanks around
the lines change nothing in the commands, and of the warnings only the text of those that quote
a line: they quote it with its blanks, and without its end. -/
theorem parse_of_pads {ls ms : List (List Char)} {s t : String} (hs : IsTextOf ls s.toList)
    (ht : IsTextOf ms t.toList) (hls : ∀ l ∈ ls, IsLine l) (hms : ∀ m ∈ ms, IsLine m)
    (hpads : List.Forall₂ Pads ls ms) :
    (∀ s' : String, IsTextOf ls s'.toList → parse s' = parse s) ∧
      (parse t).commands = (parse s).commands ∧
      (parse t).warnings = (parse s).warnings.map (requote ms) := by
  refine ⟨fun s' hs' => ?_, ?_, ?_⟩
  · rw [parse_eq_ofLines hs hls, parse_eq_ofLines hs' hls]
  · rw [parse_eq_ofLines hs hls, parse_eq_ofLines ht hms]
    exact commands_readFrom_of_pads hpads 1
  · rw [parse_eq_ofLines hs hls, parse_eq_ofLines ht hms]
    exact warnings_readFrom_of_pads hpads []

/-- A rule and a line that cannot be read, the second time with ideographic spaces before the
one and behind the other, and with a carriage return at the end of the first. -/
theorem parse_of_pads_two_lines :
    let s := "!F B E 1 2 L 3 4\n!F x"
    let t := "\u3000!F B E 1 2 L 3 4\r\n!F x\u3000"
    parse "!F B E 1 2 L 3 4\r\n!F x\n" = parse s ∧ (parse t).commands = (parse s).commands ∧
      (parse t).warnings = [.unparsed 2 "!F x\u3000"] := by
  intro s t
  let ls : List (List Char) := ["!F B E 1 2 L 3 4".toList, "!F x".toList]
  let ms : List (List Char) := ["\u3000!F B E 1 2 L 3 4".toList, "!F x\u3000".toList]
  have hs : IsTextOf ls s.toList := by
    have htext : s.toList = "!F B E 1 2 L 3 4".toList ++ LineEnd.feed.chars ++ "!F x".toList := by
      decide
    rw [htext]
    exact .line .feed (.last _)
  have hs' : IsTextOf ls "!F B E 1 2 L 3 4\r\n!F x\n".toList := by
    have htext : "!F B E 1 2 L 3 4\r\n!F x\n".toList = "!F B E 1 2 L 3 4".toList
        ++ LineEnd.returnFeed.chars ++ ("!F x".toList ++ LineEnd.feed.chars ++ []) := by decide
    rw [htext]
    exact .line .returnFeed (.line .feed .nil)
  have ht : IsTextOf ms t.toList := by
    have htext : t.toList = "\u3000!F B E 1 2 L 3 4".toList ++ LineEnd.returnFeed.chars
        ++ "!F x\u3000".toList := by decide
    rw [htext]
    exact .line .returnFeed (.last _)
  have hblank : ∀ c ∈ ['\u3000'], isBlank c := List.forall_mem_singleton.mpr (by decide)
  have hpads : List.Forall₂ Pads ls ms :=
    .cons ⟨['\u3000'], [], hblank, List.forall_mem_nil _, rfl⟩
      (.cons ⟨[], ['\u3000'], List.forall_mem_nil _, hblank, rfl⟩ .nil)
  obtain ⟨hends, hcommands, hwarnings⟩ :=
    parse_of_pads hs ht (by decide) (by decide) hpads
  refine ⟨hends _ hs', hcommands, hwarnings.trans ?_⟩
  decide

end Script

end LabelPress
