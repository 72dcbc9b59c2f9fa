import LabelPress.Proofs.Output
import LabelPress.Proofs.RoundTrip

/-!
# What warnings say

A message starts with the number of its line, which ends at the first colon, and what follows it
(`Warning.remark`) tells the two reasons apart before it comes to the letter or the line itself. So
two warnings with the same message are the same (`Warning.message_injective`), even if the line that
is quoted looks like a message of its own.

No line of a script holds a line feed, nor does a message about one. The messages that a run prints,
each with a line feed after it, are therefore told apart by splitting at line feeds
(`splitOn_join_message`), and with them the warnings.
-/

namespace LabelPress

/-! ## Messages -/

namespace Warning

/-- What a message says after the number of the line. -/
def remark : Warning → String
  | unsupportedDirection _ c =>
    ": unsupported line direction '" ++ c.toString ++ "' (only "
      ++ Direction.north.letter.toString ++ " and " ++ Direction.east.letter.toString
      ++ " are drawn)"
  | unparsed _ raw => ": unparsed command ignored: " ++ raw

-- The remark is unfolded with a bound warning here and below: a remark that starts with a literal
-- would be evaluated.
theorem toList_message (w : Warning) :
    w.message.toList = "Line ".toList ++ (Text.numeral w.line ++ w.remark.toList) := by
  unfold message remark line
  cases w <;>
    simp only [String.toList_append, Nat.toList_repr, List.append_assoc, Text.numeral]

theorem head?_remark (w : Warning) : w.remark.toList.head? = some ':' := by
  unfold remark
  cases w <;> simp

/-- What a warning is about is told by what its message says after the number of its line. -/
theorem eq_of_remark_eq {v w : Warning} (hline : v.line = w.line)
    (h : v.remark.toList = w.remark.toList) : v = w := by
  unfold remark at h
  cases v with
  | unsupportedDirection n c =>
    cases w with
    | unsupportedDirection m d =>
      simp only [String.toList_append, Char.toString, String.toList_singleton,
        List.append_cancel_left_eq, List.append_cancel_right_eq, List.cons.injEq, and_true] at h
      exact congrArg₂ unsupportedDirection hline h
    | unparsed m raw => simp at h
  | unparsed n raw =>
    cases w with
    | unsupportedDirection m d => simp at h
    | unparsed m raw' =>
      simp only [String.toList_append, List.append_cancel_left_eq, String.toList_inj] at h
      exact congrArg₂ unparsed hline h

/-- The number of the line in a message is a run of digits, which ends where the remark starts. -/
theorem span_message (w : Warning) :
    (Text.numeral w.line ++ w.remark.toList).takeWhile Char.isDigit = Text.numeral w.line ∧
      (Text.numeral w.line ++ w.remark.toList).dropWhile Char.isDigit = w.remark.toList := by
  refine takeWhile_dropWhile_append (fun c => Text.isDigit_of_mem_numeral) ?_
  rw [head?_remark]
  rintro c ⟨⟩
  decide

/-- A message belongs to one warning. -/
theorem message_injective : Function.Injective message := by
  intro v w h
  have h := congrArg String.toList h
  rw [toList_message, toList_message, List.append_cancel_left_eq] at h
  obtain ⟨hdigits, hremark⟩ := span_message v
  rw [h, (span_message w).1] at hdigits
  rw [h, (span_message w).2] at hremark
  have hline := congrArg Text.numeralValue hdigits
  rw [Text.numeralValue_numeral, Text.numeralValue_numeral] at hline
  exact eq_of_remark_eq hline.symm hremark.symm

end Warning

/-! ## Messages, one on a line -/

/-- Messages that are printed one on a line are the pieces between line feeds. -/
theorem splitOn_join_message {ws : List Warning} (h : ∀ w ∈ ws, '\n' ∉ w.message.toList) :
    (String.join (ws.map fun w => w.message ++ "\n")).toList.splitOn '\n' =
      ws.map (fun w => w.message.toList) ++ [[]] := by
  have hlines : (String.join (ws.map fun w => w.message ++ "\n")).toList =
      ['\n'].intercalate (ws.map (fun w => w.message.toList) ++ [[]]) := by
    rw [Script.intercalate_concat, String.toList_join, unlines, List.flatMap_map, List.flatMap_map,
      List.append_nil]
    simp
  rw [hlines]
  refine List.splitOn_intercalate '\n' ?_ (by simp)
  rw [List.forall_mem_append, List.forall_mem_map]
  exact ⟨h, by simp⟩

/-- Warnings that are printed alike are the same. -/
theorem eq_of_join_message_eq {vs ws : List Warning} (hv : ∀ v ∈ vs, '\n' ∉ v.message.toList)
    (hw : ∀ w ∈ ws, '\n' ∉ w.message.toList)
    (h : String.join (vs.map fun v => v.message ++ "\n") =
      String.join (ws.map fun w => w.message ++ "\n")) : vs = ws := by
  have hsplit := splitOn_join_message hv
  rw [h, splitOn_join_message hw, List.append_left_inj] at hsplit
  refine List.map_injective_iff.mpr (fun v w heq => ?_) hsplit.symm
  exact Warning.message_injective (String.toList_inj.mp heq)

/-! ## The warnings of a run -/

/-- Whether a run on a tree succeeds, the text being its script and the other one its warnings as
they are printed. -/
structure FileTree.Reports (t : FileTree) (arguments : List String) (text printed : String) :
    Prop where
  code : ((run FileTree.files arguments).run t).1.code = 0
  script : ∃ request, Request.ofArguments arguments = .ok request ∧
    t.HoldsText request.script text
  stderr : ((run FileTree.files arguments).run t).1.stderr = printed

theorem FileTree.exists_reports {t : FileTree} {arguments : List String}
    (h : ((run FileTree.files arguments).run t).1.code = 0) :
    ∃ text printed, t.Reports arguments text printed := by
  have hcode := h
  rw [run_files_eq] at hcode
  obtain ⟨request, text, -, hrequest, htext, -⟩ :=
    (isAllOrNothing_execute t arguments).succeeded hcode
  exact ⟨text, _, h, ⟨request, hrequest, htext⟩, rfl⟩

/-- What is printed are the messages about the script, one on a line. -/
theorem FileTree.Reports.printed_eq {t : FileTree} {arguments : List String}
    {text printed : String} (h : t.Reports arguments text printed) :
    printed = String.join ((Script.parse text).warnings.map fun w => w.message ++ "\n") := by
  obtain ⟨hcode, ⟨request, hrequest, document, hread, htext⟩, rfl⟩ := h
  rw [run_files_eq] at hcode ⊢
  obtain ⟨request', text', -, hrequest', ⟨document', hread', htext'⟩, -, -, -, -, hstderr, -⟩ :=
    (isAllOrNothing_execute t arguments).succeeded hcode
  obtain rfl := Except.ok.inj (hrequest.symm.trans hrequest')
  obtain rfl := Except.ok.inj (hread.symm.trans hread')
  obtain rfl := Option.some.inj (htext.symm.trans htext')
  exact hstderr

/-- Messages are faithful. No two warnings have the same one, and none about a script holds a line
feed. What a run that succeeds prints for its warnings, split at line feeds, is one message for each
of them and nothing after the last, and two runs that print the same have the same warnings. -/
theorem warnings_told_by_messages :
    Function.Injective Warning.message ∧
      (∀ text, ∀ w ∈ (Script.parse text).warnings, '\n' ∉ w.message.toList) ∧
      (∀ (t : FileTree) arguments, ((run FileTree.files arguments).run t).1.code = 0 →
        ∃ text printed, t.Reports arguments text printed) ∧
      (∀ (t : FileTree) arguments text printed, t.Reports arguments text printed →
        printed.toList.splitOn '\n' =
          (Script.parse text).warnings.map (fun w => w.message.toList) ++ [[]]) ∧
      ∀ (t t' : FileTree) arguments arguments' text text' printed,
        t.Reports arguments text printed → t'.Reports arguments' text' printed →
          (Script.parse text).warnings = (Script.parse text').warnings := by
  refine ⟨Warning.message_injective, fun text w => Script.feed_not_mem_message,
    fun t arguments => FileTree.exists_reports, ?_, ?_⟩
  · intro t arguments text printed h
    rw [h.printed_eq]
    exact splitOn_join_message fun w => Script.feed_not_mem_message
  · intro t t' arguments arguments' text text' printed h h'
    exact eq_of_join_message_eq (fun w => Script.feed_not_mem_message)
      (fun w => Script.feed_not_mem_message) (h.printed_eq.symm.trans h'.printed_eq)

/-- The two warnings of a script, and what a run prints for them. Any other run that prints it has
these warnings. -/
theorem warnings_told_by_messages_ship_txt :
    let t := FileTree.ofText "ship.txt" "!F B S 1 1 L 1 1\n!F nope"
    let warnings := [Warning.unsupportedDirection 1 'S', .unparsed 2 "!F nope"]
    ∃ printed, t.Reports ["ship.txt"] "!F B S 1 1 L 1 1\n!F nope" printed ∧
      printed.toList.splitOn '\n' =
        ["Line 1: unsupported line direction 'S' (only N and E are drawn)".toList,
          "Line 2: unparsed command ignored: !F nope".toList, []] ∧
      ∀ (t' : FileTree) arguments' text', t'.Reports arguments' text' printed →
        (Script.parse text').warnings = warnings := by
  dsimp only
  have hparse : (Script.parse "!F B S 1 1 L 1 1\n!F nope").warnings =
      [.unsupportedDirection 1 'S', .unparsed 2 "!F nope"] := by decide +kernel
  have hrequest : Request.ofArguments ["ship.txt"] = .ok ⟨"ship.txt", "ship.png", .unit⟩ := rfl
  have htext : (FileTree.ofText "ship.txt" "!F B S 1 1 L 1 1\n!F nope").HoldsText "ship.txt"
      "!F B S 1 1 L 1 1\n!F nope" := ⟨_, rfl, Document.text?_toUTF8 _⟩
  have hroom : (FileTree.ofText "ship.txt" "!F B S 1 1 L 1 1\n!F nope").IsRoom "ship.png"
      ["ship.png"] := ⟨rfl, rfl, none, rfl, by simp⟩
  have hsheet : Magnification.unit.HasSheet := by
    unfold Magnification.HasSheet
    decide +kernel
  have hcode : ((run FileTree.files ["ship.txt"]).run
      (.ofText "ship.txt" "!F B S 1 1 L 1 1\n!F nope")).1.code = 0 := by
    rw [run_files_eq]
    exact (execute_code_eq_zero_iff _ ["ship.txt"]).mpr
      ⟨_, ["ship.png"], hrequest, ⟨_, htext⟩, hsheet, hroom⟩
  obtain ⟨-, -, -, hsplit, htold⟩ := warnings_told_by_messages
  have hreports : FileTree.Reports _ _ _ _ := ⟨hcode, ⟨_, hrequest, htext⟩, rfl⟩
  refine ⟨_, hreports, ?_, fun t' arguments' text' h =>
    (htold _ _ _ _ _ _ _ h hreports).trans hparse⟩
  rw [hsplit _ _ _ _ hreports, hparse]
  decide +kernel

end LabelPress
