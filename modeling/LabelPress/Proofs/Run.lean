import LabelPress.Files.Trace
import LabelPress.Files.Tree
import LabelPress.Program
import LabelPress.Proofs.Numbering
import LabelPress.Proofs.Sizing
import LabelPress.Proofs.Trees

/-!
# A run changes everything it was asked to, or nothing

A run of the program on a tree of files ends in one of five ways (`Ran`, `ran_execute`), and each
says all that was done up to there: the arguments were refused, the script could not be read, it
could not be used, its picture could not be written, or it was written. Only the last one leaves
another tree, and only there something other than errors is printed.

Which of the five it is depends on the script only in so far as it is a text: whether a text can be
rendered is settled by the magnification (`Preview.exists_ofText_eq_ok_iff`). So the exit code is
the same for any two scripts, whatever the warnings they give (`execute_code_eq_zero_iff`).

The accesses are those of the same run on files that keep a list of them, which makes no difference
to the run (`map_fst_run_traced`).
-/

namespace LabelPress

/-! ## Keeping a list -/

/-- Keeping a list of what is done changes nothing about a run, on any files. -/
theorem map_fst_run_traced {m : Type → Type} [Monad m] [LawfulMonad m] (files : Files m)
    (arguments : List String) (accesses : List Access) :
    Prod.fst <$> (run files.traced arguments).run accesses = run files arguments := by
  unfold run Files.traced
  cases Request.ofArguments arguments with
  | error e => simp
  | ok request =>
    simp only [bind_assoc, StateT.run_bind, StateT.run_modify, map_bind, StateT.run_monadLift,
      monadLift_self, pure_bind]
    refine bind_congr fun answer => ?_
    cases answer with
    | error e => simp
    | ok document =>
      cases hpreview : previewDocument request document with
      | error f => simp [hpreview]
      | ok preview =>
        simp only [hpreview, bind_assoc, StateT.run_bind, StateT.run_modify, map_bind,
          StateT.run_monadLift, monadLift_self, pure_bind]
        refine bind_congr fun answer => ?_
        cases answer <;> simp

/-! ## The ways a run ends -/

/-- What a run on a tree comes to: what it prints, what it does with the files, in order, and the
tree it leaves. -/
structure Execution where
  outcome : Outcome
  accesses : List Access
  tree : FileTree

/-- A run of the program on the files of a tree. -/
def FileTree.execute (t : FileTree) (arguments : List String) : Execution :=
  let result := ((run FileTree.files.traced arguments).run []).run t
  ⟨result.1.1, result.1.2, result.2⟩

/-- The run that is looked at is the run of the program. -/
theorem run_files_eq (t : FileTree) (arguments : List String) :
    (run FileTree.files arguments).run t =
      ((t.execute arguments).outcome, (t.execute arguments).tree) := by
  rw [← map_fst_run_traced FileTree.files arguments []]
  rfl

/-- The ways a run on a tree ends, each with what it leaves. -/
inductive Ran (t : FileTree) (arguments : List String) : Execution → Prop where
  | refused {e : ArgumentError} :
    Request.ofArguments arguments = .error e →
    Ran t arguments ⟨.ofFailure (.arguments e), [], t⟩
  | unread {request : Request} {e : FileError} :
    Request.ofArguments arguments = .ok request → t.read request.script = .error e →
    Ran t arguments ⟨.ofFailure (.read request.script e), [.read request.script], t⟩
  | unusable {request : Request} {document : Document} {f : Failure} :
    Request.ofArguments arguments = .ok request → t.read request.script = .ok document →
    previewDocument request document = .error f →
    Ran t arguments ⟨.ofFailure f, [.read request.script], t⟩
  | unwritten {request : Request} {document : Document} {preview : Preview} {e : FileError} :
    Request.ofArguments arguments = .ok request → t.read request.script = .ok document →
    previewDocument request document = .ok preview →
    t.write request.output preview.picture = .error e →
    Ran t arguments ⟨.ofFailure (.write request.output e),
      [.read request.script, .write request.output preview.picture], t⟩
  | written {request : Request} {document : Document} {preview : Preview} {tree : FileTree} :
    Request.ofArguments arguments = .ok request → t.read request.script = .ok document →
    previewDocument request document = .ok preview →
    t.write request.output preview.picture = .ok tree →
    Ran t arguments ⟨.ofPreview request.output preview,
      [.read request.script, .write request.output preview.picture], tree⟩

/-- Reading hands on what the tree holds, and leaves the tree as it is. -/
theorem run_read_bind (t : FileTree) (accesses : List Access) (path : String)
    (k : Except FileError Document → StateT (List Access) (StateM FileTree) Outcome) :
    ((FileTree.files.traced.read path >>= k).run accesses).run t =
      ((k (t.read path)).run (accesses ++ [.read path])).run t := rfl

theorem run_write (t : FileTree) (path : String) (picture : Picture) :
    (FileTree.files.write path picture).run t =
      match t.write path picture with
      | .ok tree => (.ok (), tree)
      | .error e => (.error e, t) := by
  change ((match t.write path picture with
    | .ok tree => (do set tree; return .ok ())
    | .error e => return .error e : StateM FileTree (Except FileError Unit)).run t) = _
  cases t.write path picture <;> rfl

/-- Writing leaves the tree with the picture, or as it was. -/
theorem run_write_bind (t : FileTree) (accesses : List Access) (path : String)
    (picture : Picture)
    (k : Except FileError Unit → StateT (List Access) (StateM FileTree) Outcome) :
    ((FileTree.files.traced.write path picture >>= k).run accesses).run t =
      match t.write path picture with
      | .ok tree => ((k (.ok ())).run (accesses ++ [.write path picture])).run tree
      | .error e => ((k (.error e)).run (accesses ++ [.write path picture])).run t := by
  have h : ((FileTree.files.traced.write path picture >>= k).run accesses).run t =
      let answer := (FileTree.files.write path picture).run t
      ((k answer.1).run (accesses ++ [.write path picture])).run answer.2 := rfl
  rw [h, run_write]
  cases t.write path picture <;> rfl

/-- Every run ends in one of the ways. -/
theorem ran_execute (t : FileTree) (arguments : List String) :
    Ran t arguments (t.execute arguments) := by
  unfold FileTree.execute run
  cases hrequest : Request.ofArguments arguments with
  | error e => exact .refused hrequest
  | ok request =>
    simp only [run_read_bind]
    cases hread : t.read request.script with
    | error e => exact .unread hrequest hread
    | ok document =>
      cases hpreview : previewDocument request document with
      | error f =>
        simp only [hpreview]
        exact .unusable hrequest hread hpreview
      | ok preview =>
        simp only [hpreview, run_write_bind]
        cases hwrite : t.write request.output preview.picture with
        | error e => exact .unwritten hrequest hread hpreview hwrite
        | ok tree => exact .written hrequest hread hpreview hwrite

/-! ## Scripts that can be rendered -/

/-- Whether the script of a request is there, is a text, and has a given preview. -/
def FileTree.Renders (t : FileTree) (request : Request) (preview : Preview) : Prop :=
  ∃ text, t.HoldsText request.script text ∧
    Preview.ofText text request.magnification = .ok preview

theorem previewDocument_eq_ok_iff {request : Request} {document : Document} {preview : Preview} :
    previewDocument request document = .ok preview ↔
      ∃ text, document.text? = some text ∧
        Preview.ofText text request.magnification = .ok preview := by
  unfold previewDocument
  cases document.text? with
  | none => simp
  | some text => cases hpreview : Preview.ofText text request.magnification <;> simp [hpreview]

/-- Whether scripts can be rendered at a magnification. -/
def Magnification.HasSheet (m : Magnification) : Prop :=
  m.IsUsable ∧ ¬m.LacksSurface sheetWidth sheetHeight

/-- Whether a text can be rendered does not depend on the text. -/
theorem Preview.exists_ofText_eq_ok_iff (text : String) (m : Magnification) :
    (∃ preview, ofText text m = .ok preview) ↔ m.HasSheet := by
  have hsize := map_size_ofText text m
  unfold Magnification.HasSheet
  constructor
  · rintro ⟨preview, hpreview⟩
    rw [hpreview] at hsize
    by_contra h
    split at hsize
    · rename_i husable
      rw [if_pos (not_not.mp fun hlacks => h ⟨husable, hlacks⟩)] at hsize
      cases hsize
    · cases hsize
  · rintro ⟨husable, hlacks⟩
    rw [if_pos husable, if_neg hlacks] at hsize
    cases hpreview : ofText text m with
    | error e => rw [hpreview] at hsize; cases hsize
    | ok preview => exact ⟨preview, rfl⟩

/-! ## The exit code -/

/-- A run that comes to the end of all stages is the one that writes. -/
theorem execute_of_written {t tree : FileTree} {arguments : List String} {request : Request}
    {document : Document} {preview : Preview}
    (hrequest : Request.ofArguments arguments = .ok request)
    (hread : t.read request.script = .ok document)
    (hpreview : previewDocument request document = .ok preview)
    (hwrite : t.write request.output preview.picture = .ok tree) :
    t.execute arguments = ⟨.ofPreview request.output preview,
      [.read request.script, .write request.output preview.picture], tree⟩ := by
  unfold FileTree.execute run
  rw [hrequest]
  simp only [run_read_bind, hread, hpreview, run_write_bind, hwrite]
  rfl

/-- A run fails, or it writes the picture of its script. -/
theorem Ran.failed_or_written {t : FileTree} {arguments : List String} {x : Execution}
    (h : Ran t arguments x) :
    x.outcome.code = 1 ∧ x.outcome.stdout = "" ∧ x.tree = t ∨
      ∃ request preview tree, Request.ofArguments arguments = .ok request ∧
        t.Renders request preview ∧ t.write request.output preview.picture = .ok tree ∧
        x = ⟨.ofPreview request.output preview,
          [.read request.script, .write request.output preview.picture], tree⟩ := by
  cases h with
  | written hrequest hread hpreview hwrite =>
    obtain ⟨text, htext, hrender⟩ := previewDocument_eq_ok_iff.mp hpreview
    exact .inr ⟨_, _, _, hrequest, ⟨text, ⟨_, hread, htext⟩, hrender⟩, hwrite, rfl⟩
  | _ => exact .inl ⟨rfl, rfl, rfl⟩

/-- The code is zero exactly if the arguments are good, there is a text to read, the magnification
is one to render scripts at, and there is room for the picture. -/
theorem execute_code_eq_zero_iff (t : FileTree) (arguments : List String) :
    (t.execute arguments).outcome.code = 0 ↔ ∃ request place,
      Request.ofArguments arguments = .ok request ∧ (∃ text, t.HoldsText request.script text) ∧
        request.magnification.HasSheet ∧ t.IsRoom request.output place := by
  constructor
  · intro hcode
    obtain ⟨hone, -⟩ | ⟨request, preview, tree, hrequest, hrenders, hwrite, -⟩ :=
      (ran_execute t arguments).failed_or_written
    · exact absurd (hcode.symm.trans hone) (by decide)
    · obtain ⟨text, htext, hrender⟩ := hrenders
      obtain ⟨place, hroom, -⟩ := FileTree.write_eq_ok_iff.mp hwrite
      exact ⟨request, place, hrequest, ⟨text, htext⟩,
        (Preview.exists_ofText_eq_ok_iff text _).mp ⟨preview, hrender⟩, hroom⟩
  · rintro ⟨request, place, hrequest, ⟨text, document, hread, htext⟩, hsheet, hroom⟩
    obtain ⟨preview, hrender⟩ := (Preview.exists_ofText_eq_ok_iff text _).mpr hsheet
    have hpreview := previewDocument_eq_ok_iff.mpr ⟨text, htext, hrender⟩
    have hwrite : t.write request.output preview.picture = .ok _ :=
      FileTree.write_eq_ok_iff.mpr ⟨place, hroom, rfl⟩
    rw [execute_of_written hrequest hread hpreview hwrite]
    rfl

/-- The code is zero or one. -/
theorem execute_code_eq_zero_or_one (t : FileTree) (arguments : List String) :
    (t.execute arguments).outcome.code = 0 ∨ (t.execute arguments).outcome.code = 1 := by
  obtain ⟨hone, -⟩ | ⟨request, preview, tree, -, -, -, hx⟩ :=
    (ran_execute t arguments).failed_or_written
  · exact .inr hone
  · exact .inl (hx ▸ rfl)

/-- Runs with the same arguments end with the same code on two trees that have the same folders,
if the script is a text in both of them or in neither. -/
theorem execute_code_congr {t t' : FileTree} {arguments : List String}
    (h : t'.HasFoldersOf t) (h' : t.HasFoldersOf t')
    (htext : ∀ request, Request.ofArguments arguments = .ok request →
      ((∃ text, t.HoldsText request.script text) ↔ ∃ text, t'.HoldsText request.script text)) :
    (t.execute arguments).outcome.code = (t'.execute arguments).outcome.code := by
  have hzero : (t.execute arguments).outcome.code = 0 ↔
      (t'.execute arguments).outcome.code = 0 := by
    rw [execute_code_eq_zero_iff, execute_code_eq_zero_iff]
    constructor
    · rintro ⟨request, place, hrequest, hholds, hsheet, hroom⟩
      exact ⟨request, place, hrequest, (htext request hrequest).mp hholds, hsheet, hroom.mono h h'⟩
    · rintro ⟨request, place, hrequest, hholds, hsheet, hroom⟩
      exact ⟨request, place, hrequest, (htext request hrequest).mpr hholds, hsheet, hroom.mono h' h⟩
  rcases execute_code_eq_zero_or_one t arguments with hcode | hcode
  · rw [hcode, hzero.mp hcode]
  · rcases execute_code_eq_zero_or_one t' arguments with hcode' | hcode'
    · rw [hcode', hzero.mpr hcode']
    · rw [hcode, hcode']

/-! ## One line each -/

theorem feed_not_mem_repr (n : Nat) : '\n' ∉ n.repr.toList := by
  rw [Nat.toList_repr]
  exact fun h => absurd (Text.isDigit_of_mem_numeral h) (by decide)

/-- What is shown for a warning of a script holds no line feed. -/
theorem Script.feed_not_mem_message {text : String} {w : Warning}
    (h : w ∈ (parse text).warnings) : '\n' ∉ w.message.toList := by
  obtain ⟨r, hr, hw⟩ := List.mem_filterMap.mp h
  obtain ⟨⟨raw, n⟩, hraw, rfl⟩ := List.mem_map.mp hr
  have hfeed : '\n' ∉ raw := Text.not_mem_of_mem_lines (List.fst_mem_of_mem_zipIdx hraw)
  have hread := Reading.eq_warning_of_warning?_eq_some hw
  cases (readLine_eq_iff _ _ _).mp hread with
  | @unsupportedDirection _ _ letter _ _ hwritten =>
    obtain ⟨tokens, htokens, -⟩ := hwritten
    cases htokens with
    | rule hletter =>
      have hfeed : '\n' ≠ letter := by
        rintro rfl
        exact absurd hletter.2.1 (by decide)
      simp only [Warning.message, String.toList_append, List.mem_append, feed_not_mem_repr, not_or]
      simp [hfeed, Direction.letter]
  | unparsed =>
    simp only [Warning.message, String.toList_append, List.mem_append, feed_not_mem_repr, not_or]
    simp [hfeed]

/-- The summary of a script holds no line feed. -/
theorem Script.feed_not_mem_summary (s : Script) : '\n' ∉ s.summary.toList := by
  have hcounted : ∀ n noun, '\n' ∉ noun.toList → '\n' ∉ (counted n noun).toList := by
    intro n noun hnoun
    simp only [counted, String.toList_append, List.mem_append, feed_not_mem_repr, hnoun, not_or]
    split <;> simp
  simp only [summary, String.toList_append, List.mem_append, feed_not_mem_repr, not_or]
  simp [hcounted]

theorem Preview.script_eq_of_ofText_eq_ok {text : String} {m : Magnification} {preview : Preview}
    (h : ofText text m = .ok preview) : preview.script = Script.parse text := by
  rw [ofText_eq] at h
  split at h
  · cases h
  · exact (congrArg script (Except.ok.inj h)).symm

/-! ## The whole run -/

/-- What holds of a run however it ends. -/
structure IsAllOrNothing (t : FileTree) (arguments : List String) (x : Execution) : Prop where
  /-- The script is all that is read. After that the picture is written, if the arguments, the
  script and the rendering were good. -/
  accesses : x.accesses = [] ∨ ∃ request, Request.ofArguments arguments = .ok request ∧
    (x.accesses = [.read request.script] ∨ ∃ preview, t.Renders request preview ∧
      x.accesses = [.read request.script, .write request.output preview.picture])
  /-- The tree is the same but for the place of the picture, and there too if the arguments, the
  script and the rendering were not all good. -/
  changes : ∀ place, x.tree.find? place ≠ t.find? place → ∃ request preview,
    Request.ofArguments arguments = .ok request ∧ t.Renders request preview ∧
      t.locate request.output = .ok place
  /-- A run that fails leaves the tree as it was, and prints errors only. -/
  failed : x.outcome.code ≠ 0 → x.tree = t ∧ x.outcome.stdout = ""
  /-- A run that does not fail leaves the picture of its script. It prints a line with the summary
  and the path of the picture, and beside it the warnings, one on a line, in their order. -/
  succeeded : x.outcome.code = 0 → ∃ request text preview,
    Request.ofArguments arguments = .ok request ∧ t.HoldsText request.script text ∧
      Preview.ofText text request.magnification = .ok preview ∧
      x.tree.read request.output = .ok (.picture preview.picture) ∧
      x.outcome.stdout = (Script.parse text).summary ++ " -> " ++ request.output ++ "\n" ∧
      '\n' ∉ (Script.parse text).summary.toList ∧
      x.outcome.stderr =
        String.join ((Script.parse text).warnings.map fun w => w.message ++ "\n") ∧
      ∀ w ∈ (Script.parse text).warnings, '\n' ∉ w.message.toList

theorem isAllOrNothing_execute (t : FileTree) (arguments : List String) :
    IsAllOrNothing t arguments (t.execute arguments) where
  accesses := by
    cases h : t.execute arguments
    have hran := ran_execute t arguments
    rw [h] at hran
    cases hran with
    | refused => exact .inl rfl
    | unread hrequest | unusable hrequest => exact .inr ⟨_, hrequest, .inl rfl⟩
    | unwritten hrequest hread hpreview | written hrequest hread hpreview =>
      obtain ⟨text, htext, hrender⟩ := previewDocument_eq_ok_iff.mp hpreview
      exact .inr ⟨_, hrequest, .inr ⟨_, ⟨text, ⟨_, hread, htext⟩, hrender⟩, rfl⟩⟩
  changes := by
    intro place hplace
    obtain ⟨-, -, htree⟩ | ⟨request, preview, tree, hrequest, hrenders, hwrite, hx⟩ :=
      (ran_execute t arguments).failed_or_written
    · rw [htree] at hplace
      exact absurd rfl hplace
    · obtain ⟨at', hroom, rfl⟩ := FileTree.write_eq_ok_iff.mp hwrite
      refine ⟨request, preview, hrequest, hrenders, ?_⟩
      by_cases hat : place = at'
      · rw [hat]
        exact hroom.1
      · rw [hx] at hplace
        exact absurd (FileTree.find?_put_of_ne hat _) hplace
  failed := by
    intro hcode
    obtain ⟨-, hstdout, htree⟩ | ⟨request, preview, tree, -, -, -, hx⟩ :=
      (ran_execute t arguments).failed_or_written
    · exact ⟨htree, hstdout⟩
    · exact absurd (hx ▸ rfl) hcode
  succeeded := by
    intro hcode
    obtain ⟨hone, -⟩ | ⟨request, preview, tree, hrequest, ⟨text, htext, hrender⟩, hwrite, hx⟩ :=
      (ran_execute t arguments).failed_or_written
    · exact absurd (hcode.symm.trans hone) (by decide)
    · have hscript := Preview.script_eq_of_ofText_eq_ok hrender
      rw [hx]
      refine ⟨request, text, preview, hrequest, htext, hrender, FileTree.read_of_write hwrite, ?_,
        Script.feed_not_mem_summary _, ?_, fun w => Script.feed_not_mem_message⟩
      · rw [← hscript]
        rfl
      · rw [← hscript, Outcome.ofPreview, Preview.warnings, List.map_map]
        rfl

/-- A run of the program on the files of a tree does all it was asked to or leaves the tree as it
was. It ends with the same code on any two trees with the same folders, whatever the script says
and whatever warnings it gives, as long as it is a text in both or in neither. -/
theorem run_all_or_nothing (t : FileTree) (arguments : List String) :
    (run FileTree.files arguments).run t =
        ((t.execute arguments).outcome, (t.execute arguments).tree) ∧
      IsAllOrNothing t arguments (t.execute arguments) ∧
      ∀ t' : FileTree,
        (∀ place, t.find? place = some .folder ↔ t'.find? place = some .folder) →
        (∀ request, Request.ofArguments arguments = .ok request →
          ((∃ text, t.HoldsText request.script text) ↔
            ∃ text, t'.HoldsText request.script text)) →
        (t.execute arguments).outcome.code = (t'.execute arguments).outcome.code := by
  refine ⟨run_files_eq t arguments, isAllOrNothing_execute t arguments, fun t' hfolders htext => ?_⟩
  exact execute_code_congr (fun place => (hfolders place).mp) (fun place => (hfolders place).mpr)
    htext

end LabelPress
