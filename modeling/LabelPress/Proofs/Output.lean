import LabelPress.Proofs.Run

/-!
# Where the picture of a script goes

Arguments that name no output leave it to the program (`Request.output_of_ofArguments`), which puts
the picture beside the script, under the script's name with the extension `png`. A file that can
be read has a last name (`FileTree.exists_append_of_read`), so this is another name exactly if the
script does not have that extension already (`usualOutput_eq_self_iff`).

Two paths with different last names lead to different places, and a run changes what is at one place
alone. So a script with any other name holds after the run what it held before. A script that is
called like its picture does not: it is read, and then the picture is written over it.
-/

namespace LabelPress

/-! ## Arguments that name no output -/

namespace Arguments

/-- Whether no argument is the option for the output. -/
def NameNoOutput (arguments : List String) : Prop :=
  "-o" ∉ arguments ∧ "--output" ∉ arguments

theorem NameNoOutput.tail {argument : String} {rest : List String}
    (h : NameNoOutput (argument :: rest)) : NameNoOutput rest :=
  ⟨fun hmem => h.1 (List.mem_cons_of_mem _ hmem), fun hmem => h.2 (List.mem_cons_of_mem _ hmem)⟩

/-- Arguments without the option leave the output as it was. -/
theorem output_of_read {a b : Arguments} {arguments : List String} (h : NameNoOutput arguments)
    (hread : a.read arguments = .ok b) : b.output = a.output := by
  fun_induction read a arguments with
  | case1 => exact congrArg output (Except.ok.inj hread).symm
  | case3 a argument hoption =>
    rcases hoption with rfl | rfl
    · exact absurd List.mem_cons_self h.1
    · exact absurd List.mem_cons_self h.2
  | case5 a _ _ option _ _ _ factor _ ih =>
    rw [ih h.tail.tail hread, output_setFactor]
  | case9 _ _ _ _ _ _ _ _ ih => exact ih h.tail hread
  | _ => cases hread

end Arguments

/-- Without an option for it, the output is the usual one for the script. -/
theorem Request.output_of_ofArguments {arguments : List String} {request : Request}
    (h : Arguments.NameNoOutput arguments) (hrequest : ofArguments arguments = .ok request) :
    request.output = usualOutput request.script := by
  obtain ⟨a, hread, hrest⟩ := bind_eq_ok_iff.mp hrequest
  cases hscript : a.script with
  | none =>
    rw [hscript] at hrest
    cases hrest
  | some script =>
    rw [hscript] at hrest
    obtain rfl := Except.ok.inj hrest
    have houtput : a.output = none := Arguments.output_of_read h hread
    simp [houtput]

/-! ## The usual output -/

/-- A path that can be read falls into a folder and a name of a file. -/
theorem FileTree.exists_append_of_read {t : FileTree} {path : String} {document : Document}
    (h : t.read path = .ok document) : ∃ folder name, path = String.ofList (folder ++ name) ∧
      Path.IsFolder folder ∧ '/' ∉ name ∧ Path.isFolderName name = false := by
  obtain ⟨place, hplace, -, hslash⟩ := read_eq_ok_iff.mp h
  obtain ⟨hempty, -, last, -, hlast, -, hdot, hup, -⟩ := locate_eq_ok_iff.mp hplace
  obtain ⟨folder, name, hpath, hfolder, hname⟩ := Path.exists_append path.toList
  have hpath : path = String.ofList (folder ++ name) := by rw [← hpath, String.ofList_toList]
  refine ⟨folder, name, hpath, hfolder, hname, ?_⟩
  have hne : name ≠ [] := by
    rintro rfl
    rcases hfolder with rfl | hfolder
    · exact hempty (by simpa using hpath)
    · simp [hpath, Path.endsInSlash, hfolder] at hslash
  rw [hpath, Path.getLast?_names hfolder hname hne] at hlast
  obtain rfl := Option.some.inj hlast
  rw [Path.isFolderName_eq_false_iff]
  refine ⟨hne, ?_, ?_⟩
  · rintro rfl
    exact hdot rfl
  · rintro rfl
    exact hup rfl

/-- The usual output is the script itself exactly if that has the extension of a picture. -/
theorem usualOutput_eq_self_iff {t : FileTree} {script : String} {document : Document}
    (h : t.read script = .ok document) :
    usualOutput script = script ↔ Path.HasExtension script "png" := by
  obtain ⟨folder, name, rfl, hfolder, hslash, hname⟩ := FileTree.exists_append_of_read h
  exact Path.withExtension_eq_self_iff hfolder hslash hname (by decide)

/-- The usual output for another script has another last name. -/
theorem getLast?_names_usualOutput_ne {t : FileTree} {script : String} {document : Document}
    (h : t.read script = .ok document) (hother : ¬Path.HasExtension script "png") :
    (Path.names script).getLast? ≠ (Path.names (usualOutput script)).getLast? := by
  have hne := mt (usualOutput_eq_self_iff h).mp hother
  obtain ⟨folder, name, rfl, hfolder, hslash, hname⟩ := FileTree.exists_append_of_read h
  rw [usualOutput, Path.withExtension_append hfolder hslash hname] at hne ⊢
  have hnil : name ≠ [] := (Path.isFolderName_eq_false_iff.mp hname).1
  rw [Path.getLast?_names hfolder hslash hnil, Path.getLast?_names hfolder
    (Path.slash_not_mem_renamed hname hslash (by decide)) (Path.renamed_ne_nil hname _)]
  intro hlast
  rw [← String.ofList_inj.mp (Option.some.inj hlast)] at hne
  exact hne rfl

/-! ## The script after the run -/

/-- A run that is given no output writes to the script exactly if that has the extension of a
picture. Any other script holds what it held before. -/
theorem script_kept_without_output {t : FileTree} {arguments : List String} {request : Request}
    {document : Document} (hnone : "-o" ∉ arguments ∧ "--output" ∉ arguments)
    (hrequest : Request.ofArguments arguments = .ok request)
    (hread : t.read request.script = .ok document) :
    (request.output = request.script ↔ Path.HasExtension request.script "png") ∧
      (¬Path.HasExtension request.script "png" →
        ((run FileTree.files arguments).run t).2.read request.script = .ok document) := by
  have houtput := Request.output_of_ofArguments hnone hrequest
  refine ⟨houtput ▸ usualOutput_eq_self_iff hread, fun hother => ?_⟩
  rw [run_files_eq]
  obtain ⟨-, -, htree⟩ | ⟨request', preview, tree, hrequest', -, hwrite, hx⟩ :=
    (ran_execute t arguments).failed_or_written
  · rw [htree]
    exact hread
  · obtain rfl := Except.ok.inj (hrequest.symm.trans hrequest')
    rw [hx]
    refine FileTree.read_of_write_of_ne hwrite hread ?_
    rw [houtput]
    exact getLast?_names_usualOutput_ne hread hother

/-- The tree that has one file, with a text in it. -/
def FileTree.ofText (path text : String) : FileTree := .ofFiles [(path, .bytes text.toUTF8)]

theorem Document.text?_toUTF8 (text : String) : (bytes text.toUTF8).text? = some text :=
  dif_pos text.isValidUTF8

/-- The script `labels/ship.txt` is not the picture `labels/ship.png`, and it is kept. -/
theorem script_kept_without_output_ship_txt :
    Request.ofArguments ["labels/ship.txt"] = .ok ⟨"labels/ship.txt", "labels/ship.png", .unit⟩ ∧
      ((run FileTree.files ["labels/ship.txt"]).run
        (.ofText "labels/ship.txt" "!F B N 1725 960 L 10 50")).2.read "labels/ship.txt" =
          .ok (.bytes "!F B N 1725 960 L 10 50".toUTF8) := by
  have hrequest : Request.ofArguments ["labels/ship.txt"] =
      .ok ⟨"labels/ship.txt", "labels/ship.png", .unit⟩ := rfl
  have hkept := script_kept_without_output
    (t := .ofText "labels/ship.txt" "!F B N 1725 960 L 10 50")
    ⟨by decide, by decide⟩ hrequest rfl
  exact ⟨hrequest, hkept.2 fun hextension => absurd (hkept.1.mpr hextension) (by decide)⟩

/-- The script `ship.png` is the picture that is written for it, and is gone after the run. -/
theorem script_overwritten_ship_png :
    ("-o" ∉ ["ship.png"] ∧ "--output" ∉ ["ship.png"]) ∧
      Request.ofArguments ["ship.png"] = .ok ⟨"ship.png", "ship.png", .unit⟩ ∧
      (FileTree.ofText "ship.png" "!F B N 1725 960 L 10 50").HoldsText
        "ship.png" "!F B N 1725 960 L 10 50" ∧
      ∃ picture, ((run FileTree.files ["ship.png"]).run
        (.ofText "ship.png" "!F B N 1725 960 L 10 50")).2.read "ship.png" =
          .ok (.picture picture) := by
  have hrequest : Request.ofArguments ["ship.png"] = .ok ⟨"ship.png", "ship.png", .unit⟩ := rfl
  have htext : (FileTree.ofText "ship.png" "!F B N 1725 960 L 10 50").HoldsText
      "ship.png" "!F B N 1725 960 L 10 50" := ⟨_, rfl, Document.text?_toUTF8 _⟩
  have hroom : (FileTree.ofText "ship.png" "!F B N 1725 960 L 10 50").IsRoom
      "ship.png" ["ship.png"] := by
    refine ⟨rfl, rfl, some (.file (.bytes "!F B N 1725 960 L 10 50".toUTF8)), rfl, ?_⟩
    simp
  have hsheet : Magnification.unit.HasSheet := by
    unfold Magnification.HasSheet
    decide +kernel
  refine ⟨⟨by decide, by decide⟩, hrequest, htext, ?_⟩
  have hcode := (execute_code_eq_zero_iff _ ["ship.png"]).mpr
    ⟨_, ["ship.png"], hrequest, ⟨_, htext⟩, hsheet, hroom⟩
  obtain ⟨request, text, preview, hrequest', -, -, hpicture, -⟩ :=
    (isAllOrNothing_execute _ _).succeeded hcode
  obtain rfl := Except.ok.inj (hrequest.symm.trans hrequest')
  refine ⟨preview.picture, ?_⟩
  rw [run_files_eq]
  exact hpicture

end LabelPress
