import LabelPress.Files.Path
import Mathlib.Data.List.Basic
import Mathlib.Data.List.DropRight

/-!
# Names and extensions

A path falls into a folder, which is empty or ends in a slash, and a last name without slashes
(`Path.splitLast_append`). No name on a path holds a slash (`Path.slash_not_mem_of_mem_names`), and
the last one is what follows the folder (`Path.getLast?_names`). The name of a file is found behind
its folder whatever slashes and single dots come after it (`Path.splitName_append`).

A name falls at its last dot into a stem and an extension. Giving a name the extension it has
already leaves it as it is, and any other name becomes another one (`Path.renamed_eq_self_iff`). So
a path with another extension is the same path exactly if it has that extension already
(`Path.withExtension_eq_self_iff`). What comes after the name goes with the old extension
(`Path.withExtension_idle`).
-/

namespace LabelPress.Path

/-- A text that holds a character falls into two at the last place of it. -/
theorem exists_append_of_mem {c : Char} {cs : List Char} (h : c ∈ cs) :
    ∃ before after, cs = before ++ c :: after ∧ c ∉ after := by
  obtain ⟨after, before, hcs, hafter⟩ := List.eq_append_cons_of_mem (List.mem_reverse.mpr h)
  refine ⟨before.reverse, after.reverse, ?_, by simpa using hafter⟩
  rw [← List.reverse_reverse cs, hcs]
  simp

/-- A text without a character is passed over on the way back to that character. -/
theorem ne_of_mem_reverse {c : Char} {cs : List Char} (h : c ∉ cs) :
    ∀ d ∈ cs.reverse, decide (d ≠ c) = true := by
  intro d hd
  simpa using fun heq : d = c => h (heq ▸ List.mem_reverse.mp hd)

/-! ## The names on a path -/

theorem splitSlashes_eq_splitOn (cs : List Char) : splitSlashes cs = cs.splitOn '/' := by
  induction cs with
  | nil => rfl
  | cons c cs ih =>
    rw [splitSlashes, List.splitOn_cons_eq_if_modifyHead, ← ih]
    by_cases hc : c = '/'
    · simp [hc]
    · rw [if_neg hc, if_neg (by simpa using hc)]
      cases hsplit : splitSlashes cs with
      | nil => exact absurd (ih ▸ hsplit) (List.splitOn_ne_nil _ _)
      | cons part parts => rfl

theorem slash_not_mem_of_mem_splitSlashes {part cs : List Char} (h : part ∈ splitSlashes cs) :
    '/' ∉ part := by
  induction cs generalizing part with
  | nil => simp_all [splitSlashes]
  | cons c cs ih =>
    rw [splitSlashes] at h
    split at h
    · rcases List.mem_cons.mp h with rfl | h
      · exact List.not_mem_nil
      · exact ih h
    · rename_i hc
      cases hsplit : splitSlashes cs with
      | nil => simp_all [Ne.symm hc]
      | cons first parts =>
        rw [hsplit] at h ih
        rcases List.mem_cons.mp h with rfl | h
        · have hfirst := ih List.mem_cons_self
          simp [Ne.symm hc, hfirst]
        · exact ih (List.mem_cons_of_mem _ h)

/-- No name on a path holds a slash. -/
theorem slash_not_mem_of_mem_names {path name : String} (h : name ∈ names path) :
    '/' ∉ name.toList := by
  obtain ⟨part, hpart, rfl⟩ := List.mem_map.mp h
  rw [String.toList_ofList]
  exact slash_not_mem_of_mem_splitSlashes (List.mem_of_mem_filter hpart)

/-- Whether a text can stand before the last name of a path. -/
def IsFolder (cs : List Char) : Prop := cs = [] ∨ cs.getLast? = some '/'

/-- The last name on a path is what follows the folder. -/
theorem getLast?_names {folder name : List Char} (hfolder : IsFolder folder) (hname : '/' ∉ name)
    (hne : name ≠ []) :
    (names (String.ofList (folder ++ name))).getLast? = some (String.ofList name) := by
  have hlast : ∃ parts, splitSlashes (folder ++ name) = parts ++ [name] := by
    rw [splitSlashes_eq_splitOn]
    rcases hfolder with rfl | hfolder
    · exact ⟨[], List.splitOn_eq_singleton hname⟩
    · obtain ⟨before, rfl⟩ := List.getLast?_eq_some_iff.mp hfolder
      refine ⟨before.splitOn '/', ?_⟩
      rw [List.append_assoc, List.singleton_append, List.splitOn_append_cons_self,
        List.splitOn_eq_singleton hname]
  obtain ⟨parts, hparts⟩ := hlast
  simp [names, hparts, hne]

/-! ## The last name -/

/-- A path splits before its last name. -/
theorem splitLast_append {folder name : List Char} (hfolder : IsFolder folder)
    (hname : '/' ∉ name) : splitLast (folder ++ name) = (folder, name) := by
  have hkept : (folder ++ name).rdropWhile (· ≠ '/') = folder ∧
      (folder ++ name).rtakeWhile (· ≠ '/') = name := by
    have hsolid := ne_of_mem_reverse hname
    have hstop : folder.reverse.dropWhile (· ≠ '/') = folder.reverse ∧
        folder.reverse.takeWhile (· ≠ '/') = [] := by
      rcases hfolder with rfl | hfolder
      · exact ⟨rfl, rfl⟩
      · obtain ⟨before, rfl⟩ := List.getLast?_eq_some_iff.mp hfolder
        simp
    rw [List.rdropWhile, List.rtakeWhile, List.reverse_append,
      List.dropWhile_append_of_pos hsolid, List.takeWhile_append_of_pos hsolid, hstop.1, hstop.2]
    simp
  exact Prod.ext hkept.1 hkept.2

/-- Every path has a folder and a last name. -/
theorem exists_append (cs : List Char) :
    ∃ folder name, cs = folder ++ name ∧ IsFolder folder ∧ '/' ∉ name := by
  by_cases h : '/' ∈ cs
  · obtain ⟨before, name, rfl, hname⟩ := exists_append_of_mem h
    exact ⟨before ++ ['/'], name, by simp, .inr (by simp), hname⟩
  · exact ⟨[], cs, rfl, .inl rfl, h⟩

/-! ## What comes after the last name -/

theorem isFolderName_eq_false_iff {name : List Char} :
    isFolderName name = false ↔ name ≠ [] ∧ name ≠ ['.'] ∧ name ≠ ['.', '.'] := by
  simp [isFolderName, and_assoc]

/-- What can come after the last name of a path and leads nowhere else: slashes, and single dots
behind them. -/
inductive IsIdle : List Char → Prop
  | nil : IsIdle []
  | slash {cs : List Char} : IsIdle cs → IsIdle (cs ++ ['/'])
  | dot {cs : List Char} : IsIdle cs → IsIdle (cs ++ ['/', '.'])

theorem skipIdle_of_isIdle {trail : List Char} (h : IsIdle trail) (cs : List Char) :
    skipIdle (trail.reverse ++ cs) = skipIdle cs := by
  induction h with
  | nil => rfl
  | slash _ ih => simpa [skipIdle] using ih
  | dot _ ih => simpa [skipIdle] using ih

/-- A name is not passed over, and a dot at its end is no single dot. -/
theorem skipIdle_name {name : List Char} (hslash : '/' ∉ name) (hnil : name ≠ [])
    (hdot : name ≠ ['.']) (cs : List Char) :
    skipIdle (name.reverse ++ cs) = name.reverse ++ cs := by
  have hmem : ∀ c ∈ name.reverse, c ≠ '/' :=
    fun c hc heq => hslash (heq ▸ List.mem_reverse.mp hc)
  match hrev : name.reverse with
  | [] => exact absurd (List.reverse_eq_nil_iff.mp hrev) hnil
  | [c] =>
    have hc : c ≠ '/' := hmem c (by simp [hrev])
    have hc' : c ≠ '.' := by
      rintro rfl
      exact hdot (List.reverse_eq_iff.mp hrev)
    simp [skipIdle, hc, hc']
  | c :: d :: rest =>
    have hc : c ≠ '/' := hmem c (by simp [hrev])
    have hd : d ≠ '/' := hmem d (by simp [hrev])
    simp [skipIdle, hc, hd]

/-- The last name of a path is found whatever comes after it. -/
theorem splitName_append {folder name trail : List Char} (hfolder : IsFolder folder)
    (hslash : '/' ∉ name) (hnil : name ≠ []) (hdot : name ≠ ['.']) (htrail : IsIdle trail) :
    splitName (folder ++ name ++ trail) = (folder, name) := by
  rw [splitName, List.reverse_append, skipIdle_of_isIdle htrail, List.reverse_append,
    skipIdle_name hslash hnil hdot, ← List.reverse_append, List.reverse_reverse,
    splitLast_append hfolder hslash]

theorem IsIdle.take {trail : List Char} (h : IsIdle trail) (n : Nat) : IsIdle (trail.take n) := by
  induction h with
  | nil => simpa using IsIdle.nil
  | @slash cs hcs ih =>
    rcases Nat.lt_or_ge cs.length n with hn | hn
    · rw [List.take_of_length_le (by simp; omega)]
      exact .slash hcs
    · rwa [List.take_append_of_le_length hn]
  | @dot cs hcs ih =>
    rcases Nat.lt_or_ge cs.length n with hn | hn
    · obtain ⟨k, rfl⟩ := Nat.exists_eq_add_of_lt hn
      rw [Nat.add_assoc, List.take_length_add_append]
      cases k with
      | zero => exact .slash hcs
      | succ k => simpa using IsIdle.dot hcs
    · rwa [List.take_append_of_le_length hn]

/-! ## Extensions -/

/-- What becomes of the name of a file with another extension. -/
def renamed (name extension : List Char) : List Char :=
  let kept := if stem name = name then name else stem name ++ ['.']
  if isFolderName kept then kept else stem kept ++ '.' :: extension

theorem stem_of_not_mem {name : List Char} (h : '.' ∉ name) : stem name = name := by
  rw [stem, List.dropWhile_eq_nil_iff.mpr (ne_of_mem_reverse h)]
  rfl

/-- The stem of a name goes up to its last dot, or is the name if nothing stands before. -/
theorem stem_append {before extension : List Char} (h : '.' ∉ extension) :
    stem (before ++ '.' :: extension) =
      if before = [] then '.' :: extension else before := by
  have hstop : ((before ++ '.' :: extension).reverse.dropWhile (· ≠ '.')).reverse =
      before ++ ['.'] := by
    rw [List.reverse_append, List.reverse_cons, List.append_assoc,
      List.dropWhile_append_of_pos (ne_of_mem_reverse h)]
    simp
  rw [stem, hstop, List.dropLast_concat]
  cases before <;> rfl

theorem append_dot_ne_dot {before rest : List Char} (hbefore : before ≠ []) :
    before ++ '.' :: rest ≠ ['.'] := by
  intro h
  obtain ⟨hnil, -⟩ | ⟨-, hlast⟩ := List.append_eq_singleton_iff.mp h
  · exact hbefore hnil
  · cases hlast

/-- Of the names with something before a dot, two dots alone are a folder's. -/
theorem isFolderName_append_dot_eq_false_iff {before rest : List Char} (hbefore : before ≠ []) :
    isFolderName (before ++ '.' :: rest) = false ↔ before = ['.'] → rest ≠ [] := by
  have hup : before ++ '.' :: rest = ['.', '.'] ↔ before = ['.'] ∧ rest = [] := by
    cases before with
    | nil => exact absurd rfl hbefore
    | cons c before => cases before <;> simp
  rw [isFolderName_eq_false_iff, ← not_and]
  simp [append_dot_ne_dot hbefore, hup]

/-- A name without an extension gets one behind it. -/
theorem renamed_of_stem_eq {name : List Char} (hname : isFolderName name = false)
    (hstem : stem name = name) (extension : List Char) :
    renamed name extension = name ++ '.' :: extension := by
  simp [renamed, hname, hstem]

/-- Another extension takes the place of the one a name has. A name of two dots and an extension
is left with the dots. -/
theorem renamed_append {before old : List Char} (hbefore : before ≠ []) (hold : '.' ∉ old)
    (extension : List Char) : renamed (before ++ '.' :: old) extension =
      if before = ['.'] then ['.', '.'] else before ++ '.' :: extension := by
  have hstem : stem (before ++ '.' :: old) = before := by rw [stem_append hold, if_neg hbefore]
  have hkept : stem (before ++ ['.']) = before := by
    rw [stem_append List.not_mem_nil, if_neg hbefore]
  have hne : before ≠ before ++ '.' :: old := by simp
  rw [renamed, hstem, if_neg hne]
  by_cases hdot : before = ['.']
  · simp [hdot, isFolderName]
  · have hfolder : isFolderName (before ++ ['.']) = false :=
      (isFolderName_append_dot_eq_false_iff hbefore).mpr fun h => absurd h hdot
    simp [hfolder, hkept, hdot]

/-- A name of a file has no extension, or it has one behind its last dot. -/
theorem stem_eq_or_exists_append (name : List Char) :
    stem name = name ∨ ∃ before old, name = before ++ '.' :: old ∧ before ≠ [] ∧ '.' ∉ old := by
  by_cases hdot : '.' ∈ name
  · obtain ⟨before, old, rfl, hold⟩ := exists_append_of_mem hdot
    by_cases hbefore : before = []
    · exact .inl (by rw [stem_append hold, if_pos hbefore, hbefore, List.nil_append])
    · exact .inr ⟨before, old, rfl, hbefore, hold⟩
  · exact .inl (stem_of_not_mem hdot)

/-- Whether a name has an extension: a dot and the extension end it, and before them stands
something other than a single dot. -/
def IsExtended (name extension : List Char) : Prop :=
  ∃ before, name = before ++ '.' :: extension ∧ before ≠ [] ∧ before ≠ ['.']

/-- A name is left as it is by an extension exactly if it has it. -/
theorem renamed_eq_self_iff {name extension : List Char} (hname : isFolderName name = false)
    (hextension : '.' ∉ extension) : renamed name extension = name ↔ IsExtended name extension := by
  rcases stem_eq_or_exists_append name with hstem | ⟨before, old, rfl, hbefore, hold⟩
  · rw [renamed_of_stem_eq hname hstem]
    refine iff_of_false (by simp) ?_
    rintro ⟨before, rfl, hbefore, -⟩
    rw [stem_append hextension, if_neg hbefore] at hstem
    simp at hstem
  · rw [renamed_append hbefore hold]
    constructor
    · intro h
      have hdot : before ≠ ['.'] := by
        rintro rfl
        obtain rfl : old = [] := by simpa using h
        exact (isFolderName_eq_false_iff.mp hname).2.2 rfl
      rw [if_neg hdot] at h
      exact ⟨before, h.symm, hbefore, hdot⟩
    · rintro ⟨before', h, hbefore', hdot⟩
      have hstem := congrArg stem h
      rw [stem_append hold, if_neg hbefore, stem_append hextension, if_neg hbefore'] at hstem
      rw [hstem, if_neg hdot, ← hstem, h, hstem]

/-- A name with another extension is a name. -/
theorem renamed_ne_nil {name : List Char} (hname : isFolderName name = false)
    (extension : List Char) : renamed name extension ≠ [] := by
  rcases stem_eq_or_exists_append name with hstem | ⟨before, old, rfl, hbefore, hold⟩
  · simp [renamed_of_stem_eq hname hstem]
  · rw [renamed_append hbefore hold]
    split <;> simp

theorem slash_not_mem_renamed {name extension : List Char} (hname : isFolderName name = false)
    (hslash : '/' ∉ name) (hextension : '/' ∉ extension) : '/' ∉ renamed name extension := by
  rcases stem_eq_or_exists_append name with hstem | ⟨before, old, rfl, hbefore, hold⟩
  · simp [renamed_of_stem_eq hname hstem, hslash, hextension]
  · rw [renamed_append hbefore hold]
    split <;> simp_all

/-! ## Paths with another extension -/

/-- Whether the last name of a path has an extension. -/
def HasExtension (path extension : String) : Prop :=
  ∃ folder name, path = String.ofList (folder ++ name) ∧ IsFolder folder ∧ '/' ∉ name ∧
    IsExtended name extension.toList

theorem extensionLength_append {folder name trail : List Char} (hfolder : IsFolder folder)
    (hslash : '/' ∉ name) (hnil : name ≠ []) (hdot : name ≠ ['.']) (htrail : IsIdle trail) :
    extensionLength (folder ++ name ++ trail) = name.length - (stem name).length - 1 := by
  rw [extensionLength, splitName_append hfolder hslash hnil hdot htrail]

/-- A path gets an extension behind the stem of its last name, unless that is a folder's. -/
theorem setExtension_append {folder name trail : List Char} (hfolder : IsFolder folder)
    (hslash : '/' ∉ name) (hnil : name ≠ []) (hdot : name ≠ ['.']) (htrail : IsIdle trail)
    (extension : List Char) : setExtension (folder ++ name ++ trail) extension =
      if isFolderName name then folder ++ name ++ trail
      else folder ++ stem name ++ '.' :: extension := by
  rw [setExtension, splitName_append hfolder hslash hnil hdot htrail]

/-- A path whose last name has no extension loses no characters. -/
theorem withExtension_of_stem_eq {folder name trail : List Char} (hfolder : IsFolder folder)
    (hslash : '/' ∉ name) (hname : isFolderName name = false) (htrail : IsIdle trail)
    (hstem : stem name = name) (extension : String) :
    withExtension (String.ofList (folder ++ name ++ trail)) extension =
      String.ofList (folder ++ name ++ '.' :: extension.toList) := by
  obtain ⟨hnil, hdot, -⟩ := isFolderName_eq_false_iff.mp hname
  have hlength : extensionLength (folder ++ name ++ trail) = 0 := by
    rw [extensionLength_append hfolder hslash hnil hdot htrail, hstem, Nat.sub_self, Nat.zero_sub]
  rw [withExtension, String.toList_ofList, hlength, Nat.sub_zero, List.take_length,
    setExtension_append hfolder hslash hnil hdot htrail, hname, hstem]
  rfl

/-- The characters that are taken off the end of a path are those behind the dot of its last name,
if nothing comes after that. Else as many stay behind the dot as come after the name. -/
theorem withExtension_dot {folder before old trail : List Char} (hfolder : IsFolder folder)
    (hslash : '/' ∉ before ++ '.' :: old) (hbefore : before ≠ []) (hold : '.' ∉ old)
    (htrail : IsIdle trail) (extension : String) :
    withExtension (String.ofList (folder ++ (before ++ '.' :: old) ++ trail)) extension =
      String.ofList (setExtension (folder ++ (before ++ '.' :: old.take trail.length) ++
        trail.take (trail.length - old.length)) extension.toList) := by
  have hlength : extensionLength (folder ++ (before ++ '.' :: old) ++ trail) = old.length := by
    rw [extensionLength_append hfolder hslash (by simp) (append_dot_ne_dot hbefore) htrail,
      stem_append hold, if_neg hbefore]
    simp
  have hparts : folder ++ (before ++ '.' :: old) ++ trail =
      (folder ++ before ++ ['.']) ++ (old ++ trail) := by simp
  have hkept : (folder ++ (before ++ '.' :: old) ++ trail).length - old.length =
      (folder ++ before ++ ['.']).length + trail.length := by
    simp
    omega
  rw [withExtension, String.toList_ofList, hlength, hkept, hparts, List.take_length_add_append,
    List.take_append]
  simp

theorem withExtension_append {folder name : List Char} (hfolder : IsFolder folder)
    (hslash : '/' ∉ name) (hname : isFolderName name = false) (extension : String) :
    withExtension (String.ofList (folder ++ name)) extension =
      String.ofList (folder ++ renamed name extension.toList) := by
  rcases stem_eq_or_exists_append name with hstem | ⟨before, old, rfl, hbefore, hold⟩
  · have hwith := withExtension_of_stem_eq hfolder hslash hname .nil hstem extension
    simpa [renamed_of_stem_eq hname hstem] using hwith
  · have hwith := withExtension_dot hfolder hslash hbefore hold .nil extension
    have hslash' : '/' ∉ before ++ ['.'] := by simp_all
    have hset := setExtension_append hfolder hslash' (by simp) (append_dot_ne_dot hbefore) .nil
      extension.toList
    rw [List.append_nil] at hwith hset
    rw [hwith, List.length_nil, List.take_zero, Nat.zero_sub, List.take_zero, List.append_nil, hset,
      renamed_append hbefore hold, stem_append List.not_mem_nil, if_neg hbefore]
    by_cases hdot : before = ['.']
    · simp [hdot, isFolderName]
    · rw [(isFolderName_append_dot_eq_false_iff hbefore).mpr fun h => absurd h hdot, if_neg hdot]
      simp

/-- Whatever comes after the name of a file goes, and the extension stands behind the stem of the
name, also where that is a single dot. -/
theorem withExtension_idle {folder name trail : List Char} (hfolder : IsFolder folder)
    (hslash : '/' ∉ name) (hname : isFolderName name = false) (htrail : IsIdle trail)
    (hne : trail ≠ []) (extension : String) :
    withExtension (String.ofList (folder ++ name ++ trail)) extension =
      String.ofList (folder ++ stem name ++ '.' :: extension.toList) := by
  rcases stem_eq_or_exists_append name with hstem | ⟨before, old, rfl, hbefore, hold⟩
  · rw [withExtension_of_stem_eq hfolder hslash hname htrail hstem, hstem]
  · have hold' : '.' ∉ old.take trail.length := fun h => hold (List.mem_of_mem_take h)
    have hslash' : '/' ∉ before ++ '.' :: old.take trail.length := by
      have hmem := fun h : '/' ∈ old.take trail.length => List.mem_of_mem_take h
      simp_all
    have hname' : isFolderName (before ++ '.' :: old.take trail.length) = false := by
      rw [isFolderName_append_dot_eq_false_iff hbefore] at hname ⊢
      exact fun hdot htake => (List.take_eq_nil_iff.mp htake).elim
        (fun hlength => hne (List.length_eq_zero_iff.mp hlength)) (hname hdot)
    rw [withExtension_dot hfolder hslash hbefore hold htrail,
      setExtension_append hfolder hslash' (by simp) (append_dot_ne_dot hbefore) (htrail.take _),
      hname', stem_append hold', stem_append hold, if_neg hbefore, if_neg hbefore]
    rfl

/-- A path is left as it is by an extension exactly if its last name has it. -/
theorem withExtension_eq_self_iff {folder name : List Char} {extension : String}
    (hfolder : IsFolder folder) (hslash : '/' ∉ name) (hname : isFolderName name = false)
    (hextension : '.' ∉ extension.toList) :
    withExtension (String.ofList (folder ++ name)) extension = String.ofList (folder ++ name) ↔
      HasExtension (String.ofList (folder ++ name)) extension := by
  rw [withExtension_append hfolder hslash hname, String.ofList_inj, List.append_cancel_left_eq,
    renamed_eq_self_iff hname hextension]
  constructor
  · exact fun h => ⟨folder, name, rfl, hfolder, hslash, h⟩
  · rintro ⟨folder', name', heq, hfolder', hslash', h⟩
    have hsplit := splitLast_append hfolder hslash
    rw [String.ofList_inj.mp heq, splitLast_append hfolder' hslash'] at hsplit
    obtain ⟨-, rfl⟩ := Prod.ext_iff.mp hsplit
    exact h

end LabelPress.Path
