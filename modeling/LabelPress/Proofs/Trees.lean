import LabelPress.Files.Tree
import LabelPress.Proofs.Paths

/-!
# Reading and writing in a tree

A path leads through folders to a place, and what is at that place decides whether there is a
document to read (`FileTree.read_eq_ok_iff`) and whether there is room for a picture
(`FileTree.write_eq_ok_iff`). Of the other places on the way only the folders count. So a path
leads to the same place in every tree with the same folders or more (`FileTree.locate_mono`), and
whether there is room at it is the same for all trees with the same folders
(`FileTree.IsRoom.mono`).

Putting a document at a place changes nothing at any other place (`FileTree.find?_put_of_ne`), and
no folder goes away where there was room for it (`FileTree.IsRoom.hasFoldersOf_put`).
-/

namespace LabelPress

/-- A computation gives a result exactly if its first step gives one from which the rest goes on
to it. -/
theorem bind_eq_ok_iff {ε α β : Type} {x : Except ε α} {f : α → Except ε β} {b : β} :
    (x >>= f) = .ok b ↔ ∃ a, x = .ok a ∧ f a = .ok b := by
  cases x with
  | error e => exact ⟨fun h => (nomatch h), fun ⟨_, h, _⟩ => (nomatch h)⟩
  | ok a => exact ⟨fun h => ⟨a, rfl, h⟩, fun ⟨_, hx, h⟩ => Except.ok.inj hx ▸ h⟩

/-- A fold that gives a result gives the same one if its steps do. -/
theorem foldlM_mono {ε α β : Type} {f g : β → α → Except ε β}
    (h : ∀ b a b', f b a = .ok b' → g b a = .ok b') (l : List α) (b : β) {b' : β}
    (hl : l.foldlM f b = .ok b') : l.foldlM g b = .ok b' := by
  induction l generalizing b with
  | nil => exact hl
  | cons a l ih =>
    rw [List.foldlM_cons] at hl ⊢
    obtain ⟨c, hc, hl⟩ := bind_eq_ok_iff.mp hl
    exact bind_eq_ok_iff.mpr ⟨c, h b a c hc, ih c hl⟩

namespace FileTree

variable {t t' : FileTree} {path : String} {place : Location}

/-! ## What is at a place -/

theorem look_eq_ok_iff {entry : Option Entry} : t.look place = .ok entry ↔
    place.getLast?.any Path.isLongName = false ∧ t.find? place = entry := by
  unfold look
  split <;> simp_all

/-- Putting an entry at one place leaves the others alone. -/
theorem find?_put_of_ne {other : Location} (h : other ≠ place) (entry : Entry) :
    (t.put place entry).find? other = t.find? other := by
  have hhead : decide (place = other) = false := by simpa using h.symm
  have hrest : (fun e : Location × Entry =>
      decide (decide (e.1 ≠ place) = true ∧ decide (e.1 = other) = true)) =
      fun e => decide (e.1 = other) := by
    funext e
    by_cases he : e.1 = other <;> simp [he, h]
  unfold find? put
  rw [List.find?_cons, hhead, List.find?_filter, hrest]

/-- Whether a tree has all folders of another one. -/
def HasFoldersOf (t' t : FileTree) : Prop :=
  ∀ place, t.find? place = some .folder → t'.find? place = some .folder

/-- A folder is still there after a document was put at a place that is none. -/
theorem hasFoldersOf_put (h : t.find? place ≠ some .folder) (entry : Entry) :
    (t.put place entry).HasFoldersOf t := by
  intro other hother
  have hne : other ≠ place := fun heq => h (heq ▸ hother)
  rw [find?_put_of_ne hne, hother]

/-! ## Where a path leads -/

/-- A name leads on from a folder to itself, to the folder above, or to a folder it names. -/
theorem enter_eq_ok_iff {name : String} {next : Location} : t.enter place name = .ok next ↔
    name = "." ∧ next = place ∨ name ≠ "." ∧ name = up ∧ next = parent place ∨
      name ≠ "." ∧ name ≠ up ∧ t.look (place ++ [name]) = .ok (some .folder) ∧
        next = place ++ [name] := by
  unfold enter
  by_cases hdot : name = "."
  · simp [hdot, eq_comm]
  by_cases hup : name = up
  · simp [hup, eq_comm, show up ≠ "." by decide]
  simp only [hdot, hup, if_false, false_and, true_and, false_or, ne_eq, not_false_eq_true]
  cases t.look (place ++ [name]) with
  | error e => simp
  | ok entry => rcases entry with _ | ⟨_ | _⟩ <;> simp [eq_comm]

/-- A path leads to its last name in the folder that the names before lead to. -/
theorem locate_eq_ok_iff : t.locate path = .ok place ↔
    path ≠ "" ∧ path.utf8ByteSize ≤ Path.longest ∧
      ∃ name folder, (Path.names path).getLast? = some name ∧
        (Path.names path).dropLast.foldlM t.enter (if Path.isAbsolute path then [root] else []) =
          .ok folder ∧
        name ≠ "." ∧ name ≠ up ∧ place = folder ++ [name] := by
  unfold locate
  by_cases hempty : path = ""
  · simp [hempty]
  by_cases hlong : Path.longest < path.utf8ByteSize
  · simp [hempty, hlong, Nat.not_le.mpr hlong]
  rw [if_neg hempty, if_neg hlong]
  cases (Path.names path).getLast? with
  | none => simp
  | some name =>
    by_cases hname : name = "." ∨ name = up
    · simp only [hname, if_true]
      rw [bind_eq_ok_iff]
      grind
    · simp only [hname, if_false]
      rw [bind_eq_ok_iff]
      grind

theorem enter_mono (h : t'.HasFoldersOf t) (place : Location) (name : String) (next : Location)
    (hnext : t.enter place name = .ok next) : t'.enter place name = .ok next := by
  rw [enter_eq_ok_iff] at hnext ⊢
  obtain hdot | hup | ⟨hdot, hup, hlook, hnext⟩ := hnext
  · exact .inl hdot
  · exact .inr (.inl hup)
  · obtain ⟨hlong, hfolder⟩ := look_eq_ok_iff.mp hlook
    exact .inr (.inr ⟨hdot, hup, look_eq_ok_iff.mpr ⟨hlong, h _ hfolder⟩, hnext⟩)

/-- A path leads to the same place where there are more folders. -/
theorem locate_mono (h : t'.HasFoldersOf t) (hplace : t.locate path = .ok place) :
    t'.locate path = .ok place := by
  obtain ⟨hempty, hlong, name, folder, hname, hfolder, hrest⟩ := locate_eq_ok_iff.mp hplace
  exact locate_eq_ok_iff.mpr
    ⟨hempty, hlong, name, folder, hname, foldlM_mono (enter_mono h) _ _ hfolder, hrest⟩

/-- The place a path leads to has the last name of the path. -/
theorem getLast?_of_locate (hplace : t.locate path = .ok place) :
    place.getLast? = (Path.names path).getLast? := by
  obtain ⟨-, -, name, folder, hname, -, -, -, rfl⟩ := locate_eq_ok_iff.mp hplace
  rw [List.getLast?_concat, hname]

/-! ## Reading -/

theorem read_eq_ok_iff {document : Document} : t.read path = .ok document ↔
    ∃ place, t.locate path = .ok place ∧ t.look place = .ok (some (.file document)) ∧
      Path.endsInSlash path = false := by
  unfold read
  constructor
  · intro h
    obtain ⟨place, hplace, h⟩ := bind_eq_ok_iff.mp h
    obtain ⟨entry, hentry, h⟩ := bind_eq_ok_iff.mp h
    rcases entry with _ | ⟨_ | document⟩
    · cases h
    · cases h
    · cases hslash : Path.endsInSlash path with
      | true => simp [hslash] at h
      | false => simp_all
  · rintro ⟨place, hplace, hentry, hslash⟩
    exact bind_eq_ok_iff.mpr ⟨place, hplace, bind_eq_ok_iff.mpr ⟨_, hentry, by simp [hslash]⟩⟩

/-- Whether a text can be read at a path. -/
def HoldsText (t : FileTree) (path text : String) : Prop :=
  ∃ document, t.read path = .ok document ∧ document.text? = some text

/-! ## Writing -/

/-- Whether a path leads to a place where a file is or can be put. -/
def IsRoom (t : FileTree) (path : String) (place : Location) : Prop :=
  t.locate path = .ok place ∧ Path.endsInSlash path = false ∧
    ∃ entry, t.look place = .ok entry ∧ entry ≠ some .folder

theorem write_eq_ok_iff {picture : Picture} : t.write path picture = .ok t' ↔
    ∃ place, t.IsRoom path place ∧ t' = t.put place (.file (.picture picture)) := by
  unfold write
  constructor
  · intro h
    obtain ⟨place, hplace, h⟩ := bind_eq_ok_iff.mp h
    split at h
    · cases h
    rename_i hslash
    obtain ⟨entry, hentry, h⟩ := bind_eq_ok_iff.mp h
    refine ⟨place, ⟨hplace, by simpa using hslash, entry, hentry, ?_⟩, ?_⟩
    all_goals rcases entry with _ | ⟨_ | document⟩ <;> simp_all
  · rintro ⟨place, ⟨hplace, hslash, entry, hentry, hfolder⟩, rfl⟩
    refine bind_eq_ok_iff.mpr ⟨place, hplace, ?_⟩
    rw [hslash, if_neg Bool.false_ne_true]
    refine bind_eq_ok_iff.mpr ⟨entry, hentry, ?_⟩
    rcases entry with _ | ⟨_ | document⟩
    · rfl
    · exact absurd rfl hfolder
    · rfl

/-- Two trees with the same folders have room at the same places. -/
theorem IsRoom.mono (h : t'.HasFoldersOf t) (h' : t.HasFoldersOf t')
    (hroom : t.IsRoom path place) : t'.IsRoom path place := by
  obtain ⟨hplace, hslash, entry, hentry, hfolder⟩ := hroom
  obtain ⟨hlong, rfl⟩ := look_eq_ok_iff.mp hentry
  exact ⟨locate_mono h hplace, hslash, _, look_eq_ok_iff.mpr ⟨hlong, rfl⟩,
    fun hnow => hfolder (h' _ hnow)⟩

/-- Where there was room for a file, putting one there takes no folder away. -/
theorem IsRoom.hasFoldersOf_put (hroom : t.IsRoom path place) (entry : Entry) :
    (t.put place entry).HasFoldersOf t := by
  obtain ⟨-, -, old, hold, hfolder⟩ := hroom
  obtain ⟨-, rfl⟩ := look_eq_ok_iff.mp hold
  exact FileTree.hasFoldersOf_put hfolder entry

/-- What is put where there is room is there. -/
theorem IsRoom.find?_put (hroom : t.IsRoom path place) (entry : Entry) :
    (t.put place entry).find? place = some entry := by
  obtain ⟨-, -, name, folder, hname, -, -, hup, rfl⟩ := locate_eq_ok_iff.mp hroom.1
  have hroot : name ≠ root := by
    rintro rfl
    exact Path.slash_not_mem_of_mem_names (List.mem_of_getLast? hname) (by decide)
  have hinside : (folder ++ [name]).all (fun name => name = up || name = root) = false := by
    simp [hup, hroot]
  simp only [find?, put, hinside, List.find?_cons, decide_true]
  rfl

/-- The picture that was written to a path is read from it. -/
theorem read_of_write {picture : Picture} (h : t.write path picture = .ok t') :
    t'.read path = .ok (.picture picture) := by
  obtain ⟨place, hroom, rfl⟩ := write_eq_ok_iff.mp h
  have ⟨hplace, hslash, entry, hentry, _⟩ := hroom
  refine read_eq_ok_iff.mpr ⟨place, locate_mono (hroom.hasFoldersOf_put _) hplace, ?_, hslash⟩
  exact look_eq_ok_iff.mpr ⟨(look_eq_ok_iff.mp hentry).1, hroom.find?_put _⟩

/-- Writing to a path changes nothing about the documents at paths with another last name. -/
theorem read_of_write_of_ne {picture : Picture} {other : String} {document : Document}
    (h : t.write path picture = .ok t') (hread : t.read other = .ok document)
    (hne : (Path.names other).getLast? ≠ (Path.names path).getLast?) :
    t'.read other = .ok document := by
  obtain ⟨place, hroom, rfl⟩ := write_eq_ok_iff.mp h
  obtain ⟨at', hat, hlook, hslash⟩ := read_eq_ok_iff.mp hread
  obtain ⟨hlong, hfind⟩ := look_eq_ok_iff.mp hlook
  have hplaces : at' ≠ place := by
    rintro rfl
    exact hne ((getLast?_of_locate hat).symm.trans (getLast?_of_locate hroom.1))
  refine read_eq_ok_iff.mpr ⟨at', locate_mono (hroom.hasFoldersOf_put _) hat, ?_, hslash⟩
  exact look_eq_ok_iff.mpr ⟨hlong, (find?_put_of_ne hplaces _).trans hfind⟩

end FileTree

end LabelPress
