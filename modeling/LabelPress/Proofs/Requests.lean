import LabelPress.Proofs.Groups
import LabelPress.Proofs.Trees
import Mathlib.Data.List.Induction

/-!
# What arguments ask for

Groups that are read one after the other leave what the last of them says, of anything that groups
set (`Arguments.foldl_say`). An option is told from the groups that set it alone, and it does not
matter where the others stand (`Arguments.ofGroups_congr`).

Any arguments are groups up to their end or the first fault. Without a fault they are accepted if
one of the groups names a script, and are refused for want of it if none does. With a fault they are
refused for that. One of these is the case for all arguments, so each says exactly when they are
accepted, and exactly when they are refused for an error.
-/

namespace LabelPress

namespace Arguments

/-! ## What groups say -/

/-- What groups say together: for anything that they set, what the last of them says. -/
def ofGroups (groups : List ArgumentGroup) : Arguments where
  script := (groups.filterMap ArgumentGroup.script?).getLast?
  output := (groups.filterMap ArgumentGroup.output?).getLast?
  magnification :=
    { zoom := (groups.filterMap (ArgumentGroup.factor? .zoom)).getLast?.getD 1
      density := (groups.filterMap (ArgumentGroup.factor? .density)).getLast?.getD 1 }

theorem ofGroups_append (groups : List ArgumentGroup) (g : ArgumentGroup) :
    ofGroups (groups ++ [g]) = (ofGroups groups).say g := by
  cases g with
  | output option path =>
    simp [ofGroups, say, List.filterMap_cons, ArgumentGroup.script?, ArgumentGroup.output?,
      ArgumentGroup.factor?]
  | factor option value factor writes =>
    cases option <;>
      simp [ofGroups, say, setFactor, List.filterMap_cons, ArgumentGroup.script?,
        ArgumentGroup.output?, ArgumentGroup.factor?]
  | script path plain =>
    simp [ofGroups, say, List.filterMap_cons, ArgumentGroup.script?, ArgumentGroup.output?,
      ArgumentGroup.factor?]

theorem foldl_say (groups : List ArgumentGroup) : groups.foldl say {} = ofGroups groups := by
  induction groups using List.reverseRecOn with
  | nil => rfl
  | append_singleton groups g ih =>
    rw [List.foldl_append, ih, ofGroups_append, List.foldl_cons, List.foldl_nil]

theorem allows_empty_iff {groups : List ArgumentGroup} :
    Allows {} groups ↔ (groups.filterMap ArgumentGroup.script?).length ≤ 1 := by
  rw [Allows, Option.toList_none, List.length_nil, Nat.zero_add]

/-- Groups with at most one script are read as what they say. -/
theorem read_eq_ofGroups {groups : List ArgumentGroup}
    (h : (groups.filterMap ArgumentGroup.script?).length ≤ 1) :
    read {} (groups.flatMap ArgumentGroup.arguments) = .ok (ofGroups groups) := by
  have hread := read_groups {} [] (allows_empty_iff.mpr h)
  rwa [List.append_nil, foldl_say] at hread

/-- Groups with at most one script that end in a fault are refused for it. -/
theorem read_eq_error_of_fault {groups : List ArgumentGroup} {rest : List String}
    {e : ArgumentError} (h : (groups.filterMap ArgumentGroup.script?).length ≤ 1)
    (hfault : Fault (groups.filterMap ArgumentGroup.script?).getLast? rest e) :
    read {} (groups.flatMap ArgumentGroup.arguments ++ rest) = .error e := by
  rw [read_groups {} rest (allows_empty_iff.mpr h), foldl_say]
  exact read_of_fault _ hfault

theorem exists_groups (arguments : List String) :
    ∃ (groups : List ArgumentGroup) (rest : List String),
      arguments = groups.flatMap ArgumentGroup.arguments ++ rest ∧
      (groups.filterMap ArgumentGroup.script?).length ≤ 1 ∧
      (rest = [] ∨ ∃ e, Fault (groups.filterMap ArgumentGroup.script?).getLast? rest e) := by
  obtain ⟨groups, rest, harguments, hallows, hrest⟩ := splits {} arguments
  rw [foldl_say] at hrest
  exact ⟨groups, rest, harguments, allows_empty_iff.mp hallows, hrest⟩

/-- What the groups with one setting say is told from these groups alone. -/
theorem filterMap_filter_setting {α : Type} {f : ArgumentGroup → Option α} {setting : Setting}
    (h : ∀ g, g.setting ≠ setting → f g = none) (groups : List ArgumentGroup) :
    (groups.filter fun g => g.setting = setting).filterMap f = groups.filterMap f := by
  rw [List.filterMap_filter]
  refine List.filterMap_congr fun g _ => ?_
  by_cases hg : g.setting = setting
  · simp [hg]
  · simp [hg, h g hg]

/-- Groups may change places, as long as those of one option stay in their order. -/
theorem ofGroups_congr {groups groups' : List ArgumentGroup} (hperm : groups.Perm groups')
    (hone : (groups.filterMap ArgumentGroup.script?).length ≤ 1)
    (horder : ∀ setting, setting ≠ .script → groups.filter (fun g => g.setting = setting) =
      groups'.filter fun g => g.setting = setting) : ofGroups groups = ofGroups groups' := by
  have hscript : groups.filterMap ArgumentGroup.script? =
      groups'.filterMap ArgumentGroup.script? := by
    have hscripts := hperm.filterMap ArgumentGroup.script?
    match h : groups.filterMap ArgumentGroup.script?, hone with
    | [], _ => exact (h ▸ hscripts).nil_eq
    | [script], _ => exact (h ▸ hscripts).singleton_eq
  have hsame {α : Type} {f : ArgumentGroup → Option α} (setting : Setting)
      (hsetting : setting ≠ .script) (h : ∀ g, g.setting ≠ setting → f g = none) :
      groups.filterMap f = groups'.filterMap f := by
    rw [← filterMap_filter_setting h groups, ← filterMap_filter_setting h groups',
      horder setting hsetting]
  have houtput : groups.filterMap ArgumentGroup.output? =
      groups'.filterMap ArgumentGroup.output? :=
    hsame .output nofun fun g hg => by
      cases g with
      | output option path => exact absurd rfl hg
      | _ => rfl
  have hfactor (option : FactorOption) : groups.filterMap (ArgumentGroup.factor? option) =
      groups'.filterMap (ArgumentGroup.factor? option) :=
    hsame (.factor option) nofun fun g hg => by
      cases g with
      | factor o value factor writes => exact if_neg fun h => hg (congrArg Setting.factor h)
      | _ => rfl
  simp only [ofGroups, hscript, houtput, hfactor]

end Arguments

/-! ## Requests -/

/-- A list with no more than one member has a last one exactly if it has only that. -/
theorem eq_singleton_iff_getLast? {α : Type} {l : List α} {x : α} :
    l = [x] ↔ l.length ≤ 1 ∧ l.getLast? = some x := by
  match l with
  | [] => simp
  | [y] => simp
  | y :: z :: l => simp

namespace Request

variable {arguments : List String} {request : Request} {groups : List ArgumentGroup}

theorem ofArguments_eq_ok_iff : ofArguments arguments = .ok request ↔
    ∃ a, Arguments.read {} arguments = .ok a ∧ a.script = some request.script ∧
      request.output = a.output.getD (usualOutput request.script) ∧
      request.magnification = a.magnification := by
  rw [ofArguments, bind_eq_ok_iff]
  refine exists_congr fun a => and_congr_right fun _ => ?_
  cases hscript : a.script with
  | none => exact iff_of_false nofun (by simp)
  | some script =>
    obtain ⟨script', output, magnification⟩ := request
    constructor
    · intro h
      obtain ⟨rfl, rfl, rfl⟩ := Request.mk.inj (Except.ok.inj h)
      exact ⟨rfl, rfl, rfl⟩
    · rintro ⟨h, houtput, hmagnification⟩
      dsimp only at h houtput hmagnification
      rw [← Option.some.inj h] at houtput ⊢
      rw [houtput, hmagnification]
      rfl

theorem ofArguments_eq_error_iff {e : ArgumentError} : ofArguments arguments = .error e ↔
    Arguments.read {} arguments = .error e ∨
      ∃ a, Arguments.read {} arguments = .ok a ∧ a.script = none ∧ e = .usage := by
  cases hread : Arguments.read {} arguments with
  | error e' =>
    have herror : ofArguments arguments = .error e' := by
      rw [ofArguments, hread]
      rfl
    simp [herror]
  | ok a =>
    cases hscript : a.script with
    | none =>
      have herror : ofArguments arguments = .error .usage := by
        rw [ofArguments, hread]
        simp only [bind, Except.bind, hscript]
        rfl
      simp [herror, hscript, eq_comm]
    | some script =>
      have hok : ofArguments arguments =
          .ok ⟨script, a.output.getD (usualOutput script), a.magnification⟩ :=
        ofArguments_eq_ok_iff.mpr ⟨a, hread, hscript, rfl, rfl⟩
      simp [hok, hscript]

theorem isAskedBy_iff : request.IsAskedBy groups ↔
    (groups.filterMap ArgumentGroup.script?).length ≤ 1 ∧
      (Arguments.ofGroups groups).script = some request.script ∧
      request.output = (Arguments.ofGroups groups).output.getD (usualOutput request.script) ∧
      request.magnification = (Arguments.ofGroups groups).magnification := by
  constructor
  · rintro ⟨hscript, houtput, hzoom, hdensity⟩
    obtain ⟨hone, hlast⟩ := eq_singleton_iff_getLast?.mp hscript
    exact ⟨hone, hlast, houtput, congrArg₂ Magnification.mk hzoom hdensity⟩
  · rintro ⟨hone, hlast, houtput, hmagnification⟩
    exact ⟨eq_singleton_iff_getLast?.mpr ⟨hone, hlast⟩, houtput,
      congrArg Magnification.zoom hmagnification, congrArg Magnification.density hmagnification⟩

/-- Arguments are accepted exactly if they are groups, of which one names a script. -/
theorem ofArguments_eq_ok_iff_isAskedBy : ofArguments arguments = .ok request ↔
    ∃ groups : List ArgumentGroup, arguments = groups.flatMap ArgumentGroup.arguments ∧
      request.IsAskedBy groups := by
  constructor
  · intro h
    obtain ⟨a, hread, hrequest⟩ := ofArguments_eq_ok_iff.mp h
    obtain ⟨groups, rest, rfl, hone, rfl | ⟨e, hfault⟩⟩ := Arguments.exists_groups arguments
    · rw [List.append_nil] at hread ⊢
      obtain rfl := Except.ok.inj (hread.symm.trans (Arguments.read_eq_ofGroups hone))
      exact ⟨groups, rfl, isAskedBy_iff.mpr ⟨hone, hrequest⟩⟩
    · cases hread.symm.trans (Arguments.read_eq_error_of_fault hone hfault)
  · rintro ⟨groups, rfl, h⟩
    obtain ⟨hone, hrequest⟩ := isAskedBy_iff.mp h
    exact ofArguments_eq_ok_iff.mpr ⟨_, Arguments.read_eq_ofGroups hone, hrequest⟩

/-- Arguments are refused for the first fault, or for want of a script if there is none. -/
theorem ofArguments_eq_error_iff_fault {e : ArgumentError} : ofArguments arguments = .error e ↔
    ∃ (groups : List ArgumentGroup) (rest : List String),
      arguments = groups.flatMap ArgumentGroup.arguments ++ rest ∧
      (groups.filterMap ArgumentGroup.script?).length ≤ 1 ∧
      (Fault (groups.filterMap ArgumentGroup.script?).getLast? rest e ∨
        rest = [] ∧ groups.filterMap ArgumentGroup.script? = [] ∧ e = .usage) := by
  constructor
  · intro h
    obtain ⟨groups, rest, rfl, hone, rfl | ⟨e', hfault⟩⟩ := Arguments.exists_groups arguments
    · have hread := Arguments.read_eq_ofGroups hone
      rw [List.append_nil] at h
      obtain herror | ⟨a, hok, hscript, he⟩ := ofArguments_eq_error_iff.mp h
      · cases hread.symm.trans herror
      · obtain rfl := Except.ok.inj (hread.symm.trans hok)
        exact ⟨groups, [], rfl, hone, .inr ⟨rfl, List.getLast?_eq_none_iff.mp hscript, he⟩⟩
    · have hread := Arguments.read_eq_error_of_fault hone hfault
      have herror := ofArguments_eq_error_iff.mpr (.inl hread)
      obtain rfl := Except.error.inj (herror.symm.trans h)
      exact ⟨groups, rest, rfl, hone, .inl hfault⟩
  · rintro ⟨groups, rest, rfl, hone, hfault | ⟨rfl, hnone, rfl⟩⟩
    · exact ofArguments_eq_error_iff.mpr (.inl (Arguments.read_eq_error_of_fault hone hfault))
    · rw [List.append_nil]
      exact ofArguments_eq_error_iff.mpr
        (.inr ⟨_, Arguments.read_eq_ofGroups hone, List.getLast?_eq_none_iff.mpr hnone, rfl⟩)

end Request

/-- Arguments are read in groups, and in no other way. They are accepted exactly if they are groups
one after the other, of which one names a script, and the request is what the groups ask for. They
are refused for the first group that goes wrong, or for want of a script if none does. Groups of
different options may change places. -/
theorem arguments_read_in_groups :
    (∀ arguments request, Request.ofArguments arguments = .ok request ↔
      ∃ groups : List ArgumentGroup, arguments = groups.flatMap ArgumentGroup.arguments ∧
        request.IsAskedBy groups) ∧
    (∀ arguments e, Request.ofArguments arguments = .error e ↔
      ∃ (groups : List ArgumentGroup) (rest : List String),
        arguments = groups.flatMap ArgumentGroup.arguments ++ rest ∧
        (groups.filterMap ArgumentGroup.script?).length ≤ 1 ∧
        (Fault (groups.filterMap ArgumentGroup.script?).getLast? rest e ∨
          rest = [] ∧ groups.filterMap ArgumentGroup.script? = [] ∧ e = .usage)) ∧
    ∀ groups groups' : List ArgumentGroup, groups.Perm groups' →
      (groups.filterMap ArgumentGroup.script?).length ≤ 1 →
      (∀ setting, setting ≠ .script → groups.filter (fun g => g.setting = setting) =
        groups'.filter fun g => g.setting = setting) →
      Request.ofArguments (groups.flatMap ArgumentGroup.arguments) =
        Request.ofArguments (groups'.flatMap ArgumentGroup.arguments) := by
  refine ⟨fun _ _ => Request.ofArguments_eq_ok_iff_isAskedBy,
    fun _ _ => Request.ofArguments_eq_error_iff_fault, fun groups groups' hperm hone horder => ?_⟩
  have hone' : (groups'.filterMap ArgumentGroup.script?).length ≤ 1 :=
    (hperm.filterMap ArgumentGroup.script?).length_eq ▸ hone
  rw [Request.ofArguments, Request.ofArguments, Arguments.read_eq_ofGroups hone,
    Arguments.read_eq_ofGroups hone', Arguments.ofGroups_congr hperm hone horder]

/-- Of two options with a path the last one counts, wherever the other groups stand. -/
theorem arguments_read_in_groups_swapped :
    Request.ofArguments ["-o", "a.png", "--zoom", "2", "ship.txt", "--output", "-h"] =
      .ok ⟨"ship.txt", "-h", ⟨2, 1⟩⟩ ∧
    Request.ofArguments ["ship.txt", "-o", "a.png", "--output", "-h", "--zoom", "2"] =
      .ok ⟨"ship.txt", "-h", ⟨2, 1⟩⟩ := by
  have hwrites : WritesFactor "2" 2 := ⟨by decide +kernel, by decide +kernel, by decide +kernel⟩
  have hplain : ¬IsDashed "ship.txt" := by decide
  have hrequest : Request.ofArguments ["-o", "a.png", "--zoom", "2", "ship.txt", "--output", "-h"] =
      .ok ⟨"ship.txt", "-h", ⟨2, 1⟩⟩ := by decide +kernel
  let first : ArgumentGroup := .output .short "a.png"
  let last : ArgumentGroup := .output .long "-h"
  let zoom : ArgumentGroup := .factor .zoom "2" 2 hwrites
  let script : ArgumentGroup := .script "ship.txt" hplain
  have hperm : List.Perm [first, zoom, script, last] [script, first, last, zoom] :=
    List.Perm.trans (List.perm_middle : List.Perm ([first, zoom] ++ script :: [last]) _)
      (((List.Perm.swap last zoom []).cons first).cons script)
  have horder : ∀ setting, setting ≠ .script →
      [first, zoom, script, last].filter (fun g => g.setting = setting) =
        [script, first, last, zoom].filter fun g => g.setting = setting := by
    rintro (_ | (_ | _) | _) - <;> rfl
  have hswap := arguments_read_in_groups.2.2 _ _ hperm (le_of_eq rfl) horder
  exact ⟨hrequest, hswap.symm.trans hrequest⟩

end LabelPress
