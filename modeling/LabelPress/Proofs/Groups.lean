import LabelPress.Program.Groups
import LabelPress.Proofs.Finite

/-!
# Reading arguments in groups

Whatever stands first among some arguments is settled by one step of reading. A group that may come
next says its part and reading goes on behind it (`Arguments.read_group`), and a fault is reported
(`Arguments.read_of_fault`). There is nothing else: any arguments fall into groups up to their end
or the first fault (`Arguments.splits`). So groups are read one after the other, as long as they
name no second script (`Arguments.read_groups`).
-/

namespace LabelPress

/-! ## Factors -/

theorem readFactor_of_read_eq_ok (option : FactorOption) {value : String} {factor : Float32}
    (h : Single.read value = .ok factor) : readFactor option value =
      if factor.isFinite = true ∧ 0 < factor then .ok factor
      else .error (.notPositive option factor) := by
  rw [readFactor, h]
  dsimp only
  split
  case h_1 q hq =>
    obtain ⟨hq, hpos⟩ := Option.filter_eq_some_iff.mp hq
    rw [if_pos ((Single.exists_value?_pos_iff factor).mp ⟨q, hq, by simpa using hpos⟩)]
  case h_2 hnone =>
    rw [if_neg]
    intro hpos
    obtain ⟨q, hq, hpos⟩ := (Single.exists_value?_pos_iff factor).mpr hpos
    exact Option.filter_eq_none_iff.mp hnone q hq (by simpa using hpos)

theorem readFactor_of_read_eq_error (option : FactorOption) {value : String}
    {reason : Single.ReadError} (h : Single.read value = .error reason) :
    readFactor option value = .error (.unreadable option value reason) := by
  rw [readFactor, h]

theorem readFactor_eq_ok_iff {option : FactorOption} {value : String} {factor : Float32} :
    readFactor option value = .ok factor ↔ WritesFactor value factor := by
  constructor
  · intro h
    cases hread : Single.read value with
    | error reason =>
      rw [readFactor_of_read_eq_error option hread] at h
      cases h
    | ok f =>
      rw [readFactor_of_read_eq_ok option hread] at h
      by_cases hpos : f.isFinite = true ∧ 0 < f
      · rw [if_pos hpos] at h
        obtain rfl := Except.ok.inj h
        exact ⟨hread, hpos⟩
      · rw [if_neg hpos] at h
        cases h
  · rintro ⟨hread, hpos⟩
    rw [readFactor_of_read_eq_ok option hread, if_pos hpos]

theorem fault_of_readFactor_eq_error {option : FactorOption} {value : String} {e : ArgumentError}
    (h : readFactor option value = .error e) (script : Option String) (rest : List String) :
    Fault script (option.flag :: value :: rest) e := by
  cases hread : Single.read value with
  | error reason =>
    rw [readFactor_of_read_eq_error option hread] at h
    obtain rfl := Except.error.inj h
    exact .unreadable option rest hread
  | ok factor =>
    rw [readFactor_of_read_eq_ok option hread] at h
    by_cases hpos : factor.isFinite = true ∧ 0 < factor
    · rw [if_pos hpos] at h
      cases h
    · rw [if_neg hpos] at h
      obtain rfl := Except.error.inj h
      exact .notPositive option rest hread hpos

namespace Arguments

/-- What the arguments have said after a group. -/
def say (a : Arguments) : ArgumentGroup → Arguments
  | .output _ path => { a with output := some path }
  | .factor option _ factor _ => a.setFactor factor option
  | .script path _ => { a with script := some path }

/-! ## One step -/

theorem isOutputFlag_iff {argument : String} :
    argument = "-o" ∨ argument = "--output" ↔ ∃ option : OutputOption, option.flag = argument := by
  constructor
  · rintro (rfl | rfl)
    · exact ⟨.short, rfl⟩
    · exact ⟨.long, rfl⟩
  · rintro ⟨_ | _, rfl⟩
    · exact .inl rfl
    · exact .inr rfl

/-- An argument stands for an option exactly if it is the option's own. -/
theorem factorOption?_eq_some_iff {argument : String} {option : FactorOption} :
    factorOption? argument = some option ↔ option.flag = argument := by
  cases option <;> grind [factorOption?, FactorOption.flag]

theorem factorOption?_flag (option : FactorOption) : factorOption? option.flag = some option :=
  factorOption?_eq_some_iff.mpr rfl

theorem not_isOutputFlag (option : FactorOption) :
    ¬(option.flag = "-o" ∨ option.flag = "--output") := by
  cases option <;> decide

theorem not_mem_knownOptions_iff {argument : String} : argument ∉ knownOptions ↔
    ¬(argument = "-o" ∨ argument = "--output") ∧ factorOption? argument = none ∧
      ¬(argument = "-h" ∨ argument = "--help") := by
  have hfactor : factorOption? argument = none ↔
      ¬(argument = "--zoom" ∨ argument = "--density") := by
    grind [factorOption?, FactorOption.flag]
  rw [hfactor]
  simp only [knownOptions, List.mem_cons, List.not_mem_nil, or_false]
  tauto

variable (a : Arguments) (rest : List String)

theorem read_output (option : OutputOption) (path : String) :
    a.read (option.flag :: path :: rest) = read { a with output := some path } rest := by
  rw [read, if_pos (isOutputFlag_iff.mpr ⟨option, rfl⟩)]

theorem read_output_nil (option : OutputOption) : a.read [option.flag] = .error .missingPath := by
  rw [read, if_pos (isOutputFlag_iff.mpr ⟨option, rfl⟩)]

theorem read_factor_of_eq_ok {option : FactorOption} {value : String} {factor : Float32}
    (h : readFactor option value = .ok factor) :
    a.read (option.flag :: value :: rest) = (a.setFactor factor option).read rest := by
  simp only [read, if_neg (not_isOutputFlag option), factorOption?_flag, h]

theorem read_factor_of_eq_error {option : FactorOption} {value : String} {e : ArgumentError}
    (h : readFactor option value = .error e) :
    a.read (option.flag :: value :: rest) = .error e := by
  simp only [read, if_neg (not_isOutputFlag option), factorOption?_flag, h]

theorem read_factor_nil (option : FactorOption) :
    a.read [option.flag] = .error (.missingValue option) := by
  simp only [read, if_neg (not_isOutputFlag option), factorOption?_flag]

theorem read_help {argument : String} (h : argument = "-h" ∨ argument = "--help") :
    a.read (argument :: rest) = .error .usage := by
  have hother : ¬(argument = "-o" ∨ argument = "--output") ∧ factorOption? argument = none := by
    rcases h with rfl | rfl <;> decide
  rw [read.eq_def]
  simp only [if_neg hother.1, hother.2, if_pos h]

theorem read_of_not_mem {argument : String} (h : argument ∉ knownOptions) :
    a.read (argument :: rest) =
      if IsDashed argument then .error (.unknownOption argument)
      else if a.script = none then read { a with script := some argument } rest
      else .error (.unexpected argument) := by
  obtain ⟨houtput, hfactor, hhelp⟩ := not_mem_knownOptions_iff.mp h
  rw [read.eq_def a (argument :: rest)]
  simp only [if_neg houtput, hfactor, if_neg hhelp]
  rfl

theorem not_mem_of_plain {argument : String} (h : ¬IsDashed argument) :
    argument ∉ knownOptions := by
  have hdashed : ∀ option ∈ knownOptions, IsDashed option := by decide
  exact mt (hdashed argument) h

/-! ## Groups -/

/-- A group that may come next says its part, and reading goes on. -/
theorem read_group {g : ArgumentGroup} (h : g.script? = none ∨ a.script = none) :
    a.read (g.arguments ++ rest) = (a.say g).read rest := by
  cases g with
  | output option path => exact read_output a rest option path
  | factor option value factor writes =>
    exact read_factor_of_eq_ok a rest (readFactor_eq_ok_iff.mpr writes)
  | script path plain =>
    have hscript : a.script = none := h.resolve_left (Option.some_ne_none path)
    refine (read_of_not_mem a rest (not_mem_of_plain plain)).trans ?_
    rw [if_neg plain, if_pos hscript]
    rfl

/-- Whether groups name no second script. -/
def Allows (groups : List ArgumentGroup) : Prop :=
  a.script.toList.length + (groups.filterMap ArgumentGroup.script?).length ≤ 1

theorem allows_nil : a.Allows [] := by
  cases h : a.script <;> simp [Allows, h]

theorem allows_cons {g : ArgumentGroup} {groups : List ArgumentGroup} :
    a.Allows (g :: groups) ↔ (g.script? = none ∨ a.script = none) ∧ (a.say g).Allows groups := by
  cases g with
  | output option path => simp [Allows, say, ArgumentGroup.script?, List.filterMap_cons]
  | factor option value factor writes =>
    simp [Allows, say, ArgumentGroup.script?, List.filterMap_cons]
  | script path plain =>
    cases h : a.script <;> simp [Allows, say, ArgumentGroup.script?, h]

theorem read_groups {groups : List ArgumentGroup} (h : a.Allows groups) :
    a.read (groups.flatMap ArgumentGroup.arguments ++ rest) = (groups.foldl say a).read rest := by
  induction groups generalizing a with
  | nil => rfl
  | cons g groups ih =>
    obtain ⟨hnext, hrest⟩ := a.allows_cons.mp h
    rw [List.flatMap_cons, List.append_assoc, read_group a _ hnext, ih (a.say g) hrest,
      List.foldl_cons]

/-- A fault is reported. -/
theorem read_of_fault {rest : List String} {e : ArgumentError} (h : Fault a.script rest e) :
    a.read rest = .error e := by
  cases h with
  | missingPath option => exact read_output_nil a option
  | missingValue option => exact read_factor_nil a option
  | unreadable option rest hread =>
    exact read_factor_of_eq_error a rest (readFactor_of_read_eq_error option hread)
  | notPositive option rest hread hpos =>
    refine read_factor_of_eq_error a rest ?_
    rw [readFactor_of_read_eq_ok option hread, if_neg hpos]
  | help rest hhelp => exact read_help a rest hhelp
  | unknownOption rest hdashed hunknown =>
    rw [read_of_not_mem a rest hunknown, if_pos hdashed]
  | unexpected rest hplain hscript =>
    rw [read_of_not_mem a rest (not_mem_of_plain hplain), if_neg hplain, if_neg hscript]

/-- Whether arguments fall into groups, up to their end or the first fault. -/
def Splits (arguments : List String) : Prop :=
  ∃ groups rest, arguments = groups.flatMap ArgumentGroup.arguments ++ rest ∧ a.Allows groups ∧
    (rest = [] ∨ ∃ e, Fault (groups.foldl say a).script rest e)

variable {a rest}

theorem Splits.of_fault {e : ArgumentError} (h : Fault a.script rest e) : a.Splits rest :=
  ⟨[], rest, rfl, a.allows_nil, .inr ⟨e, h⟩⟩

theorem Splits.cons {g : ArgumentGroup} (hnext : g.script? = none ∨ a.script = none)
    (h : (a.say g).Splits rest) : a.Splits (g.arguments ++ rest) := by
  obtain ⟨groups, rest, rfl, hallows, hrest⟩ := h
  exact ⟨g :: groups, rest, by rw [List.flatMap_cons, List.append_assoc],
    a.allows_cons.mpr ⟨hnext, hallows⟩, hrest⟩

theorem splits (a : Arguments) (arguments : List String) : a.Splits arguments := by
  fun_induction read a arguments with
  | case1 a => exact ⟨[], [], rfl, a.allows_nil, .inl rfl⟩
  | case2 a argument hflag =>
    obtain ⟨option, rfl⟩ := isOutputFlag_iff.mp hflag
    exact .of_fault (.missingPath option)
  | case3 a argument hflag path rest ih =>
    obtain ⟨option, rfl⟩ := isOutputFlag_iff.mp hflag
    exact .cons (g := .output option path) (.inl rfl) ih
  | case4 a argument hflag option hoption =>
    obtain rfl := factorOption?_eq_some_iff.mp hoption
    exact .of_fault (.missingValue option)
  | case5 a argument hflag option hoption value rest factor hfactor ih =>
    obtain rfl := factorOption?_eq_some_iff.mp hoption
    have hwrites := readFactor_eq_ok_iff.mp hfactor
    exact .cons (g := .factor option value factor hwrites) (.inl rfl) ih
  | case6 a argument hflag option hoption value rest e hfactor =>
    obtain rfl := factorOption?_eq_some_iff.mp hoption
    exact .of_fault (fault_of_readFactor_eq_error hfactor a.script rest)
  | case7 a argument rest hflag hoption hhelp => exact .of_fault (.help rest hhelp)
  | case8 a argument rest hflag hoption hhelp hdashed =>
    have hunknown := not_mem_knownOptions_iff.mpr ⟨hflag, hoption, hhelp⟩
    exact .of_fault (.unknownOption rest hdashed hunknown)
  | case9 a argument rest hflag hoption hhelp hplain hscript ih =>
    exact .cons (g := .script argument hplain) (.inr hscript) ih
  | case10 a argument rest hflag hoption hhelp hplain hscript =>
    exact .of_fault (.unexpected rest hplain hscript)

end Arguments

end LabelPress
