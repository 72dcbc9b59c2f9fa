import LabelPress.Proofs.Concatenation
import LabelPress.Proofs.PaintOrder
import Mathlib.Logic.Relation

/-!
# What a label does not show

The label of a script depends on nothing but the commands of each kind, each kind by itself and
in its order, and of these not on the number of their line, the letter of a text or a barcode,
or the last number of a barcode (`Command.bare`). `Script.shown k` is what is left of a script
for the kind `k`, and scripts that show the same of every kind have the same label
(`Script.layout_eq_of_shown_eq`).

So a script may be edited in many ways without a change to its label. `Edit` lists them: a line
without a command may come or go anywhere, lines may change places as long as those of one kind
stay in their order, and what a label does not show may be written otherwise. What a text shows
of a kind is what its lines show of it, one by one (`Script.shown_parse`); one edit keeps that
(`Edit.shownOn_eq`), and so does any number of them.
-/

namespace LabelPress

open Text

/-! ## Commands -/

/-- A shape with another letter and another number where these have no effect on the layout. -/
def Shape.restyle (letter : Char) (extra : UInt32) : Shape → Shape
  | text spec => text { spec with orientation := letter }
  | rule spec => rule spec
  | barcode spec => barcode { spec with orientation := letter, extra }

namespace Command

/-- A command with another letter and another number where these have no effect on the
layout. -/
def restyle (letter : Char) (extra : UInt32) (c : Command) : Command :=
  { c with shape := c.shape.restyle letter extra }

/-- A command without its line, its letter and the number that has no effect. -/
def bare (c : Command) : Command := { c.restyle 'A' 0 with line := 0 }

theorem bare_restyle (letter : Char) (extra : UInt32) (c : Command) :
    (c.restyle letter extra).bare = c.bare := by
  obtain ⟨x, y, line, shape⟩ := c
  cases shape <;> rfl

theorem bare_later (n : Nat) (c : Command) : (c.later n).bare = c.bare := rfl

theorem kind_later (n : Nat) (c : Command) : (c.later n).kind = c.kind := rfl

theorem kind_restyle (letter : Char) (extra : UInt32) (c : Command) :
    (c.restyle letter extra).kind = c.kind := by
  obtain ⟨x, y, line, shape⟩ := c
  cases shape <;> rfl

/-- What a command draws does not depend on its line, its letter or its last number. -/
theorem element?_bare (c : Command) : c.bare.element? = c.element? := by
  obtain ⟨x, y, line, shape⟩ := c
  cases shape <;> rfl

end Command

namespace Script

/-- What a label shows of the commands of a kind. -/
def shown (k : Kind) (s : Script) : List Command :=
  (s.commands.filter fun c => c.kind = k).map Command.bare

/-- Scripts that show the same of every kind have the same label. -/
theorem layout_eq_of_shown_eq {s t : Script} (h : ∀ k, s.shown k = t.shown k) :
    layout s.commands = layout t.commands := by
  have hdrawn : ∀ (k : Kind) (r : Script),
      drawn k r.commands = (r.shown k).filterMap Command.element? := by
    intro k r
    rw [shown, List.filterMap_map]
    exact congrArg (List.filterMap · _) (funext fun c => (Command.element?_bare c).symm)
  have helements : (layout s.commands).elements = (layout t.commands).elements := by
    simp only [elements_layout, hdrawn, h]
  simpa [layout] using helements

/-! ## Lines -/

/-- What a label shows of a line, if the line gives a command of the kind. -/
def shownLine? (k : Kind) (l : List Char) : Option Command :=
  ((readLine l 0).command?.filter fun c => c.kind = k).map Command.bare

/-- What a label shows of some lines. -/
def shownOn (k : Kind) (ls : List (List Char)) : List Command := ls.filterMap (shownLine? k)

/-- A line shows the same wherever it stands. -/
theorem map_bare_readLine (k : Kind) (l : List Char) (n : Nat) :
    ((readLine l n).command?.filter fun c => c.kind = k).map Command.bare = shownLine? k l := by
  have hlater : readLine l n = (readLine l 0).later n := by
    rw [← readLine_later, Nat.zero_add]
  rw [hlater, Reading.command?_later, shownLine?]
  cases (readLine l 0).command? with
  | none => rfl
  | some c =>
    by_cases hk : c.kind = k <;>
      simp [Option.filter, hk, Command.kind_later, Command.bare_later]

theorem shown_readFrom (k : Kind) (n : Nat) (ls : List (List Char)) :
    (((readFrom n ls).filterMap Reading.command?).filter fun c => c.kind = k).map Command.bare =
      shownOn k ls := by
  induction ls generalizing n with
  | nil => rfl
  | cons l ls ih =>
    rw [shownOn, readFrom_cons, List.filterMap_cons, List.filterMap_cons, ← map_bare_readLine k l n,
      ← shownOn, ← ih (n + 1)]
    cases (readLine l n).command? with
    | none => rfl
    | some c => by_cases hk : c.kind = k <;> simp [Option.filter, hk]

/-- A text shows what its lines show. -/
theorem shown_parse (k : Kind) (text : String) :
    (parse text).shown k = shownOn k (lines text.toList) :=
  shown_readFrom k 1 _

end Script

/-! ## Edits -/

/-- A change to the lines of a script that its label does not show. -/
inductive Edit : List (List Char) → List (List Char) → Prop where
  /-- A line that gives no command is put in. -/
  | insert (as bs : List (List Char)) {l : List Char} :
    (∀ n, (readLine l n).command? = none) → Edit (as ++ bs) (as ++ l :: bs)
  /-- A line that gives no command is left out. -/
  | delete (as bs : List (List Char)) {l : List Char} :
    (∀ n, (readLine l n).command? = none) → Edit (as ++ l :: bs) (as ++ bs)
  /-- The lines change places, and those with a command of one kind stay in their order. -/
  | reorder {ls ms : List (List Char)} :
    ls.Perm ms →
    (∀ k, ls.filter (fun l => (readLine l 0).command?.any fun c => c.kind = k) =
      ms.filter fun l => (readLine l 0).command?.any fun c => c.kind = k) → Edit ls ms
  /-- A command is written with another letter and another last number. -/
  | restyle (as bs : List (List Char)) {l m : List Char} {c : Command} (letter : Char)
    (extra : UInt32) :
    (readLine l 0).command? = some c → (readLine m 0).command? = some (c.restyle letter extra) →
    Edit (as ++ l :: bs) (as ++ m :: bs)

namespace Script

/-- The lines that show something of a kind are those that give a command of the kind. -/
theorem shownOn_eq_of_filter_eq {k : Kind} {ls ms : List (List Char)}
    (h : ls.filter (fun l => (readLine l 0).command?.any fun c => c.kind = k) =
      ms.filter fun l => (readLine l 0).command?.any fun c => c.kind = k) :
    shownOn k ls = shownOn k ms := by
  have hkept : ∀ ns : List (List Char), shownOn k ns =
      (ns.filter fun l => (readLine l 0).command?.any fun c => c.kind = k).filterMap
        (shownLine? k) := by
    intro ns
    rw [List.filterMap_filter, shownOn]
    refine List.filterMap_congr fun l _ => ?_
    unfold shownLine?
    cases (readLine l 0).command? with
    | none => rfl
    | some c => by_cases hk : c.kind = k <;> simp [Option.filter, hk]
  rw [hkept ls, hkept ms, h]

theorem shownLine?_eq_none {k : Kind} {l : List Char} (h : (readLine l 0).command? = none) :
    shownLine? k l = none := by
  rw [shownLine?, h]
  rfl

end Script

/-- An edit keeps what is shown of each kind. -/
theorem Edit.shownOn_eq {ls ms : List (List Char)} (h : Edit ls ms) (k : Kind) :
    Script.shownOn k ls = Script.shownOn k ms := by
  cases h with
  | insert as bs hnone =>
    simp only [Script.shownOn, List.filterMap_append, List.filterMap_cons,
      Script.shownLine?_eq_none (hnone 0)]
  | delete as bs hnone =>
    simp only [Script.shownOn, List.filterMap_append, List.filterMap_cons,
      Script.shownLine?_eq_none (hnone 0)]
  | reorder _ hkinds => exact Script.shownOn_eq_of_filter_eq (hkinds k)
  | @restyle as bs l m c letter extra hl hm =>
    have hline : Script.shownLine? k l = Script.shownLine? k m := by
      rw [Script.shownLine?, Script.shownLine?, hl, hm]
      by_cases hk : c.kind = k <;>
        simp [Option.filter, hk, Command.kind_restyle, Command.bare_restyle]
    simp only [Script.shownOn, List.filterMap_append, List.filterMap_cons, hline]

namespace Script

/-- Any number of edits keep what is shown of each kind. -/
theorem shownOn_eq_of_edits {ls ms : List (List Char)} (h : Relation.ReflTransGen Edit ls ms)
    (k : Kind) : shownOn k ls = shownOn k ms := by
  induction h with
  | refl => rfl
  | tail _ hstep ih => exact ih.trans (hstep.shownOn_eq k)

/-- The second text comes from the first by edits to its lines. -/
def Edited (s t : String) : Prop := Relation.ReflTransGen Edit (lines s.toList) (lines t.toList)

/-- The label of a script depends on nothing but what is shown of each kind by itself, and edits
do not change it. -/
theorem layout_parse_congr (s t : String) :
    ((∀ k, (parse s).shown k = (parse t).shown k) →
        layout (parse s).commands = layout (parse t).commands) ∧
      (Edited s t → layout (parse s).commands = layout (parse t).commands) := by
  refine ⟨layout_eq_of_shown_eq, fun h => layout_eq_of_shown_eq fun k => ?_⟩
  rw [shown_parse, shown_parse, shownOn_eq_of_edits h]

/-- A text that moves before a rule, is written with another letter, and gets a comment behind
it. -/
theorem layout_parse_congr_moved_text :
    let s := "!F B E 1 2 L 3 4\n!F T S 5 6 N 1 1 1 \"a\""
    let t := "!F T S 5 6 W 1 1 1 \"a\"\n// a\n!F B E 1 2 L 3 4"
    (∀ k, (parse s).shown k = (parse t).shown k) ∧ Edited s t ∧
      layout (parse s).commands = layout (parse t).commands := by
  intro s t
  have hshown : ∀ k, (parse s).shown k = (parse t).shown k := by
    intro k
    cases k <;> decide
  have hletter : Edit ["!F B E 1 2 L 3 4".toList, "!F T S 5 6 N 1 1 1 \"a\"".toList]
      ["!F B E 1 2 L 3 4".toList, "!F T S 5 6 W 1 1 1 \"a\"".toList] :=
    .restyle [_] [] (c := ⟨6, 5, 0, .text ⟨'N', 1, 1, 1, "a"⟩⟩) 'W' 0 (by decide) (by decide)
  have hmoved : Edit ["!F B E 1 2 L 3 4".toList, "!F T S 5 6 W 1 1 1 \"a\"".toList]
      ["!F T S 5 6 W 1 1 1 \"a\"".toList, "!F B E 1 2 L 3 4".toList] :=
    .reorder (.swap _ _ _) fun k => by cases k <;> decide
  have hcomment : Edit ["!F T S 5 6 W 1 1 1 \"a\"".toList, "!F B E 1 2 L 3 4".toList]
      ["!F T S 5 6 W 1 1 1 \"a\"".toList, "// a".toList, "!F B E 1 2 L 3 4".toList] :=
    .insert [_] [_] fun _ => rfl
  have hedited : Edited s t := by
    have hs : lines s.toList =
      ["!F B E 1 2 L 3 4".toList, "!F T S 5 6 N 1 1 1 \"a\"".toList] := by decide
    have ht : lines t.toList =
      ["!F T S 5 6 W 1 1 1 \"a\"".toList, "// a".toList, "!F B E 1 2 L 3 4".toList] := by decide
    rw [Edited, hs, ht]
    exact .tail (.tail (.single hletter) hmoved) hcomment
  exact ⟨hshown, hedited, (layout_parse_congr s t).2 hedited⟩

end Script

end LabelPress
