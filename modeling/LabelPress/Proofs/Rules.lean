import LabelPress.Proofs.Range
import Mathlib.Data.List.Basic

/-!
# Rules over the whole range

A rule runs from its position to the right or upward. Its far end is cut off where it would leave
the range, and so is the raster row of either end, so a rule may be drawn shorter than its command
says, and is never drawn longer. `RuleSpec.Fits` says when it has its full length: the far end is
in the range, and of a rule that runs upward the raster row of the near end is as well. The far end
of such a rule has a lesser row, which is then in the range too.

A rule without length is drawn without length, wherever it is.

No command asks for a rule along neither a row nor a column, so the picture of a script is the same
for every way to draw slanted strokes (`renderWith_layout_congr`).
-/

namespace LabelPress

/-- The far end of a rule from a native position, over the integers. -/
def RuleSpec.farEnd (x y : Dot) (spec : RuleSpec) : Int × Int :=
  match spec.direction with
  | .east => (x.val + spec.length.toNat, y.val)
  | .north => (x.val, y.val + spec.length.toNat)

/-- Whether a rule from a native position is drawn in its full length. -/
def RuleSpec.Fits (x y : Dot) (spec : RuleSpec) : Prop :=
  spec.length = 0 ∨
    match spec.direction with
    | .east => x.val + spec.length.toNat ≤ 2147483647
    | .north => -2147481211 ≤ y.val ∧ y.val + spec.length.toNat ≤ 2147483647

/-- Whether a rule keeps to the row or the column where it starts, and runs from there to the right
or upward. -/
def Rule.RunsAlong (r : Rule) : Direction → Prop
  | .east => r.stop.y = r.start.y ∧ r.start.x ≤ r.stop.x
  | .north => r.stop.x = r.start.x ∧ r.stop.y ≤ r.start.y

/-- The length that a rule in a direction is drawn with, over the integers. -/
def Rule.extent (r : Rule) : Direction → Int
  | .east => r.stop.x.val - r.start.x.val
  | .north => r.start.y.val - r.stop.y.val

/-- A number of dots that grows is cut off at the upper end of the range only. -/
theorem Dot.val_shift_natCast (d : Dot) (n : Nat) :
    (d.shift n).val = min (d.val + n) Dot.greatest := by
  have hd := d.le_val
  rw [Dot.val_shift, Dot.least, Dot.greatest]
  omega

variable (x y : Dot) (spec : RuleSpec)

/-- A rule ends at the raster position of its native far end, as far as that is in the range. -/
theorem stop_placeRule : (placeRule x y spec).stop =
    Point.ofNative (.clamp (spec.farEnd x y).1) (.clamp (spec.farEnd x y).2) := by
  unfold placeRule RuleSpec.farEnd
  cases spec.direction <;> simp only [Dot.clamp_val, Dot.shift]

theorem runsAlong_placeRule : (placeRule x y spec).RunsAlong spec.direction := by
  cases hdirection : spec.direction with
  | east =>
    have hx := x.val_le
    refine ⟨by simp only [placeRule, hdirection, Point.ofNative], ?_⟩
    simp only [placeRule, hdirection, Point.ofNative, Dot.le_def, Dot.val_shift_natCast,
      Dot.greatest]
    omega
  | north =>
    have hy := y.val_le
    refine ⟨by simp only [placeRule, hdirection, Point.ofNative], ?_⟩
    simp only [placeRule, hdirection, Dot.le_def, Point.val_y_ofNative, Dot.val_shift_natCast,
      Dot.greatest]
    omega

/-- A rule is drawn with the length its command says, or with less where it does not fit. -/
theorem extent_placeRule :
    (placeRule x y spec).extent spec.direction ≤ spec.length.toNat ∧
      ((placeRule x y spec).extent spec.direction = spec.length.toNat ↔ spec.Fits x y) := by
  have hlength : spec.length = 0 ↔ spec.length.toNat = 0 := UInt32.toNat_inj.symm
  rw [RuleSpec.Fits, hlength]
  cases hdirection : spec.direction with
  | east =>
    have hx := x.val_le
    simp only [Rule.extent, placeRule, hdirection, Point.ofNative, Dot.val_shift_natCast,
      Dot.greatest]
    omega
  | north =>
    have hy := y.val_le
    simp only [Rule.extent, placeRule, hdirection, Point.val_y_ofNative, Dot.val_shift_natCast,
      Dot.greatest]
    omega

/-- The far end of a rule that fits is in the range. -/
theorem RuleSpec.Fits.val_clamp_farEnd {x y : Dot} {spec : RuleSpec} (h : spec.Fits x y) :
    (Dot.clamp (spec.farEnd x y).1).val = (spec.farEnd x y).1 ∧
      (Dot.clamp (spec.farEnd x y).2).val = (spec.farEnd x y).2 := by
  have hx := x.val_le
  have hx' := x.le_val
  have hy := y.val_le
  have hy' := y.le_val
  have hlength : spec.length = 0 ↔ spec.length.toNat = 0 := UInt32.toNat_inj.symm
  rw [RuleSpec.Fits, hlength] at h
  cases hdirection : spec.direction <;>
    simp only [RuleSpec.farEnd, hdirection, Dot.val_clamp, Dot.least, Dot.greatest] at h ⊢ <;> omega

/-- A command for a rule draws a rule, from its position to the right along the row or upward along
the column. The rule is never longer than the command says. It is as long exactly if the far end is
in the range, and the raster row of the near end as well if it runs upward, or if there is no
length. Its end is then the raster position of the exact far end. -/
theorem rule_as_long_as_it_fits (line : Nat) :
    let rule := placeRule x y spec
    (∀ commands, ⟨x, y, line, .rule spec⟩ ∈ commands → .rule rule ∈ (layout commands).elements) ∧
      rule.start = Point.ofNative x y ∧
      rule.RunsAlong spec.direction ∧
      rule.extent spec.direction ≤ spec.length.toNat ∧
      (rule.extent spec.direction = spec.length.toNat ↔ spec.Fits x y) ∧
      (spec.Fits x y → ∃ endX endY : Dot, (endX.val, endY.val) = spec.farEnd x y ∧
        rule.stop = Point.ofNative endX endY) := by
  obtain ⟨hmost, hfull⟩ := extent_placeRule x y spec
  refine ⟨fun commands hcommand => ?_, rfl, runsAlong_placeRule x y spec, hmost, hfull,
    fun hfits => ?_⟩
  · have hrules : placeRule x y spec ∈ commands.filterMap Command.rule? :=
      List.mem_filterMap.mpr ⟨_, hcommand, rfl⟩
    exact List.mem_append_left _ (List.mem_append_left _ (List.mem_map_of_mem hrules))
  · obtain ⟨hcolumn, hrow⟩ := hfits.val_clamp_farEnd
    exact ⟨_, _, Prod.ext hcolumn hrow, stop_placeRule x y spec⟩

/-- A rule that runs upward from the lowest position with a raster row in the range. -/
theorem rule_as_long_as_it_fits_lowest :
    let y : Dot := .clamp (-2147481211)
    let spec : RuleSpec := ⟨.north, 3, 100⟩
    let rule := placeRule 7 y spec
    spec.Fits 7 y ∧ .rule rule ∈ (layout [⟨7, y, 1, .rule spec⟩]).elements ∧
      ∃ endX endY : Dot, (endX.val, endY.val) = spec.farEnd 7 y ∧
        rule.stop = Point.ofNative endX endY := by
  intro y spec rule
  have hfits : spec.Fits 7 y := .inr (by decide)
  have hrule := rule_as_long_as_it_fits 7 y spec 1
  exact ⟨hfits, hrule.1 _ (.head _), hrule.2.2.2.2.2 hfits⟩

/-! ## Slanted strokes -/

section
variable (faces : Typeface → Face) (s : Surface) (round : Rat → Rat) (slant slant' : Slant)

/-- A rule along a row or a column has no slanted stroke. -/
theorem Canvas.rule_congr {r : Rule} {direction : Direction} (h : r.RunsAlong direction) :
    Canvas.rule ⟨s, round, slant⟩ r = Canvas.rule ⟨s, round, slant'⟩ r := by
  unfold Canvas.rule Canvas.line
  cases direction with
  | east =>
    simp only [h.1, if_true]
    rfl
  | north =>
    simp only [h.1, if_true]
    rfl

/-- An element that a command asks for has no slanted stroke. -/
theorem Canvas.element_congr {commands : List Command} {e : Element}
    (h : e ∈ (layout commands).elements) :
    Canvas.element ⟨s, round, slant⟩ faces e = Canvas.element ⟨s, round, slant'⟩ faces e := by
  cases e with
  | rule r =>
    obtain ⟨c, -, hc⟩ : ∃ c ∈ commands, Command.rule? c = some r := by
      simpa [layout] using h
    have hrule : ∃ x y spec, placeRule x y spec = r := by
      unfold Command.rule? at hc
      split at hc
      · exact ⟨_, _, _, Option.some.inj hc⟩
      · cases hc
    obtain ⟨x, y, spec, rfl⟩ := hrule
    exact Canvas.rule_congr s round slant slant' (runsAlong_placeRule x y spec)
  | barcode b => rfl
  | text run => rfl

/-- What the label of a script looks like does not depend on how slanted strokes are drawn. -/
theorem renderWith_layout_congr (commands : List Command) (m : Magnification) :
    (layout commands).renderWith faces round slant m =
      (layout commands).renderWith faces round slant' m := by
  have hpaint (s : Surface) : Canvas.picture ⟨s, round, slant⟩ faces (layout commands) =
      Canvas.picture ⟨s, round, slant'⟩ faces (layout commands) := by
    have helements : (layout commands).elements.flatMap (Canvas.element ⟨s, round, slant⟩ faces) =
        (layout commands).elements.flatMap (Canvas.element ⟨s, round, slant'⟩ faces) :=
      List.flatMap_congr fun e he => Canvas.element_congr faces s round slant slant' he
    rw [Canvas.picture, Canvas.picture, Canvas.paint, Canvas.paint, helements]
    rfl
  simp only [Label.renderWith_eq, hpaint]

end

end LabelPress
