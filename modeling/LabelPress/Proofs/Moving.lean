import LabelPress.Proofs.Bars
import LabelPress.Proofs.PaintOrder
import LabelPress.Proofs.Rules
import LabelPress.Proofs.Standing
import Mathlib.Data.List.Forall2

/-!
# Moving commands

Commands that are moved together draw what they drew, moved along. This is meant where nothing
stops at an end of the range, neither before the move nor after it (`Command.IsExact`,
`Command.MovesExactly`). A move upward goes to lesser rows in raster space.

A rule and a text are what they were but for their points. A barcode is less simple. The room to
the right edge of the sheet depends on the column, so a move to the side may change the width of
the frame. The stripes are laid from the left, and how they lie in their frame depends on the frame
by the number of those that fit alone (`Barcode.barsInFrame_place`). More of them fit into a wider
frame, so the bars of the narrower frame are the first ones of the wider (`Stripes.fitting_mono`).
And a caption is shown or not by the height at which the barcode stands.
-/

namespace LabelPress

/-- A way to move things in native space, in dots. -/
structure Move where
  right : Int
  up : Int

/-- Whether the move takes one native position to another. -/
structure Move.Takes (m : Move) (x y x' y' : Dot) : Prop where
  x : x'.val = x.val + m.right
  y : y'.val = y.val + m.up

/-! ## Moved things -/

section
variable (m : Move)

/-- Whether a point lies where the move takes another one, in raster space. -/
structure Point.Moved (p q : Point) : Prop where
  x : q.x.val = p.x.val + m.right
  y : q.y.val = p.y.val - m.up

/-- Whether a box is another one after the move. -/
structure Box.Moved (b c : Box) : Prop where
  x : c.x.val = b.x.val + m.right
  y : c.y.val = b.y.val - m.up
  width : c.width = b.width
  height : c.height = b.height

/-- Whether a rule is another one after the move. -/
structure Rule.Moved (r s : Rule) : Prop where
  start : r.start.Moved m s.start
  stop : r.stop.Moved m s.stop
  thickness : s.thickness = r.thickness

/-- Whether a text is another one after the move. -/
structure TextRun.Moved (r s : TextRun) : Prop where
  origin : r.origin.Moved m s.origin
  rest : s = { r with origin := s.origin }

/-- The bars of a barcode as they lie in its frame: the column and the row from the top left corner
of the frame, the width and the height. -/
def BarcodeBox.barsInFrame (b : BarcodeBox) : List (Int × Int × Int × Int) :=
  b.bars.map fun bar =>
    (bar.x.val - b.frame.x.val, bar.y.val - b.frame.y.val, bar.width.val, bar.height.val)

/-- Whether a barcode is another one after the move. A move to the side may change the width of the
frame, and then the bars in the narrower one are the first ones in the wider. Any other move takes
the frame and every bar along. -/
structure BarcodeBox.Moved (b c : BarcodeBox) : Prop where
  left : c.frame.x.val = b.frame.x.val + m.right
  top : c.frame.y.val = b.frame.y.val - m.up
  height : c.frame.height = b.frame.height
  bars_of_narrower : c.frame.width ≤ b.frame.width → c.barsInFrame <+: b.barsInFrame
  bars_of_wider : b.frame.width ≤ c.frame.width → b.barsInFrame <+: c.barsInFrame
  upright : m.right = 0 → b.frame.Moved m c.frame ∧ List.Forall₂ (Box.Moved m) b.bars c.bars
  /-- Where both have a caption, it moves along. -/
  caption : ∀ r ∈ b.caption, ∀ s ∈ c.caption, r.Moved m s

/-- Whether an element is another one after the move. -/
inductive Element.Moved : Element → Element → Prop where
  | rule {r s : Rule} : r.Moved m s → Moved (.rule r) (.rule s)
  | barcode {b c : BarcodeBox} : b.Moved m c → Moved (.barcode b) (.barcode c)
  | text {r s : TextRun} : r.Moved m s → Moved (.text r) (.text s)

end

/-! ## Exact positions -/

/-- Whether a rule from a position is drawn exactly: the raster row of the position is in the
range, and so is the far end. -/
structure RuleSpec.IsExactAt (x y : Dot) (spec : RuleSpec) : Prop where
  row : -2147481211 ≤ y.val
  farX : (spec.farEnd x y).1 ≤ 2147483647
  farY : (spec.farEnd x y).2 ≤ 2147483647

/-- Whether a barcode at a position is drawn exactly: the raster row of the position is in the
range, and so are the top of the frame and its right edge. -/
structure BarcodeSpec.IsExactAt (x y : Dot) (spec : BarcodeSpec) : Prop where
  row : -2147481211 ≤ y.val
  top : -2147483648 ≤ 2436 - y.val - (Barcode.boxHeight spec.height).val
  right : x.val + (Barcode.boxWidth x spec.value spec.unit).val ≤ 2147483647

/-! ## Commands -/

section
variable (m : Move)

/-- A command at the position to which the move takes its own. -/
def Command.moveBy (c : Command) : Command := { c with x := c.x.shift m.right, y := c.y.shift m.up }

/-- Whether nothing that a command draws stops at an end of the range. -/
def Command.IsExact (c : Command) : Prop :=
  match c.shape with
  | .rule spec => spec.IsExactAt c.x c.y
  | .barcode spec => spec.IsExactAt c.x c.y
  | .text _ => -2147481211 ≤ c.y.val

/-- Whether a command is drawn exactly before and after the move, from positions that are in the
range. -/
structure Command.MovesExactly (c : Command) : Prop where
  takes : m.Takes c.x c.y (c.moveBy m).x (c.moveBy m).y
  before : c.IsExact
  after : (c.moveBy m).IsExact

/-- Whether a command draws two elements before the move and after it, the second of which is the
first one moved. A barcode has a caption after the move if it has a value and then stands ten dots
above the bottom edge of the sheet, or higher. -/
structure Command.Redraws (c : Command) (e f : Element) : Prop where
  before : c.element? = some e
  after : (c.moveBy m).element? = some f
  moved : e.Moved m f
  caption : ∀ spec box, c.shape = .barcode spec → f = .barcode box →
    (box.caption.isSome ↔ spec.value ≠ "" ∧ 10 ≤ c.y.val + m.up)

end

/-! ## Points, rules and texts -/

/-- The far end of a rule lies nowhere to the left of its position, and nowhere below. -/
theorem RuleSpec.le_farEnd (x y : Dot) (spec : RuleSpec) :
    x.val ≤ (spec.farEnd x y).1 ∧ y.val ≤ (spec.farEnd x y).2 := by
  cases hdirection : spec.direction <;> simp only [farEnd, hdirection] <;> omega

section
variable {m : Move} {x y x' y' : Dot} (h : m.Takes x y x' y')
include h

theorem Point.moved_ofNative (hrow : -2147481211 ≤ y.val) (hrow' : -2147481211 ≤ y'.val) :
    (ofNative x y).Moved m (ofNative x' y') where
  x := h.x
  y := by
    have hy := h.y
    rw [val_y_ofNative, val_y_ofNative, Dot.greatest]
    omega

theorem RuleSpec.farEnd_moved (spec : RuleSpec) :
    spec.farEnd x' y' = ((spec.farEnd x y).1 + m.right, (spec.farEnd x y).2 + m.up) := by
  obtain ⟨hx, hy⟩ := h
  cases hdirection : spec.direction <;> simp only [farEnd, hdirection, Prod.mk.injEq] <;> omega

/-- The move takes the far end of a rule along, if that is in the range before and after. -/
theorem Move.Takes.farEnd {spec : RuleSpec} (hfar : spec.IsExactAt x y)
    (hfar' : spec.IsExactAt x' y') :
    m.Takes (.clamp (spec.farEnd x y).1) (.clamp (spec.farEnd x y).2)
      (.clamp (spec.farEnd x' y').1) (.clamp (spec.farEnd x' y').2) := by
  have hx := x.le_val
  have hx' := x'.le_val
  obtain ⟨hrow, hfarX, hfarY⟩ := hfar
  obtain ⟨hrow', hfarX', hfarY'⟩ := hfar'
  obtain ⟨hleft, hbottom⟩ := spec.le_farEnd x y
  obtain ⟨hleft', hbottom'⟩ := spec.le_farEnd x' y'
  have hmoved := spec.farEnd_moved h
  constructor <;> simp only [Dot.val_clamp, Dot.least, Dot.greatest, hmoved] at * <;> omega

theorem moved_placeRule {spec : RuleSpec} (hexact : spec.IsExactAt x y)
    (hexact' : spec.IsExactAt x' y') : (placeRule x y spec).Moved m (placeRule x' y' spec) where
  start := Point.moved_ofNative h hexact.row hexact'.row
  stop := by
    have hrow := hexact.row
    have hrow' := hexact'.row
    obtain ⟨-, hbottom⟩ := spec.le_farEnd x y
    obtain ⟨-, hbottom'⟩ := spec.le_farEnd x' y'
    rw [stop_placeRule, stop_placeRule]
    refine Point.moved_ofNative (h.farEnd hexact hexact') ?_ ?_ <;>
      simp only [Dot.val_clamp, Dot.least, Dot.greatest] <;> omega
  thickness := rfl

theorem moved_placeText {spec : TextSpec} (hrow : -2147481211 ≤ y.val)
    (hrow' : -2147481211 ≤ y'.val) {r s : TextRun} (hr : placeText x y spec = some r)
    (hs : placeText x' y' spec = some s) : r.Moved m s := by
  obtain ⟨-, hr⟩ := Option.ite_none_left_eq_some.mp hr
  obtain ⟨-, hs⟩ := Option.ite_none_left_eq_some.mp hs
  obtain rfl := Option.some.inj hr
  obtain rfl := Option.some.inj hs
  exact ⟨Point.moved_ofNative h hrow hrow', rfl⟩

end

/-! ## Barcodes -/

/-- Bars that lie in their frames in one way move along with the frame. -/
theorem BarcodeBox.forall₂_moved {m : Move} {b c : BarcodeBox}
    (h : b.barsInFrame = c.barsInFrame) (hframe : b.frame.Moved m c.frame) :
    List.Forall₂ (Box.Moved m) b.bars c.bars := by
  have hleft := hframe.x
  have htop := hframe.y
  rw [barsInFrame, barsInFrame, ← List.forall₂_eq_eq_eq, List.forall₂_map_left_iff,
    List.forall₂_map_right_iff] at h
  refine h.imp fun bar bar' hbar => ?_
  simp only [Prod.mk.injEq] at hbar
  obtain ⟨hx, hy, hwidth, hheight⟩ := hbar
  exact ⟨by omega, by omega, Dot.ext hwidth.symm, Dot.ext hheight.symm⟩

namespace Barcode

/-- The stripes that the value of a barcode chooses. -/
def stripes (spec : BarcodeSpec) : Stripes := .start (hash spec.value) (effectiveUnit spec.unit)

/-- A stripe as it lies in a frame of a given height, if it is black. -/
def barInFrame? (s : Stripes) (height : Int) (i : Nat) : Option (Int × Int × Int × Int) :=
  if (s.nth i).black then some (6 + s.extent i, 4, (s.nth i).width, height - 8) else none

/-- How the bars lie in their frame depends on the frame by its height and by the number of stripes
that fit. -/
theorem barsInFrame_place (x y : Dot) (spec : BarcodeSpec) : (place x y spec).barsInFrame =
    (List.range ((stripes spec).fitting (room (frame x y spec)))).filterMap
      (barInFrame? (stripes spec) (boxHeight spec.height).val) := by
  have hframe := le_width_frame x y spec
  have hbars : (place x y spec).bars = _ := bars_eq hframe (hash spec.value) spec.unit
  rw [BarcodeBox.barsInFrame, hbars, List.map_filterMap]
  refine List.filterMap_congr fun i hi => ?_
  have hi : i < (stripes spec).fitting (room (frame x y spec)) := List.mem_range.mp hi
  change (bar? (frame x y spec) (stripes spec) i).map _ = _
  by_cases hblack : ((stripes spec).nth i).black
  · obtain ⟨hleft, -⟩ := edges_barOf hframe hi
    obtain ⟨-, hwidth, -⟩ := exact_of_le_room (by omega) (Stripes.lt_fitting_iff.mp hi)
    obtain ⟨htop, hheight⟩ := rows_barOf x y spec
      (column (frame x y spec) ((stripes spec).extent i)) ((stripes spec).nth i)
    have hplace : (place x y spec).frame = frame x y spec := rfl
    rw [bar?, barInFrame?, if_pos hblack, if_pos hblack, Option.map_some, hplace, hleft, htop,
      hheight]
    simp only [Option.some.injEq, Prod.mk.injEq]
    exact ⟨by omega, by omega, hwidth, rfl⟩
  · rw [bar?, barInFrame?, if_neg hblack, if_neg hblack, Option.map_none]

/-- The bars in a narrower frame are the first ones of those in a wider. -/
theorem barsInFrame_place_prefix {x y x' y' : Dot} {spec : BarcodeSpec} (h : spec.IsExactAt x y)
    (h' : spec.IsExactAt x' y') (hwidth : (frame x y spec).width ≤ (frame x' y' spec).width) :
    (place x y spec).barsInFrame <+: (place x' y' spec).barsInFrame := by
  have hframe := le_width_frame x y spec
  have hframe' := le_width_frame x' y' spec
  have hroom : room (frame x y spec) = _ := room_eq (by omega) h.right
  have hroom' : room (frame x' y' spec) = _ := room_eq (by omega) h'.right
  have hfits : (stripes spec).fitting (room (frame x y spec)) ≤
      (stripes spec).fitting (room (frame x' y' spec)) := by
    rw [Dot.le_def] at hwidth
    exact Stripes.fitting_mono (by omega) (by omega)
  rw [barsInFrame_place, barsInFrame_place, ← Nat.min_eq_left hfits, ← List.take_range]
  exact (List.take_prefix _ _).filterMap _

section
variable {x y : Dot} {spec : BarcodeSpec} (h : spec.IsExactAt x y)
include h

/-- The top of a frame that is in the range is its height above the position. -/
theorem val_y_frame_of_isExactAt :
    (frame x y spec).y.val = 2436 - y.val - (boxHeight spec.height).val := by
  have hrow := h.row
  have htop := h.top
  have hheight : (frame x y spec).height = boxHeight spec.height := rfl
  rw [val_y_frame, Point.val_y_ofNative, hheight, Dot.least, Dot.greatest]
  omega

/-- The caption below such a frame starts six dots below the position. -/
theorem val_captionTop_of_isExactAt (hshown : 10 ≤ y.val) :
    (captionTop x y spec).val = 2442 - y.val := by
  have hheight : (frame x y spec).height = boxHeight spec.height := rfl
  obtain ⟨hgap, -⟩ := val_captionTop_of_le x spec hshown
  rw [hgap, val_bottom_frame, val_y_frame_of_isExactAt h, hheight]
  omega

end

section
variable {m : Move} {x y x' y' : Dot} (h : m.Takes x y x' y') {spec : BarcodeSpec}
  (hexact : spec.IsExactAt x y) (hexact' : spec.IsExactAt x' y')
include h hexact hexact'

theorem moved_caption {r s : TextRun} (hr : r ∈ (place x y spec).caption)
    (hs : s ∈ (place x' y' spec).caption) : r.Moved m s := by
  have hy := h.y
  rw [caption_place, Option.mem_def] at hr hs
  obtain ⟨⟨-, hshown⟩, hr⟩ := Option.ite_none_right_eq_some.mp hr
  obtain ⟨⟨-, hshown'⟩, hs⟩ := Option.ite_none_right_eq_some.mp hs
  obtain rfl := Option.some.inj hr
  obtain rfl := Option.some.inj hs
  refine ⟨⟨h.x, ?_⟩, rfl⟩
  rw [val_captionTop_of_isExactAt hexact hshown, val_captionTop_of_isExactAt hexact' hshown']
  omega

theorem moved_place : (place x y spec).Moved m (place x' y' spec) := by
  have hx := h.x
  have hframe : (frame x' y' spec).y.val = (frame x y spec).y.val - m.up := by
    have hy := h.y
    rw [val_y_frame_of_isExactAt hexact, val_y_frame_of_isExactAt hexact']
    omega
  refine ⟨hx, hframe, rfl, barsInFrame_place_prefix hexact' hexact,
    barsInFrame_place_prefix hexact hexact', fun hupright => ?_,
    fun r hr s hs => moved_caption h hexact hexact' hr hs⟩
  obtain rfl : x' = x := Dot.ext (by omega)
  have hmoved : (frame x' y spec).Moved m (frame x' y' spec) := ⟨hx, hframe, rfl, rfl⟩
  -- the room in a frame does not depend on its row
  have hbars : (place x' y spec).barsInFrame = (place x' y' spec).barsInFrame :=
    (barsInFrame_place x' y spec).trans (barsInFrame_place x' y' spec).symm
  exact ⟨hmoved, BarcodeBox.forall₂_moved hbars hmoved⟩

end

end Barcode

/-! ## Layouts -/

section
variable {m : Move} {c : Command}

theorem Command.element?_of_barcode {spec : BarcodeSpec} (h : c.shape = .barcode spec) :
    c.element? = some (.barcode (Barcode.place c.x c.y spec)) := by
  rw [element?, h]

theorem Command.MovesExactly.moved (h : c.MovesExactly m) {e f : Element}
    (he : c.element? = some e) (hf : (c.moveBy m).element? = some f) : e.Moved m f := by
  obtain ⟨htakes, hexact, hexact'⟩ := h
  obtain ⟨x, y, line, shape⟩ := c
  cases shape with
  | rule spec =>
    obtain rfl := Option.some.inj he
    obtain rfl := Option.some.inj hf
    exact .rule (moved_placeRule htakes hexact hexact')
  | barcode spec =>
    obtain rfl := Option.some.inj he
    obtain rfl := Option.some.inj hf
    exact .barcode (Barcode.moved_place htakes hexact hexact')
  | text spec =>
    obtain ⟨r, hr, rfl⟩ := Option.map_eq_some_iff.mp he
    obtain ⟨s, hs, rfl⟩ := Option.map_eq_some_iff.mp hf
    exact .text (moved_placeText htakes hexact hexact' hr hs)

theorem Command.MovesExactly.redraws (h : c.MovesExactly m) {e f : Element}
    (he : c.element? = some e) (hf : (c.moveBy m).element? = some f) : c.Redraws m e f where
  before := he
  after := hf
  moved := h.moved he hf
  caption spec box hshape hbox := by
    have hplace : (c.moveBy m).element? = _ := element?_of_barcode (c := c.moveBy m) hshape
    obtain rfl := Element.barcode.inj (hbox.symm.trans (Option.some.inj (hf.symm.trans hplace)))
    rw [Barcode.isSome_caption_place, h.takes.y]

/-- A command that draws nothing draws nothing after the move either. -/
theorem Command.element?_moveBy_eq_none_iff : (c.moveBy m).element? = none ↔ c.element? = none := by
  rw [element?_eq_none_iff, element?_eq_none_iff]
  rfl

theorem Command.MovesExactly.rel_element? (h : c.MovesExactly m) {cs : List Command} (hc : c ∈ cs) :
    Option.Rel (fun e f => ∃ c ∈ cs, c.Redraws m e f) c.element? (c.moveBy m).element? := by
  have hnone : (c.moveBy m).element? = none ↔ c.element? = none := element?_moveBy_eq_none_iff
  cases he : c.element? with
  | none =>
    rw [hnone.mpr he]
    exact .none
  | some e =>
    obtain ⟨f, hf⟩ := Option.ne_none_iff_exists'.mp (mt hnone.mp (he ▸ Option.some_ne_none e))
    rw [hf]
    exact .some ⟨c, hc, h.redraws he hf⟩

/-- The commands in the order of painting. -/
def inPaintOrder (cs : List Command) : List Command :=
  Kind.order.flatMap fun k => cs.filter fun c => c.kind = k

theorem elements_layout_eq_filterMap (cs : List Command) :
    (layout cs).elements = (inPaintOrder cs).filterMap Command.element? := by
  rw [elements_layout, inPaintOrder, List.filterMap_flatMap]
  rfl

theorem inPaintOrder_map_moveBy (cs : List Command) :
    inPaintOrder (cs.map (Command.moveBy m)) = (inPaintOrder cs).map (Command.moveBy m) := by
  simp only [inPaintOrder, List.map_flatMap, List.filter_map]
  rfl

theorem mem_of_mem_inPaintOrder {cs : List Command} (h : c ∈ inPaintOrder cs) : c ∈ cs := by
  obtain ⟨k, -, hc⟩ := List.mem_flatMap.mp h
  exact List.mem_of_mem_filter hc

end

/-- Commands that are moved draw what they drew before, element by element, moved along, as long as
nothing stops at an end of the range before the move or after it. -/
theorem layout_moves_along (m : Move) (commands : List Command)
    (h : ∀ c ∈ commands, c.MovesExactly m) :
    List.Forall₂ (fun e f => ∃ c ∈ commands, c.Redraws m e f) (layout commands).elements
      (layout (commands.map (Command.moveBy m))).elements := by
  rw [elements_layout_eq_filterMap, elements_layout_eq_filterMap, inPaintOrder_map_moveBy]
  refine List.rel_filterMap (R := fun c d => c ∈ commands ∧ d = c.moveBy m) ?_ ?_
  · rintro c _ ⟨hc, rfl⟩
    exact (h c hc).rel_element? hc
  · rw [List.forall₂_map_right_iff, List.forall₂_same]
    exact fun c hc => ⟨mem_of_mem_inPaintOrder hc, rfl⟩

/-- A rule, a barcode and a text that are moved to the left and upward. The frame of the barcode
becomes wider, and its caption shows. -/
theorem layout_moves_along_left :
    let m : Move := ⟨-300, 8⟩
    let rule : Command := ⟨960, 1725, 1, .rule ⟨.north, 10, 50⟩⟩
    let barcode : Command := ⟨1200, 5, 2, .barcode ⟨'S', 100, 3, 0, "1Z999AA10123456784"⟩⟩
    let text : Command := ⟨990, 1911, 3, .text ⟨'S', 2, 1, 1, "SE1"⟩⟩
    (∀ c ∈ [rule, barcode, text], c.MovesExactly m) ∧
      List.Forall₂ (fun e f => ∃ c ∈ [rule, barcode, text], c.Redraws m e f)
        (layout [rule, barcode, text]).elements
        (layout ([rule, barcode, text].map (Command.moveBy m))).elements := by
  intro m rule barcode text
  have hrule : rule.MovesExactly m :=
    ⟨⟨by decide, by decide⟩, ⟨by decide, by decide, by decide⟩, by decide, by decide, by decide⟩
  have hbarcode : barcode.MovesExactly m :=
    ⟨⟨by decide, by decide⟩, ⟨by decide, by decide, by decide⟩, by decide, by decide, by decide⟩
  have htext : text.MovesExactly m :=
    ⟨⟨by decide, by decide⟩, (by decide : -2147481211 ≤ text.y.val),
      (by decide : -2147481211 ≤ (text.moveBy m).y.val)⟩
  have hall : ∀ c ∈ [rule, barcode, text], c.MovesExactly m :=
    List.forall_mem_cons.mpr ⟨hrule, List.forall_mem_cons.mpr
      ⟨hbarcode, List.forall_mem_singleton.mpr htext⟩⟩
  exact ⟨hall, layout_moves_along m _ hall⟩

end LabelPress
