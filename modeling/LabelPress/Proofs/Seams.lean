import LabelPress.Layout
import LabelPress.Proofs.Bars
import LabelPress.Proofs.Exact

/-!
# Bars at every zoom

Without rounding, a box takes the pixels between its edges in pixels, and these have the order of
its edges in dots at every scale (`Surface.scaled_le`). So what is true of the bars of a barcode in
dots is true of the pixels they take. Bars that follow each other share no column
(`Surface.not_takesColumn_of_le`), bars that touch leave none out between them
(`Surface.takesColumn_or_of_touch`), and a bar takes columns and rows of its frame only
(`Surface.takesColumn_frame_of_liesIn`, `Surface.takesRow_frame_of_liesIn`). None of this needs a
bar to take any column, and at a small scale some bars take none.

The frame is filled by its width, so its right edge in pixels is the exact one also where the frame
leaves the range.
-/

namespace LabelPress

/-! ## Edges in pixels -/

namespace Surface

variable {s : Surface} (hscale : 0 < s.scale) {a b frame : Box} {unit : Nat} {i : Int}
include hscale

/-- Edges in dots keep their order in pixels. -/
theorem scaled_le {m n : Int} (h : m ≤ n) : (m : Rat) * s.scale ≤ n * s.scale :=
  mul_le_mul_of_nonneg_right (by exact_mod_cast h) hscale.le

/-- What lies within a length in dots takes pixels of that length only. -/
theorem hits_scaled_of_within {x length x' length' : Int} (hstart : x ≤ x')
    (hstop : x' + length' ≤ x + length)
    (h : Span.hits ⟨x' * s.scale, (x' + length') * s.scale⟩ i) :
    Span.hits ⟨x * s.scale, (x + length) * s.scale⟩ i := by
  have hstop' := scaled_le hscale hstop
  push_cast at hstop'
  exact Span.hits_mono (scaled_le hscale hstart) hstop' h

section
variable (ha : 1 ≤ a.width.val ∧ 1 ≤ a.height.val) (hb : 1 ≤ b.width.val ∧ 1 ≤ b.height.val)
include ha hb

/-- A box that ends where another one starts, or left of there, has no column in common with it. -/
theorem not_takesColumn_of_le (h : a.x.val + a.width.val ≤ b.x.val) :
    ¬(s.exact.TakesColumn a i ∧ s.exact.TakesColumn b i) := by
  rw [s.takesColumn_iff ha, s.takesColumn_iff hb]
  refine Span.not_hits_of_stop_le ?_
  have hle := scaled_le hscale h
  push_cast at hle
  exact hle

/-- Two boxes that touch take all columns between their outer edges. -/
theorem takesColumn_or_of_touch (h : a.x.val + a.width.val = b.x.val) :
    s.exact.TakesColumn a i ∨ s.exact.TakesColumn b i ↔
      Span.hits ⟨a.x.val * s.scale, (b.x.val + b.width.val) * s.scale⟩ i := by
  have hmiddle : ((a.x.val : Rat) + a.width.val) * s.scale = b.x.val * s.scale := by
    rw [← Int.cast_add, h]
  have hleft : (a.x.val : Rat) * s.scale ≤ b.x.val * s.scale := scaled_le hscale (by omega)
  have hright := scaled_le hscale (m := b.x.val) (n := b.x.val + b.width.val) (by omega)
  push_cast at hright
  rw [s.takesColumn_iff ha, s.takesColumn_iff hb, hmiddle]
  exact (Span.hits_cut_iff hleft hright).symm

end

variable (hframe : 1 ≤ frame.width.val ∧ 1 ≤ frame.height.val)
  (hb : 1 ≤ b.width.val ∧ 1 ≤ b.height.val) (h : Barcode.LiesIn b frame unit)
include hframe hb h

/-- A bar takes columns of its frame only. -/
theorem takesColumn_frame_of_liesIn (hi : s.exact.TakesColumn b i) :
    s.exact.TakesColumn frame i := by
  have hleft := h.left_le
  have hright := h.right_le.trans (sub_le_sub_right (Box.right_le (by omega)) 6)
  rw [s.takesColumn_iff hb] at hi
  rw [s.takesColumn_iff hframe]
  exact hits_scaled_of_within hscale (by omega) (by omega) hi

/-- A bar takes rows of its frame only, if the frame ends its height below its top. -/
theorem takesRow_frame_of_liesIn (hbottom : frame.bottom.val = frame.y.val + frame.height.val)
    (hi : s.exact.TakesRow b i) : s.exact.TakesRow frame i := by
  have htop := h.top_eq
  have hend := h.bottom_eq
  rw [s.takesRow_iff hb] at hi
  rw [s.takesRow_iff hframe]
  exact hits_scaled_of_within hscale (by omega) (by omega) hi

end Surface

/-! ## Barcodes -/

/-- Whether the bars of a barcode neither collide nor show seams on a surface, if it is painted
without rounding. -/
structure BarcodeBox.IsSeamless (b : BarcodeBox) (s : Surface) : Prop where
  /-- A box takes the columns whose middle lies between its edges, the right one included. -/
  columns : ∀ box ∈ b.frame :: b.bars, ∀ i : Int, s.exact.TakesColumn box i ↔
    box.x.val * s.scale < (i : Rat) + 1 / 2 ∧
      (i : Rat) + 1 / 2 ≤ (box.x.val + box.width.val) * s.scale
  /-- A box takes rows alike. -/
  rows : ∀ box ∈ b.frame :: b.bars, ∀ j : Int, s.exact.TakesRow box j ↔
    box.y.val * s.scale < (j : Rat) + 1 / 2 ∧
      (j : Rat) + 1 / 2 ≤ (box.y.val + box.height.val) * s.scale
  /-- Of the surface no other pixels are filled. Where a dot is a pixel, a box that starts left of
  the surface or above it is left aside. -/
  no_others_filled : ∀ box ∈ b.frame :: b.bars,
    (s.scale = 1 ∧ ¬s.isCut → 0 ≤ box.x.val ∧ 0 ≤ box.y.val) →
    ∀ ink, ∀ l ∈ s.exact.fill ink box, ∀ i j : Nat, i < s.width → j < s.height →
      l.figure.coverage i j ≠ 0 → s.exact.TakesColumn box i ∧ s.exact.TakesRow box j
  /-- These pixels are filled, unless the box is too thin or too far away. -/
  filled : ∀ box ∈ b.frame :: b.bars,
    (s.scale = 1 ∧ ¬s.isCut → 0 ≤ box.x.val ∧ 0 ≤ box.y.val) →
    Span.IsModerate ⟨box.x.val * s.scale, (box.x.val + box.width.val) * s.scale⟩ →
    Span.IsModerate ⟨box.y.val * s.scale, (box.y.val + box.height.val) * s.scale⟩ →
    ∀ ink, ∀ i j : Nat, i < s.width → j < s.height →
      s.exact.TakesColumn box i → s.exact.TakesRow box j →
        ∃ l ∈ s.exact.fill ink box, l.Hides i j
  /-- No column is taken by two bars. -/
  apart : b.bars.Pairwise fun a a' => ∀ i, ¬(s.exact.TakesColumn a i ∧ s.exact.TakesColumn a' i)
  /-- The white frame takes every column of a bar. -/
  columns_inside : ∀ bar ∈ b.bars, ∀ i,
    s.exact.TakesColumn bar i → s.exact.TakesColumn b.frame i
  /-- The white frame takes every row of a bar. -/
  rows_inside : ∀ bar ∈ b.bars, ∀ j, s.exact.TakesRow bar j → s.exact.TakesRow b.frame j
  /-- Two bars that touch take every column between the left edge of the one and the right edge of
  the other. -/
  joined : ∀ a ∈ b.bars, ∀ a' ∈ b.bars, a.right = a'.x → ∀ i : Int,
    a.x.val * s.scale < (i : Rat) + 1 / 2 → (i : Rat) + 1 / 2 ≤ a'.right.val * s.scale →
      s.exact.TakesColumn a i ∨ s.exact.TakesColumn a' i

/-- A barcode on a label is the stand-in for a barcode command. -/
theorem exists_place_of_mem_layout {commands : List Command} {b : BarcodeBox}
    (h : .barcode b ∈ (layout commands).elements) : ∃ x y spec, b = Barcode.place x y spec := by
  have hbarcode : b ∈ commands.filterMap Command.barcode? := by
    simpa [layout] using h
  obtain ⟨c, -, hc⟩ := List.mem_filterMap.mp hbarcode
  unfold Command.barcode? at hc
  split at hc
  · exact ⟨c.x, c.y, _, (Option.some.inj hc).symm⟩
  · cases hc

/-- The frame of a barcode and its bars have at least one dot in either direction. -/
theorem Barcode.one_le_sides_place (x y : Dot) (spec : BarcodeSpec) :
    ∀ box ∈ (place x y spec).frame :: (place x y spec).bars,
      1 ≤ box.width.val ∧ 1 ≤ box.height.val := by
  refine List.forall_mem_cons.mpr ⟨?_, fun bar hbar => ?_⟩
  · have hwidth : 220 ≤ (place x y spec).frame.width.val := le_width_frame x y spec
    have hheight : 40 ≤ (place x y spec).frame.height.val := le_height_frame x y spec
    omega
  · have hwidth := (liesIn_of_mem_bars hbar).one_le_width
    have hheight := (liesIn_of_mem_bars hbar).le_height
    omega

/-- The bars of a barcode on a label neither collide nor show seams, at any scale. -/
theorem bars_seamless_at_every_scale {commands : List Command} {b : BarcodeBox}
    (hb : .barcode b ∈ (layout commands).elements) {s : Surface} (hscale : 0 < s.scale) :
    b.IsSeamless s := by
  obtain ⟨x, y, spec, rfl⟩ := exists_place_of_mem_layout hb
  have hsides := Barcode.one_le_sides_place x y spec
  obtain ⟨hframe, hbars⟩ := List.forall_mem_cons.mp hsides
  have hlies {bar : Box} (h : bar ∈ (Barcode.place x y spec).bars) := Barcode.liesIn_of_mem_bars h
  constructor
  case columns =>
    intro box hbox i
    exact s.takesColumn_iff (hsides box hbox)
  case rows =>
    intro box hbox j
    exact s.takesRow_iff (hsides box hbox)
  case no_others_filled =>
    intro box hbox hcorner ink l hl i j hi hj hcover
    exact Surface.takes_of_mem_fill (hsides box hbox) hcorner hl hi hj hcover
  case filled =>
    intro box hbox hcorner hcolumns hrows ink i j hi hj hcolumn hrow
    exact Surface.exists_mem_fill_of_takes ink (hsides box hbox) hcorner hcolumns hrows hi hj
      hcolumn hrow
  case apart =>
    refine (Barcode.pairwise_bars x y spec).imp_of_mem ?_
    intro a a' ha ha' hle i
    exact Surface.not_takesColumn_of_le hscale (hbars a ha) (hbars a' ha') hle
  case columns_inside =>
    intro bar hbar i
    exact Surface.takesColumn_frame_of_liesIn hscale hframe (hbars bar hbar) (hlies hbar)
  case rows_inside =>
    intro bar hbar j
    exact Surface.takesRow_frame_of_liesIn hscale hframe (hbars bar hbar) (hlies hbar)
      (Barcode.val_bottom_frame x y spec)
  case joined =>
    intro a ha a' ha' htouch i hleft hright
    have hedge : a.x.val + a.width.val = a'.x.val := by
      rw [← (hlies ha).isExact.val_right, htouch]
    rw [(hlies ha').isExact.val_right] at hright
    push_cast at hright
    exact (Surface.takesColumn_or_of_touch hscale (hbars a ha) (hbars a' ha') hedge).mpr
      ⟨hleft, hright⟩

/-- Bars of which the first two touch, at three dots a pixel. -/
theorem bars_seamless_at_three_dots_a_pixel :
    .barcode (Barcode.place 120 400 ⟨'N', 180, 3, 0, "SE1"⟩) ∈
        (layout [⟨120, 400, 1, .barcode ⟨'N', 180, 3, 0, "SE1"⟩⟩]).elements ∧
      0 < (⟨1 / 3, 541, 812⟩ : Surface).scale ∧
      ((Barcode.place 120 400 ⟨'N', 180, 3, 0, "SE1"⟩).bars.map fun bar =>
        (bar.x.val, bar.right.val)).take 2 = [(126, 132), (132, 137)] ∧
      (Barcode.place 120 400 ⟨'N', 180, 3, 0, "SE1"⟩).IsSeamless ⟨1 / 3, 541, 812⟩ :=
  have hb : .barcode (Barcode.place 120 400 ⟨'N', 180, 3, 0, "SE1"⟩) ∈
      (layout [⟨120, 400, 1, .barcode ⟨'N', 180, 3, 0, "SE1"⟩⟩]).elements :=
    List.mem_singleton.mpr rfl
  have hscale : 0 < (⟨1 / 3, 541, 812⟩ : Surface).scale := by norm_num
  ⟨hb, hscale, by decide +kernel, bars_seamless_at_every_scale hb hscale⟩

end LabelPress
