import LabelPress.Proofs.Hiding

/-!
# Painting without rounding

On a canvas that rounds no length (`Surface.exact`), the edges of a box in pixels are its edges in
dots times the scale. A box that is filled takes the columns whose middle lies to the right of its
left edge and not beyond its right one (`Surface.takesColumn_iff`), and rows alike.

What is laid on such a canvas keeps to this rule and to the surface. A tile sees a region as far
from its corner as it is, so what it shows of the region are pixels of the region
(`Surface.hits_of_mem_lay`), and every pixel of it on the surface is on a tile that shows it
(`Surface.exists_mem_lay_of_hits`). Where a dot is a pixel, boxes are counted in pixels, and a box
of pixels is the box itself unless it starts left of the first column or above the first row
(`PixelBox.hits_of_rounded?`, `PixelBox.rounded?_eq`).

That a pixel is painted needs a region that is neither too thin nor too far away to be filled
(`Span.IsModerate`). That no other pixel is painted needs no such thing.
-/

namespace LabelPress

/-! ## Spans -/

namespace Span

variable {s t : Span} {i : Int}

theorem hits_mono (hstart : t.start ≤ s.start) (hstop : s.stop ≤ t.stop) (h : s.hits i) :
    t.hits i :=
  ⟨hstart.trans_lt h.1, h.2.trans hstop⟩

/-- No pixel has its centre in two spans that follow each other. -/
theorem not_hits_of_stop_le (h : s.stop ≤ t.start) : ¬(s.hits i ∧ t.hits i) :=
  fun hits => absurd (hits.1.2.trans h) (not_le.mpr hits.2.1)

/-- The pixels of a span that is cut in two are those of the two parts. -/
theorem hits_cut_iff {a b c : Rat} (hab : a ≤ b) (hbc : b ≤ c) :
    hits ⟨a, c⟩ i ↔ hits ⟨a, b⟩ i ∨ hits ⟨b, c⟩ i := by
  constructor
  · intro h
    rcases le_or_gt ((i : Rat) + 1 / 2) b with hb | hb
    · exact .inl ⟨h.1, hb⟩
    · exact .inr ⟨hb, h.2⟩
  · rintro (h | h)
    · exact ⟨h.1, h.2.trans hbc⟩
    · exact ⟨hab.trans_lt h.1, h.2⟩

end Span

theorem Figure.hits_of_coverage_ne_zero {r : Region} {i j : Int}
    (h : (solid r).coverage i j ≠ 0) : r.hits i j := by
  by_contra hits
  exact h (if_neg hits)

/-- Opaque ink hides every pixel that it is laid on. -/
theorem Layer.hides_of_hits {ink : Ink} {r : Region} {i j : Int} (h : r.hits i j) :
    Layer.Hides ⟨ink, 1, .solid r⟩ i j := by
  rw [Layer.Hides, Figure.coverage, if_pos h, one_mul]

/-- Whether a span of pixels is long enough to be filled, with ends where whole numbers and halves
are single. -/
def Span.IsModerate (s : Span) : Prop :=
  -8388608 ≤ s.start ∧ s.stop ≤ 8388608 ∧ 1 / 2048 ≤ s.stop - s.start

theorem Span.IsModerate.stop_le {m n : Int} (h : IsModerate ⟨m, n⟩) : n ≤ 8388608 := by
  have hstop : (n : Rat) ≤ 8388608 := h.2.1
  exact_mod_cast hstop

/-! ## Tiles -/

/-- A piece of a length ends within it. -/
theorem Tile.add_le_of_mem_cut {length : Nat} {piece : Nat × Nat} (h : piece ∈ cut length) :
    piece.1 + piece.2 ≤ length := by
  obtain ⟨n, hn, rfl⟩ := List.mem_map.mp h
  have hn := List.mem_range.mp hn
  simp only [longest] at hn ⊢
  omega

/-- The tiles of a surface lie on it. -/
theorem Surface.bounds_of_mem_tiles {s : Surface} {t : Tile} (h : t ∈ s.tiles) :
    t.left + t.width ≤ s.width ∧ t.top + t.height ≤ s.height := by
  obtain ⟨rows, hrows, ht⟩ := List.mem_flatMap.mp h
  obtain ⟨columns, hcolumns, rfl⟩ := List.mem_map.mp ht
  exact ⟨Tile.add_le_of_mem_cut hcolumns, Tile.add_le_of_mem_cut hrows⟩

/-- A moderate span with a pixel ahead of a place is filled as it is seen from there. -/
theorem Span.IsModerate.seen {s : Span} {start i : Nat} (h : s.IsModerate) (hi : s.hits i)
    (hstart : start ≤ i) :
    Fill.allows id ⟨s.start + -start, s.stop + -start⟩ ∧
      Span.IsCountable ⟨s.start + -start, s.stop + -start⟩ ∧
      Span.hits ⟨s.start + -start, s.stop + -start⟩ (i - start) := by
  obtain ⟨hlow, hhigh, hlength⟩ := h
  obtain ⟨hleft, hright⟩ := hi
  have hstart' : (start : Rat) ≤ i := by exact_mod_cast hstart
  have hnonneg : (0 : Rat) ≤ start := by positivity
  have hfarthest : (16777216 : Rat) ≤ Fill.farthest := by
    norm_num [Fill.farthest, Single.greatest]
  have hfarthest' : ((PixelBox.farthest : Int) : Rat) = 2147483520 := rfl
  have hleast : Fill.least < 1 / 2048 := by norm_num [Fill.least]
  rw [Int.cast_natCast] at hleft hright
  refine ⟨⟨?_, ?_, ?_⟩, ⟨?_, ?_⟩, ?_, ?_⟩
  · simp only [id]
    linarith
  all_goals
    push_cast
    linarith

/-- What is kept of a span that is seen from a place on a length has pixels of the span alone, and
none beyond the piece it is kept on. -/
theorem Span.of_hits_shift_limit {s : Span} {start length : Nat} {i : Int}
    (h : ((Span.limit ⟨s.start + -start, s.stop + -start⟩ 0 length).shift start).hits i) :
    s.hits i ∧ (start : Int) ≤ i ∧ i < start + length := by
  obtain ⟨hleft, hright⟩ := h
  simp only [shift, limit] at hleft hright
  have hstart : (start : Rat) < (i + 1 : Int) := by
    push_cast
    split at hleft <;> linarith
  have hstop : (i : Rat) < (start + length : Int) := by
    push_cast
    split at hright <;> linarith
  refine ⟨⟨?_, ?_⟩, by exact_mod_cast Int.lt_add_one_iff.mp (by exact_mod_cast hstart),
    by exact_mod_cast hstop⟩
  · split at hleft <;> linarith
  · split at hright <;> linarith

/-- What a tile shows of a region without smoothing is the part of the region on it. -/
theorem Tile.eq_place_of_show? {t : Tile} {round : Rat → Rat} {r : Region} {figure : Figure}
    (h : t.show? round (.solid r) = some figure) : figure = .solid (t.place r) := by
  unfold show? at h
  split at h
  · obtain ⟨box, -, hbox⟩ := Option.bind_eq_some_iff.mp h
    split at hbox
    · exact (Option.some.inj hbox).symm
    · cases hbox
  · cases h

/-! ## Boxes of pixels -/

namespace PixelBox

/-- From the first pixel on, the whole part of the middle of a pixel is the pixel's number. -/
theorem middle_intCast {n : Int} (hn : 0 ≤ n) : middle id n = min n farthest := by
  have hlow : n ≤ Single.towardZero ((n : Rat) + 1 / 2) := Single.le_towardZero (by linarith)
  have hhigh : Single.towardZero ((n : Rat) + 1 / 2) ≤ n := Single.towardZero_le (by linarith) hn
  simp only [middle, id, Rat.floor_intCast, whole, farthest]
  omega

/-- A span of dots from the first pixel on, counted in pixels, has its own pixels alone. -/
theorem hits_of_middle {start length i : Int} (hstart : 0 ≤ start) (hlength : 1 ≤ length)
    (hi : i < 2147483520)
    (h : Span.hits ⟨middle id start, (middle id start + max 1 (middle id length) : Int)⟩ i) :
    Span.hits ⟨start, start + length⟩ i := by
  rw [middle_intCast hstart, middle_intCast (by omega), Span.hits_intCast_iff, farthest] at h
  rw [← Int.cast_add, Span.hits_intCast_iff]
  omega

/-- A box of dots right of the corner and below it, counted in pixels, has its own pixels alone. -/
theorem hits_of_rounded? {left top width height i j : Int} {box : PixelBox} (hleft : 0 ≤ left)
    (htop : 0 ≤ top) (hwidth : 1 ≤ width) (hheight : 1 ≤ height)
    (hbox : rounded? id ⟨⟨left, left + width⟩, ⟨top, top + height⟩⟩ = some box)
    (hi : i < 2147483520) (hj : j < 2147483520) (h : box.region.hits i j) :
    Region.hits ⟨⟨left, left + width⟩, ⟨top, top + height⟩⟩ i j := by
  simp only [rounded?, id, add_sub_cancel_left, ofCorner?, Option.ite_none_right_eq_some,
    Option.some.injEq] at hbox
  obtain ⟨-, rfl⟩ := hbox
  exact ⟨hits_of_middle hleft hwidth hi h.1, hits_of_middle htop hheight hj h.2⟩

/-- A box of dots right of the corner and below it, if it is not far out, is its own box of
pixels. -/
theorem rounded?_eq {left top width height : Int} (hleft : 0 ≤ left) (htop : 0 ≤ top)
    (hwidth : 1 ≤ width) (hheight : 1 ≤ height) (hright : left + width ≤ 8388608)
    (hbottom : top + height ≤ 8388608) :
    rounded? id ⟨⟨left, left + width⟩, ⟨top, top + height⟩⟩ =
      some ⟨left, top, left + width, top + height⟩ := by
  have hmiddle {n : Int} (hn : 0 ≤ n) (hfar : n ≤ 8388608) : middle id n = n := by
    rw [middle_intCast hn, min_eq_left (by simp only [farthest]; omega)]
  simp only [rounded?, id, add_sub_cancel_left]
  rw [hmiddle hleft (by omega), hmiddle htop (by omega), hmiddle (by omega) (by omega),
    hmiddle (by omega) (by omega), max_eq_right hwidth, max_eq_right hheight]
  exact if_pos (by simp only [Dot.greatest]; omega)

end PixelBox

/-! ## Canvases without rounding -/

/-- A surface as a canvas on which no length is rounded. -/
def Surface.exact (s : Surface) : Canvas := ⟨s, id, .sampled⟩

namespace Canvas

/-- Whether a box that is filled takes a column: the middle of the column lies between the edges
of the box, the left one left out. -/
def TakesColumn (c : Canvas) (b : Box) (i : Int) : Prop :=
  ∃ dots, c.dots? b = some dots ∧ (c.scaleRegion dots).columns.hits i

/-- Whether a box that is filled takes a row. -/
def TakesRow (c : Canvas) (b : Box) (j : Int) : Prop :=
  ∃ dots, c.dots? b = some dots ∧ (c.scaleRegion dots).rows.hits j

end Canvas

namespace Surface

variable (s : Surface) {b : Box} {i j : Int}

section
variable (hb : 1 ≤ b.width.val ∧ 1 ≤ b.height.val)
include hb

theorem dots?_exact : s.exact.dots? b =
    some ⟨⟨b.x.val, b.x.val + b.width.val⟩, ⟨b.y.val, b.y.val + b.height.val⟩⟩ := by
  have hwidth : (0 : Rat) ≤ b.width.val := by exact_mod_cast Int.le_of_lt hb.1
  have hheight : (0 : Rat) ≤ b.height.val := by exact_mod_cast Int.le_of_lt hb.2
  exact if_pos ⟨le_add_of_nonneg_right hwidth, le_add_of_nonneg_right hheight⟩

theorem takesColumn_iff : s.exact.TakesColumn b i ↔
    Span.hits ⟨b.x.val * s.scale, (b.x.val + b.width.val) * s.scale⟩ i := by
  rw [Canvas.TakesColumn, s.dots?_exact hb]
  simp only [Option.some.injEq, exists_eq_left']
  rfl

theorem takesRow_iff : s.exact.TakesRow b j ↔
    Span.hits ⟨b.y.val * s.scale, (b.y.val + b.height.val) * s.scale⟩ j := by
  rw [Canvas.TakesRow, s.dots?_exact hb]
  simp only [Option.some.injEq, exists_eq_left']
  rfl

end

variable {s}

/-- What a tile shows of a region on it are pixels of the region. -/
theorem hits_of_show? {t : Tile} {r : Region} {figure : Figure}
    (h : t.show? s.exact.round (.solid (s.exact.view t r)) = some figure)
    (hcover : figure.coverage i j ≠ 0) :
    r.hits i j ∧ (t.left ≤ i ∧ i < t.left + t.width) ∧ t.top ≤ j ∧ j < t.top + t.height := by
  rw [Tile.eq_place_of_show? h] at hcover
  have hits := Figure.hits_of_coverage_ne_zero hcover
  obtain ⟨hi, hcolumn⟩ := Span.of_hits_shift_limit hits.1
  obtain ⟨hj, hrow⟩ := Span.of_hits_shift_limit hits.2
  exact ⟨⟨hi, hj⟩, hcolumn, hrow⟩

/-- The pixels that tiles show of a region are pixels of the region, and on the surface. -/
theorem hits_of_mem_lay {ink : Ink} {opacity : Rat} {r : Region} {l : Layer}
    (h : l ∈ s.exact.lay ⟨ink, opacity, .solid r⟩) (hcover : l.figure.coverage i j ≠ 0) :
    r.hits i j ∧ (0 ≤ i ∧ i < s.width) ∧ 0 ≤ j ∧ j < s.height := by
  obtain ⟨t, ht, hshow⟩ := List.mem_filterMap.mp h
  obtain ⟨figure, hfigure, rfl⟩ := Option.map_eq_some_iff.mp hshow
  obtain ⟨hits, hcolumn, hrow⟩ := hits_of_show? hfigure hcover
  have hbounds : t.left + t.width ≤ s.width ∧ t.top + t.height ≤ s.height := bounds_of_mem_tiles ht
  exact ⟨hits, by omega, by omega⟩

/-- The pixels of the surface that are filled for a box are those that the box takes. Where a dot is
a pixel, this is said of boxes right of and below the corner alone. -/
theorem takes_of_mem_fill {ink : Ink} {l : Layer} {i j : Nat}
    (hb : 1 ≤ b.width.val ∧ 1 ≤ b.height.val)
    (hcorner : s.scale = 1 ∧ ¬s.isCut → 0 ≤ b.x.val ∧ 0 ≤ b.y.val) (h : l ∈ s.exact.fill ink b)
    (hi : i < s.width) (hj : j < s.height) (hcover : l.figure.coverage i j ≠ 0) :
    s.exact.TakesColumn b i ∧ s.exact.TakesRow b j := by
  have hdots := s.dots?_exact hb
  unfold Canvas.fill at h
  rw [hdots] at h
  dsimp only at h
  split at h
  · rename_i hone
    have hone : s.scale = 1 ∧ ¬s.isCut := hone
    obtain ⟨hx, hy⟩ := hcorner hone
    have hlongest : s.width ≤ 8191 ∧ s.height ≤ 8191 := by
      simpa only [isCut, Tile.longest, not_or, not_lt] using hone.2
    obtain ⟨box, hbox, rfl⟩ := List.mem_map.mp h
    have hits := PixelBox.hits_of_rounded? hx hy hb.1 hb.2 (Option.mem_toList.mp hbox)
      (by omega) (by omega) (Figure.hits_of_coverage_ne_zero hcover)
    rw [s.takesColumn_iff hb, s.takesRow_iff hb, hone.1]
    simpa only [mul_one, Region.hits] using hits
  · obtain ⟨hits, -⟩ := hits_of_mem_lay h hcover
    exact ⟨⟨_, hdots, hits.1⟩, ⟨_, hdots, hits.2⟩⟩

/-- A layer is laid on every pixel of the surface that its region has. -/
theorem exists_mem_lay_of_hits (ink : Ink) {r : Region} {i j : Nat}
    (hcolumns : r.columns.IsModerate) (hrows : r.rows.IsModerate) (hits : r.hits i j)
    (hi : i < s.width) (hj : j < s.height) :
    ∃ l ∈ s.exact.lay ⟨ink, 1, .solid r⟩, l.Hides i j := by
  obtain ⟨t, ht, hti, htj⟩ := s.exists_mem_tiles hi hj
  obtain ⟨hallowsx, hx, hitsx⟩ := hcolumns.seen hits.1 hti.1
  obtain ⟨hallowsy, hy, hitsy⟩ := hrows.seen hits.2 htj.1
  have hallows : Fill.allows s.exact.round (s.exact.view t r).columns ∧
      Fill.allows s.exact.round (s.exact.view t r).rows := ⟨hallowsx, hallowsy⟩
  have hits' : (s.exact.view t r).hits (i - t.left) (j - t.top) := ⟨hitsx, hitsy⟩
  obtain ⟨region, hshow, hregion⟩ := Tile.exists_show?_of_hits hallows hx hy hits' hti htj
  refine ⟨⟨ink, 1, .solid region⟩, List.mem_filterMap.mpr ⟨t, ht, ?_⟩, Layer.hides_of_hits hregion⟩
  exact Option.map_eq_some_iff.mpr ⟨_, hshow, rfl⟩

/-- The pixels of the surface that a box takes are filled for it, if its sides are moderate. -/
theorem exists_mem_fill_of_takes (ink : Ink) {i j : Nat}
    (hb : 1 ≤ b.width.val ∧ 1 ≤ b.height.val)
    (hcorner : s.scale = 1 ∧ ¬s.isCut → 0 ≤ b.x.val ∧ 0 ≤ b.y.val)
    (hcolumns : Span.IsModerate ⟨b.x.val * s.scale, (b.x.val + b.width.val) * s.scale⟩)
    (hrows : Span.IsModerate ⟨b.y.val * s.scale, (b.y.val + b.height.val) * s.scale⟩)
    (hi : i < s.width) (hj : j < s.height) (hcolumn : s.exact.TakesColumn b i)
    (hrow : s.exact.TakesRow b j) :
    ∃ l ∈ s.exact.fill ink b, l.Hides i j := by
  rw [s.takesColumn_iff hb] at hcolumn
  rw [s.takesRow_iff hb] at hrow
  unfold Canvas.fill
  rw [s.dots?_exact hb]
  dsimp only
  split
  · rename_i hone
    have hone : s.scale = 1 ∧ ¬s.isCut := hone
    obtain ⟨hx, hy⟩ := hcorner hone
    simp only [hone.1, mul_one, ← Int.cast_add] at hcolumn hrow hcolumns hrows
    have hbox := PixelBox.rounded?_eq hx hy hb.1 hb.2 hcolumns.stop_le
      hrows.stop_le
    exact ⟨_, List.mem_map.mpr ⟨_, Option.mem_toList.mpr hbox, rfl⟩,
      Layer.hides_of_hits ⟨hcolumn, hrow⟩⟩
  · have hits : Region.hits ⟨_, _⟩ i j := ⟨hcolumn, hrow⟩
    exact exists_mem_lay_of_hits ink hcolumns hrows hits hi hj

end Surface

end LabelPress
