import LabelPress.Picture.BlockFaces
import LabelPress.Proofs.Exact

/-!
# Culled glyphs

Of a run of text the glyphs that cannot reach the canvas are left out (`Canvas.visible`). Where no
length is rounded this is not seen. Advances are not negative, so the pen only moves to the right,
and from the first glyph on that starts right of the canvas all do. So the glyphs that are kept are
those that fulfil a condition of their own (`Face.setBetween_eq_filter`), and leaving out the others
changes no pixel because each of them takes none (`Surface.reaches_of_hits`).

The condition compares the pen with the edges of the canvas, divided by the stretch. That the box
of a glyph lies between the pen and the next position of the pen is all that is needed of a face
(`Face.KeepsToAdvance`), and block faces are so at every size.
-/

namespace LabelPress

/-! ## Faces -/

/-- Whether a glyph moves the pen to the right, past its box if it has one. -/
structure Glyph.KeepsToAdvance (g : Glyph) : Prop where
  advance_nonneg : 0 ≤ g.advance
  width_nonneg : 0 ≤ g.width
  left_nonneg : 0 < g.width → 0 ≤ g.left
  right_le : 0 < g.width → g.left + g.width ≤ g.advance

/-- Whether the glyphs of a face at some size move the pen to the right, past their boxes. -/
def Face.KeepsToAdvance (face : Face) (size : Rat) : Prop :=
  ∀ ch, (face.glyph size ch).KeepsToAdvance

theorem Block.keepsToAdvance {b : Block} (hleft : 0 ≤ b.left) (hwidth : b.left ≤ b.right)
    (hright : b.right ≤ b.advance) {size : Rat} (hsize : 0 ≤ size) :
    (b.glyph size).KeepsToAdvance where
  advance_nonneg := mul_nonneg hsize (by positivity)
  width_nonneg := mul_nonneg hsize (by exact_mod_cast sub_nonneg.mpr hwidth)
  left_nonneg _ := mul_nonneg hsize (by exact_mod_cast hleft)
  right_le _ := by
    have hright' : (b.right : Rat) ≤ b.advance := by exact_mod_cast hright
    simp only [glyph, ← mul_add, Int.cast_sub, add_sub_cancel]
    exact mul_le_mul_of_nonneg_left hright' hsize

theorem keepsToAdvance_blockFaces (typeface : Typeface) {size : Rat} (hsize : 0 ≤ size) :
    (blockFaces typeface).KeepsToAdvance size := by
  intro ch
  cases typeface <;> cases hkind : GlyphKind.ofChar ch <;>
    simp only [blockFaces, Face.ofBlocks, hkind] <;>
    exact Block.keepsToAdvance (by decide) (by decide) (by decide) hsize

namespace Face

variable {face : Face} {size first last pen : Rat} {text : List Char} {g : SetGlyph}

/-- The glyphs of a text are those of the face. -/
theorem KeepsToAdvance.of_mem_setAll {round : Rat → Rat} (hface : face.KeepsToAdvance size)
    (h : g ∈ face.setAll round size pen text) : g.glyph.KeepsToAdvance := by
  induction text generalizing pen with
  | nil => cases h
  | cons ch text ih =>
    rcases List.mem_cons.mp h with rfl | h
    · exact hface ch
    · exact ih h

/-- The pen only moves to the right. -/
theorem KeepsToAdvance.le_pen (hface : face.KeepsToAdvance size)
    (h : g ∈ face.setAll id size pen text) : pen ≤ g.pen := by
  induction text generalizing pen with
  | nil => cases h
  | cons ch text ih =>
    rcases List.mem_cons.mp h with rfl | h
    · exact le_rfl
    · exact (le_add_of_nonneg_right (hface ch).advance_nonneg).trans (ih h)

/-- Setting a text stops at the first glyph that starts too far right. As all glyphs after it start
there or even farther right, the glyphs that are set are told one by one. -/
theorem setBetween_eq_filter (hface : face.KeepsToAdvance size) :
    face.setBetween id size first last pen text =
      (face.setAll id size pen text).filter fun g =>
        first ≤ g.pen + g.glyph.advance ∧ g.pen ≤ last := by
  induction text generalizing pen with
  | nil => rfl
  | cons ch text ih =>
    unfold setBetween
    split
    -- The pen is beyond the limit for good.
    case isTrue hbeyond =>
      refine (List.filter_eq_nil_iff.mpr fun g hg hkeep => ?_).symm
      have hpen := hface.le_pen hg
      exact absurd (of_decide_eq_true hkeep).2 (not_le.mpr (hbeyond.trans_le hpen))
    case isFalse hwithin =>
      have hpen : pen ≤ last := not_lt.mp hwithin
      simp only [setAll, List.filter_cons, decide_eq_true_eq, hpen, and_true, ih, id]

end Face

/-! ## Glyphs on a canvas -/

/-- The layers that a run of text has for a glyph. -/
def Canvas.layGlyph (c : Canvas) (left baseline stretch : Rat) (g : SetGlyph) : List Layer :=
  c.lay (c.glyphLayer left baseline stretch g)

namespace Surface

variable {s : Surface} {left baseline stretch : Rat} {g : SetGlyph}

/-- The columns of a glyph, as far from its start as the pen and its box say, times the stretch. -/
theorem columns_glyphRegion (hwidth : 0 ≤ g.glyph.width) (hstretch : 0 ≤ stretch) :
    (s.exact.glyphRegion left baseline stretch g).columns =
      ⟨left + (g.pen + g.glyph.left) * stretch,
        left + (g.pen + g.glyph.left) * stretch + g.glyph.width * stretch⟩ :=
  if_pos (le_add_of_nonneg_right (mul_nonneg hwidth hstretch))

/-- A glyph that takes a column of the canvas ends at the left edge or right of it, and starts at
the right edge or left of it. -/
theorem reaches_of_hits (hg : g.glyph.KeepsToAdvance) (hstretch : 0 < stretch) {i : Int}
    (hi : 0 ≤ i ∧ i < s.width)
    (hits : (s.exact.glyphRegion left baseline stretch g).columns.hits i) :
    -left / stretch ≤ g.pen + g.glyph.advance ∧ g.pen ≤ (s.width - left) / stretch := by
  rw [columns_glyphRegion hg.width_nonneg hstretch.le] at hits
  obtain ⟨hstart, hstop⟩ := hits
  dsimp only at hstart hstop
  have hwidth : 0 < g.glyph.width :=
    pos_of_mul_pos_left (by linarith : 0 < g.glyph.width * stretch) hstretch.le
  have hpen : g.pen * stretch ≤ (g.pen + g.glyph.left) * stretch :=
    mul_le_mul_of_nonneg_right (le_add_of_nonneg_right (hg.left_nonneg hwidth)) hstretch.le
  have hend : (g.pen + g.glyph.left + g.glyph.width) * stretch ≤
      (g.pen + g.glyph.advance) * stretch :=
    mul_le_mul_of_nonneg_right (by linarith [hg.right_le hwidth]) hstretch.le
  have hfirst : (0 : Rat) ≤ i := by exact_mod_cast hi.1
  have hlast : (i : Rat) + 1 ≤ s.width := by exact_mod_cast hi.2
  rw [div_le_iff₀ hstretch, le_div_iff₀ hstretch]
  constructor <;> linarith

/-- What is painted for a glyph that keeps to its advance lies on the canvas, so the glyph reaches
it. -/
theorem reaches_of_mem_layGlyph (hg : g.glyph.KeepsToAdvance) (hstretch : 0 < stretch) {l : Layer}
    {i j : Int} (hl : l ∈ s.exact.layGlyph left baseline stretch g)
    (hcover : l.figure.coverage i j ≠ 0) :
    -left / stretch ≤ g.pen + g.glyph.advance ∧ g.pen ≤ (s.width - left) / stretch := by
  obtain ⟨hits, hi, -⟩ := hits_of_mem_lay hl hcover
  exact reaches_of_hits hg hstretch hi hits.1

/-- The glyphs of a text that are painted are those that reach the canvas. -/
theorem visible_eq_filter {face : Face} {size : Rat} (hface : face.KeepsToAdvance size)
    (hstretch : TextRun.leastStretch ≤ stretch) (text : List Char) :
    s.exact.visible face size left stretch text =
      (face.setAll s.exact.round size 0 text).filter fun g =>
        -left / stretch ≤ g.pen + g.glyph.advance ∧ g.pen ≤ (s.width - left) / stretch := by
  have hunit : (if stretch ≤ TextRun.leastStretch then TextRun.leastStretch else stretch) =
      stretch := by
    split
    · exact le_antisymm hstretch ‹_›
    · rfl
  unfold Canvas.visible
  rw [hunit]
  exact Face.setBetween_eq_filter hface

end Surface

/-! ## Layers that are left out -/

/-- A pixel is the same with and without the members of a list none of whose layers cover it. -/
theorem foldl_over_flatMap_filter {α : Type} {gs : List α} {p : α → Bool} {f : α → List Layer}
    {i j : Int} (h : ∀ g ∈ gs, ¬p g → ∀ l ∈ f g, l.figure.coverage i j = 0) (grey : Rat) :
    ((gs.filter p).flatMap f).foldl (fun grey layer => layer.over i j grey) grey =
      (gs.flatMap f).foldl (fun grey layer => layer.over i j grey) grey := by
  induction gs generalizing grey with
  | nil => rfl
  | cons g gs ih =>
    have ih := ih fun g hg => h g (List.mem_cons_of_mem _ hg)
    rw [List.flatMap_cons, List.foldl_append, List.filter_cons]
    split
    case isTrue => rw [List.flatMap_cons, List.foldl_append, ih]
    case isFalse hp =>
      rw [ih, foldl_over_of_coverage_eq_zero (h g List.mem_cons_self hp)]

/-! ## Texts -/

/-- Whether the glyphs of a text that are painted on a surface without rounding show what all its
glyphs would show. -/
structure Surface.CullsUnseen (s : Surface) (left baseline stretch : Rat)
    (all visible : List SetGlyph) : Prop where
  /-- A glyph has the columns whose middle lies between the edges of its box, the right one
  included. -/
  columns : ∀ g ∈ all, ∀ i : Int,
    (s.exact.glyphRegion left baseline stretch g).columns.hits i ↔
      left + (g.pen + g.glyph.left) * stretch < (i : Rat) + 1 / 2 ∧
        (i : Rat) + 1 / 2 ≤
          left + (g.pen + g.glyph.left) * stretch + g.glyph.width * stretch
  /-- No other pixels are painted for it, and none beside the surface. -/
  no_others_painted : ∀ g ∈ all, ∀ l ∈ s.exact.layGlyph left baseline stretch g, ∀ i j : Int,
    l.figure.coverage i j ≠ 0 → (s.exact.glyphRegion left baseline stretch g).hits i j ∧
      (0 ≤ i ∧ i < s.width) ∧ 0 ≤ j ∧ j < s.height
  /-- These pixels are painted, unless the box is too thin or too far away. -/
  painted : ∀ g ∈ all, (s.exact.glyphRegion left baseline stretch g).columns.IsModerate →
    (s.exact.glyphRegion left baseline stretch g).rows.IsModerate →
    ∀ i j : Nat, i < s.width → j < s.height →
      (s.exact.glyphRegion left baseline stretch g).hits i j →
        ∃ l ∈ s.exact.layGlyph left baseline stretch g, l.Hides i j
  /-- Every column of the surface has the same glyphs with and without those left out. -/
  same_glyphs : ∀ i : Int, 0 ≤ i → i < s.width →
    visible.filter (fun g => (s.exact.glyphRegion left baseline stretch g).columns.hits i) =
      all.filter fun g => (s.exact.glyphRegion left baseline stretch g).columns.hits i
  /-- The same pixels are painted. -/
  same_pixels : ∀ i j : Int,
    (∃ l ∈ visible.flatMap (s.exact.layGlyph left baseline stretch), l.figure.coverage i j ≠ 0) ↔
      ∃ l ∈ all.flatMap (s.exact.layGlyph left baseline stretch), l.figure.coverage i j ≠ 0
  /-- They get the same grey, whatever grey they had. -/
  same_greys : ∀ (i j : Int) (grey : Rat),
    (visible.flatMap (s.exact.layGlyph left baseline stretch)).foldl
        (fun grey layer => layer.over i j grey) grey =
      (all.flatMap (s.exact.layGlyph left baseline stretch)).foldl
        (fun grey layer => layer.over i j grey) grey

/-- Leaving out the glyphs of a text that cannot reach the canvas is not seen, whatever the size of
the text, where it starts and how wide the canvas is. -/
theorem culled_glyphs_unseen {face : Face} {size stretch : Rat} (hface : face.KeepsToAdvance size)
    (hstretch : TextRun.leastStretch ≤ stretch) (s : Surface) (left baseline : Rat)
    (text : List Char) :
    s.CullsUnseen left baseline stretch (face.setAll s.exact.round size 0 text)
      (s.exact.visible face size left stretch text) := by
  have hpos : 0 < stretch := (by norm_num [TextRun.leastStretch] :
    0 < TextRun.leastStretch).trans_le hstretch
  have hkeeps {g : SetGlyph} (hg : g ∈ face.setAll s.exact.round size 0 text) :
      g.glyph.KeepsToAdvance := hface.of_mem_setAll hg
  rw [Surface.visible_eq_filter hface hstretch]
  constructor
  case columns =>
    intro g hg i
    rw [Surface.columns_glyphRegion (hkeeps hg).width_nonneg hpos.le]
    rfl
  case no_others_painted =>
    intro g hg l hl i j hcover
    exact Surface.hits_of_mem_lay hl hcover
  case painted =>
    intro g hg hcolumns hrows i j hi hj hits
    exact Surface.exists_mem_lay_of_hits .black hcolumns hrows hits hi hj
  case same_glyphs =>
    intro i hfirst hlast
    rw [List.filter_filter]
    refine List.filter_congr fun g hg => ?_
    rw [Bool.and_eq_left_iff_imp, decide_eq_true_eq, decide_eq_true_eq]
    exact Surface.reaches_of_hits (hkeeps hg) hpos ⟨hfirst, hlast⟩
  case same_pixels =>
    intro i j
    constructor
    · rintro ⟨l, hl, hcover⟩
      obtain ⟨g, hg, hl⟩ := List.mem_flatMap.mp hl
      exact ⟨l, List.mem_flatMap.mpr ⟨g, List.mem_of_mem_filter hg, hl⟩, hcover⟩
    · rintro ⟨l, hl, hcover⟩
      obtain ⟨g, hg, hl⟩ := List.mem_flatMap.mp hl
      have hreach := Surface.reaches_of_mem_layGlyph (hkeeps hg) hpos hl hcover
      exact ⟨l, List.mem_flatMap.mpr
        ⟨g, List.mem_filter.mpr ⟨hg, decide_eq_true hreach⟩, hl⟩, hcover⟩
  case same_greys =>
    intro i j
    refine foldl_over_flatMap_filter fun g hg hculled l hl => ?_
    by_contra hcover
    exact hculled (decide_eq_true (Surface.reaches_of_mem_layGlyph (hkeeps hg) hpos hl hcover))

/-- Of five glyphs the first one ends left of the canvas and the last one starts right of it. -/
theorem culled_glyphs_unseen_in_the_middle :
    (blockFaces .regular).KeepsToAdvance 40 ∧ TextRun.leastStretch ≤ 1 ∧
      (Surface.exact ⟨1, 200, 120⟩).visible (blockFaces .regular) 40 (-100) 1
          ['H', 'H', 'H', 'H', 'H'] =
        ((blockFaces .regular).setAll id 40 0 ['H', 'H', 'H', 'H', 'H']).tail.dropLast ∧
      Surface.CullsUnseen ⟨1, 200, 120⟩ (-100) 60 1
        ((blockFaces .regular).setAll id 40 0 ['H', 'H', 'H', 'H', 'H'])
        ((Surface.exact ⟨1, 200, 120⟩).visible (blockFaces .regular) 40 (-100) 1
          ['H', 'H', 'H', 'H', 'H']) :=
  have hface : (blockFaces .regular).KeepsToAdvance 40 :=
    keepsToAdvance_blockFaces .regular (by norm_num)
  have hstretch : TextRun.leastStretch ≤ 1 := by norm_num [TextRun.leastStretch]
  ⟨hface, hstretch, by decide +kernel,
    culled_glyphs_unseen hface hstretch ⟨1, 200, 120⟩ (-100) 60 ['H', 'H', 'H', 'H', 'H']⟩

end LabelPress
