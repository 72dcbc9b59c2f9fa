import LabelPress.Picture
import Mathlib.Algebra.Order.Field.Rat
import Mathlib.Order.Interval.Set.Defs
import Mathlib.Tactic.Linarith
import Mathlib.Tactic.NormNum
import Mathlib.Tactic.Positivity

/-!
# What a layer hides

Every layer of a picture hides a part of what is below it, and that part is never less than nothing
nor more than all of it (`Layer.IsSheer`). Its figure covers each pixel by a part between zero and
one (`Figure.coverage_mem`), so it is the opacity that has to be looked at.

Most layers are opaque or of the opacity they are drawn with. A hairline is fainter: it is faded
by its thickness in pixels, which is at most one and, if rounding keeps the sign, not below zero
(`Hairline.fade_mem`), and it is divided between the two pixels it lies on, in 255ths
(`Hairline.part_mem_of_mem_regions`). So all layers of a picture are sheer
(`Canvas.isSheer_of_mem_paint`), and those of a rule or a text are also black
(`Canvas.darkens_of_mem_rule`, `Canvas.darkens_of_mem_text`).
-/

namespace LabelPress

/-! ## Coverage -/

/-- Parts of parts lie between nothing and all. -/
theorem mul_mem_Icc {a b : Rat} (ha : a ∈ Set.Icc (0 : Rat) 1) (hb : b ∈ Set.Icc (0 : Rat) 1) :
    a * b ∈ Set.Icc (0 : Rat) 1 :=
  ⟨mul_nonneg ha.1 hb.1, mul_le_one₀ ha.2 hb.1 hb.2⟩

theorem div_255_mem_Icc {n : Int} (hlow : 0 ≤ n) (hhigh : n ≤ 255) :
    (n : Rat) / 255 ∈ Set.Icc (0 : Rat) 1 := by
  have hlow' : (0 : Rat) ≤ n := by exact_mod_cast hlow
  have hhigh' : (n : Rat) ≤ 255 := by exact_mod_cast hhigh
  exact ⟨by positivity, (div_le_one (by norm_num)).mpr hhigh'⟩

theorem Span.overlap_mem (s : Span) (i : Int) : s.overlap i ∈ Set.Icc (0 : Rat) 1 := by
  unfold overlap
  dsimp only
  split_ifs <;> constructor <;> linarith

theorem Region.overlap_mem (r : Region) (i j : Int) : r.overlap i j ∈ Set.Icc (0 : Rat) 1 :=
  mul_mem_Icc (r.columns.overlap_mem i) (r.rows.overlap_mem j)

/-- A figure covers a part of a pixel between nothing and all of it. -/
theorem Figure.coverage_mem (f : Figure) (i j : Int) : f.coverage i j ∈ Set.Icc (0 : Rat) 1 := by
  cases f with
  | solid r =>
    rw [coverage]
    split <;> norm_num
  | smooth r => exact r.overlap_mem i j
  | ring outer inner =>
    have houter := outer.overlap_mem i j
    have hinner := inner.overlap_mem i j
    rw [coverage]
    split
    · constructor <;> linarith [houter.2, hinner.1]
    · norm_num

/-! ## Layers -/

namespace Layer

/-- Whether a layer hides no less than nothing and no more than all of what it covers. -/
def IsSheer (l : Layer) : Prop := l.opacity ∈ Set.Icc (0 : Rat) 1

/-- Whether a layer is sheer and of black ink. -/
def Darkens (l : Layer) : Prop := l.ink = .black ∧ l.IsSheer

/-- The part of a pixel that a sheer layer hides. -/
theorem IsSheer.part_mem {l : Layer} (h : l.IsSheer) (i j : Int) :
    l.opacity * l.figure.coverage i j ∈ Set.Icc (0 : Rat) 1 :=
  mul_mem_Icc h (l.figure.coverage_mem i j)

end Layer

/-! ## Hairlines -/

theorem Single.roundAway_mem {q : Rat} {n : Int} (hq : 0 ≤ q) (hqn : q ≤ n) :
    0 ≤ roundAway q ∧ roundAway q ≤ n := by
  rw [roundAway, if_pos hq]
  constructor
  · exact Rat.le_floor_iff.mpr (by push_cast; linarith)
  · exact Int.lt_add_one_iff.mp (Rat.floor_lt_iff.mpr (by push_cast; linarith))

namespace Hairline

/-- A line of at most one pixel is not fainter than nothing, nor stronger than a thick one. -/
theorem fade_mem {opacity thickness : Rat} (hopacity : opacity ∈ Set.Icc (0 : Rat) 1)
    (hthickness : thickness ∈ Set.Icc (0 : Rat) 1) :
    fade opacity thickness ∈ Set.Icc (0 : Rat) 1 := by
  unfold fade
  split
  · exact hopacity
  · have hlow : 0 ≤ (256 * thickness).floor :=
      Rat.le_floor_iff.mpr (by push_cast; linarith [hthickness.1])
    have hhigh : (256 * thickness).floor ≤ 256 := by
      have hle : ((256 * thickness).floor : Rat) ≤ 256 :=
        (Rat.floor_le _).trans (by linarith [hthickness.2])
      exact_mod_cast hle
    dsimp only
    have hpart : 0 ≤ 255 * (256 * thickness).floor / 256 := by omega
    have hpart' : 255 * (256 * thickness).floor / 256 ≤ 255 := by omega
    generalize 255 * (256 * thickness).floor / 256 = part at hpart hpart'
    have hcast : (0 : Rat) ≤ part := by exact_mod_cast hpart
    have hcast' : (part : Rat) ≤ (255 : Int) := by exact_mod_cast hpart'
    obtain ⟨hnonneg, hle⟩ := Single.roundAway_mem (mul_nonneg hopacity.1 hcast)
      ((mul_le_of_le_one_left hcast hopacity.2).trans hcast')
    exact div_255_mem_Icc hnonneg hle

theorem Piece.part_le_of_mem_lanes {p : Piece} {axis : Axis} {level : Int} {lane : Int × Int}
    (h : lane ∈ p.lanes axis level) : lane.2 ≤ 255 := by
  unfold lanes at h
  dsimp only at h
  split at h
  · cases axis <;> simp only [List.mem_cons, List.not_mem_nil, or_false] at h <;>
      rcases h with rfl | rfl <;> dsimp only <;> omega
  · simp only [List.mem_cons, List.not_mem_nil, or_false] at h
    rcases h with rfl | rfl <;> dsimp only <;> omega

/-- What a line covers of the pixels beside it is counted from zero to 255. -/
theorem part_mem_of_mem_regions {t : Tile} {s : Segment} {part : Int × Region}
    (h : part ∈ regions t s) : 0 ≤ part.1 ∧ part.1 ≤ 255 := by
  simp only [regions, List.mem_flatMap, List.mem_map, List.mem_filter, Bool.and_eq_true,
    decide_eq_true_eq] at h
  obtain ⟨p, -, band, -, lane, ⟨hlane, -, hpos⟩, rfl⟩ := h
  exact ⟨hpos.le, Piece.part_le_of_mem_lanes hlane⟩

theorem darkens_of_mem_layers {t : Tile} {opacity : Rat} {s : Segment} {l : Layer}
    (hopacity : opacity ∈ Set.Icc (0 : Rat) 1) (h : l ∈ layers t opacity s) : l.Darkens := by
  obtain ⟨part, hpart, rfl⟩ := List.mem_map.mp h
  obtain ⟨hlow, hhigh⟩ := part_mem_of_mem_regions hpart
  exact ⟨rfl, mul_mem_Icc hopacity (div_255_mem_Icc hlow hhigh)⟩

end Hairline

/-! ## What is painted -/

namespace Canvas

section
variable {c : Canvas} {l m : Layer}

/-- What tiles show of a layer has its ink and its opacity. -/
theorem eq_of_mem_lay (h : m ∈ c.lay l) : m.ink = l.ink ∧ m.opacity = l.opacity := by
  obtain ⟨t, -, ht⟩ := List.mem_filterMap.mp h
  obtain ⟨figure, -, rfl⟩ := Option.map_eq_some_iff.mp ht
  exact ⟨rfl, rfl⟩

theorem isSheer_of_mem_lay (hl : l.IsSheer) (h : m ∈ c.lay l) : m.IsSheer := by
  rw [Layer.IsSheer, (eq_of_mem_lay h).2]
  exact hl

theorem darkens_of_mem_lay (hl : l.Darkens) (h : m ∈ c.lay l) : m.Darkens :=
  ⟨(eq_of_mem_lay h).1.trans hl.1, isSheer_of_mem_lay hl.2 h⟩

theorem darkens_of_mem_hairlines {opacity : Rat} {r : Region} {lines : Region → List Segment}
    (hopacity : opacity ∈ Set.Icc (0 : Rat) 1) (h : l ∈ c.hairlines opacity r lines) :
    l.Darkens := by
  obtain ⟨t, -, ht⟩ := List.mem_flatMap.mp h
  dsimp only at ht
  split at ht
  · obtain ⟨s, -, hs⟩ := List.mem_flatMap.mp ht
    exact Hairline.darkens_of_mem_layers hopacity hs
  · simp at ht

theorem isSheer_of_mem_fill {ink : Ink} {b : Box} (h : l ∈ c.fill ink b) : l.IsSheer := by
  have hfull (figure : Figure) : Layer.IsSheer ⟨ink, 1, figure⟩ := ⟨zero_le_one, le_rfl⟩
  unfold fill at h
  split at h
  · simp at h
  · split at h
    · obtain ⟨box, -, rfl⟩ := List.mem_map.mp h
      exact hfull _
    · exact isSheer_of_mem_lay (hfull _) h

theorem darkens_of_mem_stroke {line : Stroke} (h : l ∈ c.stroke line) : l.Darkens := by
  obtain ⟨j, -, hj⟩ := List.mem_flatMap.mp h
  obtain ⟨i, -, hi⟩ := List.mem_filterMap.mp hj
  dsimp only at hi
  split at hi
  · cases hi
  · obtain rfl := Option.some.inj hi
    exact ⟨rfl, Share.nonneg _, Share.le_one _⟩

theorem darkens_of_mem_text {face : Face} {run : TextRun} (h : l ∈ c.text face run) :
    l.Darkens := by
  unfold text at h
  split at h
  · dsimp only at h
    split at h
    · simp at h
    · obtain ⟨g, -, hg⟩ := List.mem_flatMap.mp h
      exact darkens_of_mem_lay ⟨rfl, zero_le_one, le_rfl⟩ hg
  · simp at h

end

section
variable {c : Canvas} (hround : ∀ q, 0 ≤ q → 0 ≤ c.round q) (hscale : 0 ≤ c.scale) {l : Layer}
include hround hscale

theorem hairline?_mem {opacity thickness faint : Rat} (hopacity : opacity ∈ Set.Icc (0 : Rat) 1)
    (hthickness : 0 ≤ thickness) (h : c.hairline? opacity thickness = some faint) :
    faint ∈ Set.Icc (0 : Rat) 1 := by
  unfold hairline? at h
  split at h
  · cases h
  · rename_i hthin
    obtain rfl := Option.some.inj h
    split
    · exact hopacity
    · exact Hairline.fade_mem hopacity
        ⟨hround _ (mul_nonneg hthickness hscale), not_lt.mp hthin⟩

theorem darkens_of_mem_lineAlong {axis : Axis} {opacity thickness across : Rat} {along : Span}
    (hopacity : opacity ∈ Set.Icc (0 : Rat) 1) (hthickness : 0 ≤ thickness)
    (h : l ∈ c.lineAlong axis opacity thickness across along) : l.Darkens := by
  unfold lineAlong at h
  split at h
  · simp at h
  · split at h
    · rename_i hfaint
      exact darkens_of_mem_hairlines (hairline?_mem hround hscale hopacity hthickness hfaint) h
    · refine darkens_of_mem_lay ?_ h
      exact ⟨rfl, hopacity⟩

theorem darkens_of_mem_rule {r : Rule} (h : l ∈ c.rule r) : l.Darkens := by
  have hfull : (1 : Rat) ∈ Set.Icc (0 : Rat) 1 := ⟨zero_le_one, le_rfl⟩
  unfold rule at h
  split at h
  · unfold line at h
    split_ifs at h with hthickness
    · simp at h
    · exact darkens_of_mem_lineAlong hround hscale hfull (not_lt.mp hthickness) h
    · exact darkens_of_mem_lineAlong hround hscale hfull (not_lt.mp hthickness) h
    · exact darkens_of_mem_stroke h
  · simp at h

theorem darkens_of_mem_outline {opacity thickness : Rat} {b : Box}
    (hopacity : opacity ∈ Set.Icc (0 : Rat) 1) (hthickness : 0 ≤ thickness)
    (h : l ∈ c.outline opacity thickness b) : l.Darkens := by
  unfold outline at h
  split at h
  · simp at h
  · split at h
    · rename_i hfaint
      exact darkens_of_mem_hairlines (hairline?_mem hround hscale hopacity hthickness hfaint) h
    · split_ifs at h
      · exact darkens_of_mem_lineAlong hround hscale hopacity hthickness h
      · exact darkens_of_mem_lineAlong hround hscale hopacity hthickness h
      · refine darkens_of_mem_lay ?_ h
        exact ⟨rfl, hopacity⟩

variable {faces : Typeface → Face}

theorem isSheer_of_mem_barcode {b : BarcodeBox} (h : l ∈ c.barcode faces b) : l.IsSheer := by
  simp only [barcode, List.mem_append, List.mem_flatMap] at h
  obtain ((hfill | hframe) | ⟨bar, -, hbar⟩) | ⟨run, -, hcaption⟩ := h
  · exact isSheer_of_mem_fill hfill
  · refine (darkens_of_mem_outline hround hscale ?_ ?_ hframe).2 <;> norm_num [frameThickness]
  · exact isSheer_of_mem_fill hbar
  · exact (darkens_of_mem_text hcaption).2

theorem isSheer_of_mem_element {e : Element} (h : l ∈ c.element faces e) : l.IsSheer := by
  cases e with
  | rule r => exact (darkens_of_mem_rule hround hscale h).2
  | barcode b => exact isSheer_of_mem_barcode hround hscale h
  | text run => exact (darkens_of_mem_text h).2

/-- Every layer of a picture hides between nothing and all of what it covers. -/
theorem isSheer_of_mem_paint {label : Label} (h : l ∈ c.paint faces label) : l.IsSheer := by
  rcases List.mem_append.mp h with hborder | helement
  · refine (darkens_of_mem_outline hround hscale ?_ ?_ hborder).2 <;>
      norm_num [borderOpacity, borderThickness]
  · obtain ⟨e, -, he⟩ := List.mem_flatMap.mp helement
    exact isSheer_of_mem_element hround hscale he

end

end Canvas

end LabelPress
