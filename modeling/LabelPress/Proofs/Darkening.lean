import LabelPress.Proofs.Opacity
import LabelPress.Proofs.PaintOrder
import LabelPress.Proofs.Pixels
import LabelPress.Proofs.Rounding

/-!
# Rules and texts only darken

A sheer layer takes the grey of a pixel a part of the way to its ink. So it keeps the order of greys
(`Layer.over_mono`), it leaves no pixel darker than black (`Layer.over_nonneg`), and one of black
ink leaves no pixel lighter (`Layer.over_le`). The same goes for any number of layers.

All that a rule or a text paints is black. The layers above it take a grey that is not lighter than
the one they would take without it, whatever they are, and they keep that order
(`Canvas.grey_picture_le`). So leaving it out leaves no pixel of the picture darker
(`removed_not_darker`), and no byte of the file less, since a grey between black and white is told
by a byte that keeps the order (`Png.byte_le_byte`).
-/

namespace LabelPress

/-! ## Layers -/

namespace Layer

variable {l : Layer} {i j : Int} {grey grey' : Rat}

/-- A sheer layer keeps the order of greys. -/
theorem over_mono (h : l.IsSheer) (hle : grey ≤ grey') : l.over i j grey ≤ l.over i j grey' := by
  have hrest : 0 ≤ 1 - l.opacity * l.figure.coverage i j := by linarith [(h.part_mem i j).2]
  have hkept := mul_nonneg (sub_nonneg.mpr hle) hrest
  unfold Layer.over
  linarith

/-- No sheer layer makes a pixel darker than black. -/
theorem over_nonneg (h : l.IsSheer) (hgrey : 0 ≤ grey) : 0 ≤ l.over i j grey := by
  obtain ⟨hpart, hpart'⟩ := h.part_mem i j
  have hink : 0 ≤ l.ink.grey := by
    cases l.ink <;> simp [Ink.grey]
  have hkept := mul_nonneg hgrey (sub_nonneg.mpr hpart')
  have hadded := mul_nonneg hink hpart
  unfold Layer.over
  linarith

/-- No sheer layer makes a pixel lighter than white. -/
theorem over_le_one (h : l.IsSheer) (hgrey : grey ≤ 1) : l.over i j grey ≤ 1 := by
  obtain ⟨hpart, hpart'⟩ := h.part_mem i j
  have hink : l.ink.grey ≤ 1 := by
    cases l.ink <;> simp [Ink.grey]
  have hkept := mul_le_mul_of_nonneg_right hgrey (sub_nonneg.mpr hpart')
  have hadded := mul_le_mul_of_nonneg_right hink hpart
  unfold Layer.over
  linarith

/-- A sheer layer of black ink makes no pixel lighter. -/
theorem over_le (h : l.Darkens) (hgrey : 0 ≤ grey) : l.over i j grey ≤ grey := by
  have htaken := mul_nonneg hgrey (h.2.part_mem i j).1
  rw [Layer.over, h.1, Ink.grey]
  linarith

end Layer

section
variable {layers : List Layer} {i j : Int} {grey grey' : Rat}

theorem foldl_over_mono (h : ∀ l ∈ layers, l.IsSheer) (hle : grey ≤ grey') :
    layers.foldl (fun grey layer => layer.over i j grey) grey ≤
      layers.foldl (fun grey layer => layer.over i j grey) grey' := by
  induction layers generalizing grey grey' with
  | nil => exact hle
  | cons l layers ih =>
    rw [List.forall_mem_cons] at h
    exact ih h.2 (Layer.over_mono h.1 hle)

theorem foldl_over_nonneg (h : ∀ l ∈ layers, l.IsSheer) (hgrey : 0 ≤ grey) :
    0 ≤ layers.foldl (fun grey layer => layer.over i j grey) grey := by
  induction layers generalizing grey with
  | nil => exact hgrey
  | cons l layers ih =>
    rw [List.forall_mem_cons] at h
    exact ih h.2 (Layer.over_nonneg h.1 hgrey)

theorem foldl_over_le_one (h : ∀ l ∈ layers, l.IsSheer) (hgrey : grey ≤ 1) :
    layers.foldl (fun grey layer => layer.over i j grey) grey ≤ 1 := by
  induction layers generalizing grey with
  | nil => exact hgrey
  | cons l layers ih =>
    rw [List.forall_mem_cons] at h
    exact ih h.2 (Layer.over_le_one h.1 hgrey)

theorem foldl_over_le (h : ∀ l ∈ layers, l.Darkens) (hgrey : 0 ≤ grey) :
    layers.foldl (fun grey layer => layer.over i j grey) grey ≤ grey := by
  induction layers generalizing grey with
  | nil => exact le_rfl
  | cons l layers ih =>
    rw [List.forall_mem_cons] at h
    exact (ih h.2 (Layer.over_nonneg h.1.2 hgrey)).trans (Layer.over_le h.1 hgrey)

end

/-! ## Bytes -/

theorem Single.roundAway_mono {q r : Rat} (h : q ≤ r) : roundAway q ≤ roundAway r := by
  unfold roundAway
  split_ifs with hq hr hr
  · exact Rat.floor_monotone (by linarith)
  · linarith
  · have hlow := Rat.le_floor_iff.mpr (show ((0 : Int) : Rat) ≤ -q + 1 / 2 by push_cast; linarith)
    have hhigh := Rat.le_floor_iff.mpr (show ((0 : Int) : Rat) ≤ r + 1 / 2 by push_cast; linarith)
    omega
  · exact neg_le_neg (Rat.floor_monotone (by linarith))

theorem level_mono {grey grey' : Rat} (h : grey ≤ grey') : level grey ≤ level grey' :=
  Int.toNat_le_toNat (Single.roundAway_mono (by linarith))

theorem level_le {grey : Rat} (h : grey ≤ 1) : level grey ≤ 255 := by
  have hwhite : level 1 = 255 := by decide +kernel
  exact hwhite ▸ level_mono h

/-- Bytes keep the order of greys. -/
theorem Png.byte_le_byte {grey grey' : Rat} (h : grey ≤ grey') (h' : grey' ≤ 1) :
    byte grey ≤ byte grey' := by
  have hlevel := level_mono h
  have hlevel' := level_le h'
  have hfits : level grey < UInt8.size := Nat.lt_succ_of_le (hlevel.trans hlevel')
  have hfits' : level grey' < UInt8.size := Nat.lt_succ_of_le hlevel'
  rw [byte, byte, UInt8.le_iff_toNat_le, UInt8.toNat_ofNat_of_lt' hfits,
    UInt8.toNat_ofNat_of_lt' hfits']
  exact hlevel

/-! ## Pictures -/

namespace Canvas

variable {c : Canvas} (hround : ∀ q, 0 ≤ q → 0 ≤ c.round q) (hscale : 0 ≤ c.scale)
  {faces : Typeface → Face} {e : Element}
include hround hscale

/-- All layers of a rule or a text are black. -/
theorem darkens_of_mem_element (he : e.kind ≠ .barcode) {l : Layer}
    (h : l ∈ c.element faces e) : l.Darkens := by
  cases e with
  | rule r => exact darkens_of_mem_rule hround hscale h
  | barcode b => exact absurd rfl he
  | text run => exact darkens_of_mem_text h

/-- A picture is nowhere lighter with a rule or a text than without it. -/
theorem grey_picture_le (he : e.kind ≠ .barcode) (width height : Dot)
    (below above : List Element) (i j : Int) :
    (c.picture faces ⟨width, height, below ++ e :: above⟩).grey i j ≤
      (c.picture faces ⟨width, height, below ++ above⟩).grey i j := by
  have hbelow : ∀ l ∈ c.paint faces ⟨width, height, below⟩, l.IsSheer :=
    fun l => isSheer_of_mem_paint hround hscale
  have hmark : ∀ l ∈ c.element faces e, l.Darkens :=
    fun l => darkens_of_mem_element hround hscale he
  have habove : ∀ l ∈ above.flatMap (c.element faces), l.IsSheer := by
    intro l hl
    obtain ⟨e, -, he⟩ := List.mem_flatMap.mp hl
    exact isSheer_of_mem_element hround hscale he
  have hpaper : 0 ≤ (c.picture faces ⟨width, height, below⟩).grey i j :=
    foldl_over_nonneg hbelow zero_le_one
  simp only [Picture.grey, picture, paint, List.flatMap_append, List.flatMap_cons,
    List.foldl_append] at hpaper ⊢
  exact foldl_over_mono habove (foldl_over_le hmark hpaper)

end Canvas

/-- Rules and texts only darken: a label that can be rendered can be rendered without one of them
as well, in the same size, and none of the pixels is darker then, nor is any of the bytes that are
written for them less. This is so for every element of the label that is not a barcode, whatever
lies below and above it, in all faces and for every way to draw slanted strokes. -/
theorem removed_not_darker {faces : Typeface → Face} {slant : Slant} {m : Magnification}
    {width height : Dot} {below above : List Element} {e : Element} {p : Picture}
    (he : e.kind ≠ .barcode)
    (hp : (Label.mk width height (below ++ e :: above)).renderWith faces Single.round slant m =
      .ok p) :
    ∃ p', (Label.mk width height (below ++ above)).renderWith faces Single.round slant m =
        .ok p' ∧ p'.width = p.width ∧ p'.height = p.height ∧
      (∀ i j, p.grey i j ≤ p'.grey i j) ∧
      List.Forall₂ (List.Forall₂ (· ≤ ·)) (p.pixels Png.byte) (p'.pixels Png.byte) := by
  obtain ⟨s, hfit, hs, rfl⟩ := (Label.renderWith_eq_ok_iff ..).mp hp
  have hp' := (Label.renderWith_eq_ok_iff faces Single.round slant
    ⟨width, height, below ++ above⟩ m _).mpr ⟨s, hfit, hs, rfl⟩
  have hscale : 0 ≤ s.scale := (Surface.eq_of_fit hfit).1.le
  have hround (q : Rat) (hq : 0 ≤ q) : 0 ≤ Single.round q := Single.round_nonneg hq
  let c : Canvas := ⟨s, Single.round, slant⟩
  have hgrey (i j : Int) : (c.picture faces ⟨width, height, below ++ e :: above⟩).grey i j ≤
      (c.picture faces ⟨width, height, below ++ above⟩).grey i j :=
    Canvas.grey_picture_le (c := c) hround hscale he width height below above i j
  have hwhite (i j : Int) : (c.picture faces ⟨width, height, below ++ above⟩).grey i j ≤ 1 :=
    foldl_over_le_one (fun l => Canvas.isSheer_of_mem_paint (c := c) hround hscale) le_rfl
  exact ⟨_, hp', rfl, rfl, hgrey,
    Picture.forall₂_pixels rfl rfl fun i j => Png.byte_le_byte (hgrey i j) (hwhite i j)⟩

/-- Without the rule that runs behind a barcode, a pixel beside the barcode is lighter. -/
theorem removed_not_darker_rule : ∃ p p',
    (Label.mk 10 10 ([] ++ .rule ⟨⟨0, 3⟩, ⟨9, 3⟩, 4⟩ :: [.barcode ⟨⟨4, 2, 4, 4⟩, [], none⟩])).render
      .unit = .ok p ∧
    (Label.mk 10 10 ([] ++ [.barcode ⟨⟨4, 2, 4, 4⟩, [], none⟩])).render .unit = .ok p' ∧
    (∀ i j, p.grey i j ≤ p'.grey i j) ∧ p.grey 2 3 < p'.grey 2 3 := by
  have hsurface : Surface.fit .unit 10 10 = .ok ⟨1, 10, 10⟩ := by decide +kernel
  have hrender (elements : List Element) : (Label.mk 10 10 elements).render .unit =
      .ok (Canvas.picture ⟨⟨1, 10, 10⟩, Single.round, .sampled⟩ blockFaces ⟨10, 10, elements⟩) := by
    rw [Label.render, Label.renderWith_eq, hsurface]
    rfl
  have hp := hrender ([] ++ .rule ⟨⟨0, 3⟩, ⟨9, 3⟩, 4⟩ :: [.barcode ⟨⟨4, 2, 4, 4⟩, [], none⟩])
  have hp' := hrender ([] ++ [.barcode ⟨⟨4, 2, 4, 4⟩, [], none⟩])
  obtain ⟨p', hp'', -, -, hgrey, -⟩ := removed_not_darker (by decide) hp
  obtain rfl : _ = p' := Except.ok.inj (hp'.symm.trans hp'')
  exact ⟨_, _, hp, hp', hgrey, by decide +kernel⟩

end LabelPress
