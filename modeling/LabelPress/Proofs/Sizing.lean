import LabelPress.Preview
import LabelPress.Proofs.Finite

/-!
# What decides whether a label can be rendered

Rendering a label looks at its size and at the magnification before it looks at anything else,
and what it finds there settles whether there is a picture, how large it is, and which error there
is in its stead (`Label.map_size_renderWith`). There are three cases, and they exclude each other:
the scale is no finite number above zero, the surface is empty or too large, or there is a picture
of the size of the surface. The faces and the elements of the label take no part in it.

The label of a script is always as large as the sheet. So for one magnification either every
script has a picture and all pictures are of one size, or no script has one and the error is
always the same (`Preview.map_size_ofText`).
-/

namespace LabelPress

/-! ## The three cases -/

namespace Magnification

/-- Whether there is a scale to paint at. -/
def IsUsable (m : Magnification) : Prop := m.scale.isFinite = true ∧ 0 < m.scale

instance (m : Magnification) : Decidable m.IsUsable := inferInstanceAs (Decidable (_ ∧ _))

/-- The pixels that a number of dots measures, if there is a scale to paint at. -/
def extent (m : Magnification) (dots : Dot) : Nat :=
  Surface.extent dots ((Single.value? m.scale).getD 0)

/-- Whether the surface for a size has too many pixels, or none. -/
def LacksSurface (m : Magnification) (width height : Dot) : Prop :=
  268435456 < m.extent width * m.extent height ∨ m.extent width = 0 ∨ m.extent height = 0

instance (m : Magnification) (width height : Dot) : Decidable (m.LacksSurface width height) :=
  inferInstanceAs (Decidable (_ ∨ _))

variable {m : Magnification}

theorem scale?_of_isUsable (h : m.IsUsable) :
    m.scale? = some ((Single.value? m.scale).getD 0) := by
  obtain ⟨q, hq, hpos⟩ := (Single.exists_value?_pos_iff m.scale).mpr h
  simp [scale?, hq, Option.filter, hpos]

theorem scale?_of_not_isUsable (h : ¬m.IsUsable) : m.scale? = none := by
  rw [scale?, Option.filter_eq_none_iff]
  intro q hq hpos
  exact h ((Single.exists_value?_pos_iff m.scale).mp ⟨q, hq, by simpa using hpos⟩)

end Magnification

/-- The surface for a size, where there is a scale to paint at. -/
theorem Surface.fit_of_isUsable {m : Magnification} (h : m.IsUsable) (width height : Dot) :
    fit m width height =
      if 268435456 < m.extent width * m.extent height then
        .error (.noSurface (m.extent width) (m.extent height))
      else .ok ⟨(Single.value? m.scale).getD 0, m.extent width, m.extent height⟩ := by
  rw [fit, Magnification.scale?_of_isUsable h]
  rfl

/-! ## Labels -/

/-- The width and the height of a picture. -/
def Picture.size (p : Picture) : Nat × Nat := (p.width, p.height)

namespace Label

variable (faces : Typeface → Face) (round : Rat → Rat) (slant : Slant) (l : Label)
  (m : Magnification)

/-- What rendering comes to, as far as the size of the picture goes. -/
theorem map_size_renderWith : (l.renderWith faces round slant m).map Picture.size =
    if m.IsUsable then
      if m.LacksSurface l.width l.height then
        .error (.noSurface (m.extent l.width) (m.extent l.height))
      else .ok (m.extent l.width, m.extent l.height)
    else .error (.invalidScale m.scale) := by
  rw [renderWith_eq]
  by_cases husable : m.IsUsable
  · rw [Surface.fit_of_isUsable husable, if_pos husable]
    by_cases hmany : 268435456 < m.extent l.width * m.extent l.height
    · rw [if_pos hmany, if_pos (.inl hmany)]
      rfl
    · rw [if_neg hmany]
      by_cases hempty : m.extent l.width = 0 ∨ m.extent l.height = 0
      · rw [if_pos (.inr hempty)]
        simp only [if_pos hempty]
        rfl
      · have hsurface : ¬m.LacksSurface l.width l.height := not_or.mpr ⟨hmany, hempty⟩
        rw [if_neg hsurface]
        simp only [if_neg hempty]
        rfl
  · rw [Surface.fit, Magnification.scale?_of_not_isUsable husable, if_neg husable]
    rfl

/-- Rendering fails with an error exactly if it does as far as the size goes. -/
theorem renderWith_eq_error_iff (e : RenderError) : l.renderWith faces round slant m = .error e ↔
    (l.renderWith faces round slant m).map Picture.size = .error e := by
  cases l.renderWith faces round slant m <;> simp [Except.map]

theorem renderWith_eq_invalidScale_iff :
    l.renderWith faces round slant m = .error (.invalidScale m.scale) ↔ ¬m.IsUsable := by
  rw [renderWith_eq_error_iff, map_size_renderWith]
  split
  · split <;> simp_all
  · simp_all

theorem renderWith_eq_noSurface_iff :
    l.renderWith faces round slant m =
        .error (.noSurface (m.extent l.width) (m.extent l.height)) ↔
      m.IsUsable ∧ m.LacksSurface l.width l.height := by
  rw [renderWith_eq_error_iff, map_size_renderWith]
  split
  · split <;> simp_all
  · simp_all

theorem map_size_renderWith_eq_ok_iff :
    (l.renderWith faces round slant m).map Picture.size =
        .ok (m.extent l.width, m.extent l.height) ↔
      m.IsUsable ∧ ¬m.LacksSurface l.width l.height := by
  rw [map_size_renderWith]
  split
  · split <;> simp_all
  · simp_all

end Label

/-! ## Scripts -/

namespace Preview

/-- The preview of a script is there if the picture of its label is. -/
theorem ofText_eq (text : String) (m : Magnification) : ofText text m =
    match (layout (Script.parse text).commands).render m with
    | .error e => .error e
    | .ok picture => .ok ⟨Script.parse text, picture⟩ := by
  unfold ofText
  dsimp only
  cases (layout (Script.parse text).commands).render m <;> rfl

/-- What the preview of a script comes to, as far as the size of the picture goes. -/
theorem map_size_ofText (text : String) (m : Magnification) :
    (ofText text m).map (fun p => p.picture.size) =
      if m.IsUsable then
        if m.LacksSurface sheetWidth sheetHeight then
          .error (.noSurface (m.extent sheetWidth) (m.extent sheetHeight))
        else .ok (m.extent sheetWidth, m.extent sheetHeight)
      else .error (.invalidScale m.scale) := by
  have hsize := (layout (Script.parse text).commands).map_size_renderWith blockFaces Single.round
    .sampled m
  rw [← Label.render] at hsize
  have hmap : (ofText text m).map (fun p => p.picture.size) =
      ((layout (Script.parse text).commands).render m).map Picture.size := by
    rw [ofText_eq]
    cases (layout (Script.parse text).commands).render m <;> rfl
  exact hmap.trans hsize

end Preview

/-- What rendering a label comes to is decided by its size and the magnification, whatever its
elements and the faces are. There are three cases, one of which always holds: the scale is not
finite or not above zero, and it is refused; or the surface has more than 2²⁸ pixels or none at
all, and it is refused with its size; or there is a picture of that size. So for one magnification
the previews of any two scripts both fail with the same error, or they have one size. -/
theorem rendering_decided_by_size :
    (∀ faces round slant l m,
      (Label.renderWith faces round slant l m = .error (.invalidScale m.scale) ↔
        ¬(m.scale.isFinite = true ∧ 0 < m.scale)) ∧
      (Label.renderWith faces round slant l m =
          .error (.noSurface (m.extent l.width) (m.extent l.height)) ↔
        (m.scale.isFinite = true ∧ 0 < m.scale) ∧ m.LacksSurface l.width l.height) ∧
      ((Label.renderWith faces round slant l m).map Picture.size =
          .ok (m.extent l.width, m.extent l.height) ↔
        (m.scale.isFinite = true ∧ 0 < m.scale) ∧ ¬m.LacksSurface l.width l.height)) ∧
    (∀ (m : Magnification) dots, m.extent dots ≤ 4294967295) ∧
    ∀ text text' m, (Preview.ofText text m).map (fun p => p.picture.size) =
      (Preview.ofText text' m).map (fun p => p.picture.size) := by
  refine ⟨fun faces round slant l m => ?_, fun m dots => Surface.extent_le dots _,
    fun text text' m => ?_⟩
  · exact ⟨l.renderWith_eq_invalidScale_iff faces round slant m,
      l.renderWith_eq_noSurface_iff faces round slant m,
      l.map_size_renderWith_eq_ok_iff faces round slant m⟩
  · rw [Preview.map_size_ofText, Preview.map_size_ofText]

end LabelPress
