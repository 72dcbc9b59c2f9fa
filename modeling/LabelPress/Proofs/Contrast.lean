import LabelPress.Proofs.Bars
import LabelPress.Proofs.Colours

/-!
# Black and white in a barcode

Among 32 stripes there is a black one and among 33 a white one, whatever the value of a barcode is.
They measure no more than twice the bar unit each (`Stripes.extent_start_le`), so a frame with as
much room between its insets holds them all (`Barcode.le_fitting_frame`), and a black one that it
holds is a bar (`Barcode.bars_ne_nil`).

The room is the width of the frame less the insets, unless the right edge stops at the end of the
range. A frame that is wider than the least width keeps to the sheet, so this only concerns
positions from which not even the least width stays in the range (`Barcode.room_frame`).
-/

namespace LabelPress.Barcode

/-- Stripes measure at most two bar units each. -/
theorem Stripes.extent_start_le (seed unit : UInt32) (n : Nat) :
    (start seed (effectiveUnit unit)).extent n ≤ 2 * n * (effectiveUnit unit).toNat := by
  induction n with
  | zero => exact Nat.zero_le _
  | succ n ih =>
    rw [extent_succ, Nat.mul_succ, Nat.add_mul]
    exact Nat.add_le_add ih (width_nth_start_le seed unit n)

theorem effectiveUnit_le_three {unit : UInt32} (h : unit ≤ 3) : (effectiveUnit unit).toNat ≤ 3 := by
  unfold effectiveUnit
  split
  · decide
  · exact UInt32.le_iff_toNat_le.mp h

/-- A frame in which a black stripe fits has a bar. -/
theorem bars_ne_nil {frame : Box} (hframe : 220 ≤ frame.width.val) {seed unit : UInt32} {i : Nat}
    (hi : i < (Stripes.start seed (effectiveUnit unit)).fitting (room frame))
    (hblack : ((Stripes.start seed (effectiveUnit unit)).nth i).black = true) :
    bars frame seed unit ≠ [] := by
  rw [bars_eq hframe]
  exact List.ne_nil_of_mem (List.mem_filterMap.mpr ⟨i, List.mem_range.mpr hi, if_pos hblack⟩)

section
variable {x : Dot} (y : Dot) (spec : BarcodeSpec) (hx : x.val ≤ 2147483427)
include hx

/-- The room in a frame is its width less the insets, where the least width stays in the range. -/
theorem room_frame : room (frame x y spec) = (frame x y spec).width.val - 12 := by
  have hframe := le_width_frame x y spec
  have hwidth : (frame x y spec).width.val = _ := val_boxWidth x spec.value spec.unit
  have hleft : (frame x y spec).x.val = x.val := rfl
  refine room_eq (by omega) ?_
  rw [hleft, hwidth]
  generalize 8 * ((Text.units spec.value).length : Int) * (effectiveUnit spec.unit).toNat = wanted
  omega

/-- As many stripes fit as there is room for, at two bar units each. -/
theorem le_fitting_frame (seed : UInt32) {n : Nat}
    (hroom : (2 * n * (effectiveUnit spec.unit).toNat : Nat) ≤
      (frame x y spec).width.val - 12) :
    n ≤ (Stripes.start seed (effectiveUnit spec.unit)).fitting (room (frame x y spec)) := by
  refine Stripes.le_fitting ?_
  rw [room_frame y spec hx]
  exact le_trans (Int.ofNat_le.mpr (Stripes.extent_start_le seed spec.unit n)) hroom

end

/-- A barcode shows a bar if its frame has room for 32 stripes of two bar units, whatever its value
is. If there is room for 33, a white one is among the stripes that the loop lays before it stops. At
a bar unit of up to three dots, the usual one included, every frame has that room. -/
theorem black_and_white_of_room {x : Dot} (y : Dot) (spec : BarcodeSpec)
    (hx : x.val ≤ 2147483427) :
    let box := place x y spec
    let stripes := Stripes.start (hash spec.value) (effectiveUnit spec.unit)
    let unit : Int := (effectiveUnit spec.unit).toNat
    ∃ laid : Nat,
      (∀ n, (Filling.start box.frame stripes).run box.frame n =
        if laid + 1 ≤ n then some box.bars else none) ∧
      (64 * unit ≤ box.frame.width.val - 12 → box.bars ≠ []) ∧
      (66 * unit ≤ box.frame.width.val - 12 →
        ∃ stripe ∈ stripes.take laid, stripe.black = false) ∧
      (spec.unit ≤ 3 → box.bars ≠ [] ∧ ∃ stripe ∈ stripes.take laid, stripe.black = false) := by
  intro box stripes unit
  have hframe : 220 ≤ box.frame.width.val := le_width_frame x y spec
  have hblack : 64 * unit ≤ box.frame.width.val - 12 → box.bars ≠ [] := by
    intro hroom
    obtain ⟨i, hi, hblack⟩ := Stripes.exists_black (Stripes.state_start_ne_zero (hash spec.value) _)
    have hfits := le_fitting_frame y spec hx (hash spec.value) (n := 32) (by exact_mod_cast hroom)
    exact bars_ne_nil hframe (lt_of_lt_of_le hi hfits) hblack
  have hwhite : 66 * unit ≤ box.frame.width.val - 12 →
      ∃ stripe ∈ stripes.take (stripes.fitting (room box.frame)), stripe.black = false := by
    intro hroom
    obtain ⟨i, hi, hwhite⟩ := Stripes.exists_white stripes
    have hfits := le_fitting_frame y spec hx (hash spec.value) (n := 33) (by exact_mod_cast hroom)
    exact ⟨_, Stripes.nth_mem_take stripes (lt_of_lt_of_le hi hfits), hwhite⟩
  refine ⟨stripes.fitting (room box.frame), run_start_eq hframe _ _, hblack, hwhite,
    fun hunit => ?_⟩
  have hsmall : unit ≤ 3 := Int.ofNat_le.mpr (effectiveUnit_le_three hunit)
  exact ⟨hblack (by omega), hwhite (by omega)⟩

/-- A barcode at the last column from which the least width stays in the range. -/
theorem black_and_white_of_room_rightmost :
    let x : Dot := .clamp 2147483427
    let spec : BarcodeSpec := ⟨'N', 100, 3, 0, "SE1"⟩
    let box := place x 50 spec
    let stripes := Stripes.start (hash "SE1") 3
    x.val ≤ 2147483427 ∧ 66 * 3 ≤ box.frame.width.val - 12 ∧ box.bars ≠ [] ∧
      ∃ laid, (Filling.start box.frame stripes).run box.frame (laid + 1) = some box.bars ∧
        ∃ stripe ∈ stripes.take laid, stripe.black = false := by
  intro x spec box stripes
  have hx : x.val ≤ 2147483427 := by decide
  have hroom : 66 * 3 ≤ box.frame.width.val - 12 := by
    have hframe : 220 ≤ box.frame.width.val := le_width_frame x 50 spec
    omega
  obtain ⟨laid, hrun, hblack, hwhite, -⟩ := black_and_white_of_room 50 spec hx
  have hstop := hrun (laid + 1)
  rw [if_pos le_rfl] at hstop
  exact ⟨hx, hroom, hblack (le_trans (by decide) hroom), laid, hstop, hwhite hroom⟩

end LabelPress.Barcode
