import LabelPress.Barcode.Filling
import LabelPress.Proofs.Frame
import Mathlib.Data.List.Basic
import Mathlib.Data.Nat.Find
import Mathlib.Order.Bounds.Basic
import Mathlib.Order.Monotone.Basic

/-!
# The stripes that fill a frame

The stripes of a barcode go on for ever, and the loop that lays them into a frame has one way out:
a stripe that ends beyond the limit. Every stripe is at least one dot wide, so the first `n` of
them measure at least `n` dots, and only so many fit into the room between the insets
(`Stripes.fitting`).

`Filling.after` says where the loop is after a number of rounds: at a column that is the exact sum
of what was laid, with the black stripes so far as bars. One round leads from there to the next
such place as long as another stripe fits, and stops otherwise (`Filling.step_after`). The column
may be cut off at the upper end of the range, and so may the width of a stripe, but a stripe that
is concerned is beyond the limit both before and after (`fillLimit_lt_iff`). So the loop stops in
the round after the last stripe that fits (`Filling.run_after`), and its bars are the black stripes
among those that fit (`bars_eq`).
-/

namespace LabelPress.Barcode

/-! ## Sums of widths -/

namespace Stripes

variable (s : Stripes) (n : Nat)

theorem skip_succ : s.skip (n + 1) = (s.skip n).next.2 := by
  induction n generalizing s with
  | zero => rfl
  | succ n ih => exact ih s.next.2

theorem extent_succ : s.extent (n + 1) = s.extent n + (s.nth n).width := rfl

theorem one_le_width_nth : 1 ≤ (s.nth n).width := one_le_width_next _

theorem extent_strictMono : StrictMono s.extent :=
  strictMono_nat_of_lt_succ fun n => by
    have := s.one_le_width_nth n
    rw [extent_succ]
    omega

theorem le_extent : n ≤ s.extent n := s.extent_strictMono.le_apply

/-- The number of stripes that fit into a room. -/
def fitting (room : Int) : Nat := Nat.findGreatest (fun n => (s.extent n : Int) ≤ room) room.toNat

variable {s n} {room : Int}

theorem fitting_le (s : Stripes) (room : Int) : s.fitting room ≤ room.toNat :=
  Nat.findGreatest_le _

theorem extent_le_of_le_fitting (hroom : 0 ≤ room) (h : n ≤ s.fitting room) :
    (s.extent n : Int) ≤ room := by
  have hfits : (s.extent (s.fitting room) : Int) ≤ room :=
    Nat.findGreatest_spec (P := fun n => (s.extent n : Int) ≤ room) (Nat.zero_le _) hroom
  have := s.extent_strictMono.monotone h
  omega

theorem le_fitting (h : (s.extent n : Int) ≤ room) : n ≤ s.fitting room := by
  have := s.le_extent n
  exact Nat.le_findGreatest (by omega) h

/-- A stripe is among those that fit if it ends within the room. -/
theorem lt_fitting_iff : n < s.fitting room ↔ (s.extent n : Int) + (s.nth n).width ≤ room := by
  rw [← Nat.cast_add, ← extent_succ]
  constructor
  · intro h
    have := s.fitting_le room
    exact extent_le_of_le_fitting (by omega) h
  · exact le_fitting

/-- In more room there fit at least as many stripes. -/
theorem fitting_mono {room' : Int} (hroom : 0 ≤ room) (h : room ≤ room') :
    s.fitting room ≤ s.fitting room' :=
  le_fitting (le_trans (extent_le_of_le_fitting hroom le_rfl) h)

theorem isGreatest_fitting (hroom : 0 ≤ room) :
    IsGreatest {n | (s.extent n : Int) ≤ room} (s.fitting room) :=
  ⟨extent_le_of_le_fitting hroom le_rfl, fun _ => le_fitting⟩

end Stripes

/-! ## One stripe in a frame -/

/-- The dots between the insets at both sides of a frame. -/
def room (frame : Box) : Int := frame.right.val - frame.x.val - 12

/-- The room in a frame whose right edge is in the range is its width less the insets. -/
theorem room_eq {frame : Box} (hframe : 0 ≤ frame.width.val)
    (hright : frame.x.val + frame.width.val ≤ 2147483647) : room frame = frame.width.val - 12 := by
  have hx := frame.x.le_val
  simp only [room, Box.right, Dot.val_add, Dot.least, Dot.greatest]
  omega

/-- The column after a number of dots of stripes in a frame. -/
def column (frame : Box) (n : Nat) : Dot := Dot.clamp (frame.x.val + 6 + n)

section
variable {frame : Box} {n : Nat} {stripe : Stripe}

/-- A stripe ends beyond the limit if it is too wide for what is left of the room, and else not. -/
theorem fillLimit_lt_iff (hframe : 220 ≤ frame.width.val) :
    fillLimit frame < stripeEnd (column frame n) stripe ↔ room frame < n + stripe.width := by
  have hx := frame.x.le_val
  have hx' := frame.x.val_le
  have hmost := frame.width.val_le
  have hinset : insetX.val = 6 := rfl
  simp only [Dot.lt_def, fillLimit, stripeEnd, column, room, Box.right, Dot.val_sub, Dot.val_add,
    Dot.val_clamp, hinset, Dot.least, Dot.greatest]
  omega

variable (hframe : 0 ≤ frame.width.val) (h : n + stripe.width ≤ room frame)
include hframe h

/-- A stripe within the room starts and ends at exact columns and has its exact width. -/
theorem exact_of_le_room :
    (column frame n).val = frame.x.val + 6 + n ∧
      (Dot.clamp stripe.width).val = stripe.width ∧
      stripeEnd (column frame n) stripe = column frame (n + stripe.width) := by
  have hx := frame.x.le_val
  have hx' := frame.x.val_le
  have hmost := frame.width.val_le
  have hright := Box.right_le hframe
  have hright' := frame.right.val_le
  unfold room at h
  refine ⟨?_, ?_, Dot.ext ?_⟩ <;>
    simp only [stripeEnd, column, Dot.val_add, Dot.val_clamp, Dot.least, Dot.greatest] <;>
    omega

end

/-! ## Rounds -/

/-- The bar for one of the stripes in a frame, if it is black. -/
def bar? (frame : Box) (s : Stripes) (i : Nat) : Option Box :=
  if (s.nth i).black then some (barOf frame (column frame (s.extent i)) (s.nth i)) else none

namespace Filling

/-- The loop after a number of rounds. -/
def after (frame : Box) (s : Stripes) (i : Nat) : Filling where
  cursor := column frame (s.extent i)
  stripes := s.skip i
  bars := (List.range i).filterMap (bar? frame s)

theorem start_eq_after (frame : Box) (s : Stripes) : start frame s = after frame s 0 := by
  have hcolumn : column frame (s.extent 0) = frame.x + insetX :=
    congrArg Dot.clamp (Int.add_zero _)
  rw [start, ← hcolumn]
  rfl

/-- What the loop ends with is what filling gives from where it is. -/
theorem eq_fill_of_run {frame : Box} {n : Nat} {f : Filling} {bars : List Box}
    (h : f.run frame n = some bars) : bars = f.bars ++ fill frame f.cursor f.stripes := by
  induction n generalizing f with
  | zero => cases h
  | succ n ih =>
    rw [run] at h
    rw [fill]
    by_cases hstop : fillLimit frame < stripeEnd f.cursor f.stripes.next.1
    · simp only [step, hstop, if_true, Option.some.injEq] at h
      simp [hstop, h]
    · simp only [step, hstop, if_false] at h
      rw [dif_neg hstop, ih h]
      by_cases hblack : f.stripes.next.1.black
      · simp only [hblack, if_true, List.append_assoc, List.singleton_append]
        rfl
      · simp only [hblack]
        rfl

variable {frame : Box} {s : Stripes} (hframe : 220 ≤ frame.width.val)
include hframe

/-- A round lays the next stripe if it fits, and stops if not. -/
theorem step_after (i : Nat) : (after frame s i).step frame =
    if i < s.fitting (room frame) then some (after frame s (i + 1)) else none := by
  have hstep : (after frame s i).step frame =
      if fillLimit frame < stripeEnd (column frame (s.extent i)) (s.nth i) then none
      else
        some
          ⟨stripeEnd (column frame (s.extent i)) (s.nth i), (s.skip i).next.2,
            if (s.nth i).black then
              (after frame s i).bars ++ [barOf frame (column frame (s.extent i)) (s.nth i)]
            else (after frame s i).bars⟩ := rfl
  by_cases hfits : i < s.fitting (room frame)
  · have hroom := Stripes.lt_fitting_iff.mp hfits
    obtain ⟨-, -, hstop⟩ := exact_of_le_room (by omega) hroom
    rw [hstep, if_neg (mt (fillLimit_lt_iff hframe).mp (not_lt.mpr hroom)), if_pos hfits, hstop,
      after, after, Stripes.extent_succ, Stripes.skip_succ, List.range_succ,
      List.filterMap_append]
    by_cases hblack : (s.nth i).black <;> simp [bar?, hblack]
  · have hroom := mt Stripes.lt_fitting_iff.mpr hfits
    rw [hstep, if_pos ((fillLimit_lt_iff hframe).mpr (not_le.mp hroom)), if_neg hfits]

/-- The loop stops in the round after the last stripe that fits, and in none before. -/
theorem run_after (n i : Nat) (hi : i ≤ s.fitting (room frame)) :
    (after frame s i).run frame n =
      if s.fitting (room frame) < n + i then some (after frame s (s.fitting (room frame))).bars
      else none := by
  induction n generalizing i with
  | zero => rw [run, if_neg (by omega)]
  | succ n ih =>
    rw [run, step_after hframe]
    by_cases hfits : i < s.fitting (room frame)
    · rw [if_pos hfits]
      dsimp only
      rw [ih (i + 1) hfits, Nat.add_right_comm n 1 i, Nat.add_assoc]
    · obtain rfl : i = s.fitting (room frame) := by omega
      rw [if_neg hfits, if_pos (by omega)]

end Filling

/-! ## Bars -/

section
variable {frame : Box} (hframe : 220 ≤ frame.width.val) (seed unit : UInt32)
include hframe

/-- The bars in a frame are the black ones of the stripes that fit. -/
theorem bars_eq : bars frame seed unit =
    (List.range ((Stripes.start seed (effectiveUnit unit)).fitting (room frame))).filterMap
      (bar? frame (.start seed (effectiveUnit unit))) := by
  have hrun := Filling.run_after (s := .start seed (effectiveUnit unit)) hframe
    ((Stripes.start seed (effectiveUnit unit)).fitting (room frame) + 1) 0 (Nat.zero_le _)
  rw [if_pos (by omega), ← Filling.start_eq_after] at hrun
  exact (Filling.eq_fill_of_run hrun).symm

/-- The loop over the stripes ends with the bars, in the round after the last stripe that fits. -/
theorem run_start_eq (n : Nat) :
    (Filling.start frame (.start seed (effectiveUnit unit))).run frame n =
      if (Stripes.start seed (effectiveUnit unit)).fitting (room frame) < n then
        some (bars frame seed unit)
      else none := by
  rw [bars_eq hframe, Filling.start_eq_after, Filling.run_after hframe n 0 (Nat.zero_le _)]
  rfl

end

/-- The loop over the endless stripes of a barcode stops, and lays as many of them as fit. Let `k`
be the greatest number of stripes that together measure no more than the room between the insets,
or zero if there is less than no room. The loop reads `k + 1` stripes, at most one more than the
room has dots. Its bars are the black ones of the first `k`, each with its own width, at the column
where all stripes before it end, the white ones included. All these numbers are exact. -/
theorem bars_fill_greedily (x y : Dot) (spec : BarcodeSpec) :
    let frame := (place x y spec).frame
    let stripes := Stripes.start (hash spec.value) (effectiveUnit spec.unit)
    let room := frame.right.val - frame.x.val - 12
    ∃ k : Nat,
      (room < 0 → k = 0) ∧
      (0 ≤ room → IsGreatest {n | (stripes.extent n : Int) ≤ room} k) ∧
      (∀ n, (Filling.start frame stripes).run frame n =
        if k + 1 ≤ n then some (place x y spec).bars else none) ∧
      (k : Int) + 1 ≤ max room 0 + 1 ∧
      (place x y spec).bars.map (fun bar => (bar.x.val, bar.width.val)) =
        (List.range k).filterMap fun i =>
          if (stripes.nth i).black then
            some (frame.x.val + 6 + stripes.extent i, ((stripes.nth i).width : Int))
          else none := by
  intro frame stripes room
  have hframe : 220 ≤ frame.width.val := le_width_frame x y spec
  have hmost := stripes.fitting_le room
  refine ⟨stripes.fitting room, fun hroom => by omega, Stripes.isGreatest_fitting,
    run_start_eq hframe _ _, by omega, ?_⟩
  have hbars : (place x y spec).bars =
      (List.range (stripes.fitting room)).filterMap (bar? frame stripes) := bars_eq hframe _ _
  rw [hbars, List.map_filterMap]
  refine List.filterMap_congr fun i hi => ?_
  have hroom := Stripes.lt_fitting_iff.mp (List.mem_range.mp hi)
  obtain ⟨hcolumn, hwidth, -⟩ := exact_of_le_room (by omega) hroom
  by_cases hblack : (stripes.nth i).black <;> simp [bar?, barOf, hblack, hcolumn, hwidth]

end LabelPress.Barcode
