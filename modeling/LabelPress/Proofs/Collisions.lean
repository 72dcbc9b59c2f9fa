import LabelPress.Barcode.Hash
import Mathlib.Logic.ExistsUnique
import Mathlib.Logic.Function.Basic

/-!
# Values with one hash

One step of the hash can be undone by who knows the unit: the prime is odd, so a product with it
is taken back by a second product (`mul_hashPrime_mul`), and a sum with the unit by the same sum.
So for one unit no two hashes step to the same one, nor do two units lead one hash there
(`hashStep_left_inj`, `hashStep_right_inj`).

What follows after a step therefore keeps apart what was apart, for as many units as there are
(`foldl_hashStep_inj`). Two values with the same beginning and the same end are apart after the one
unit between, and a common end makes no collision and hides none.
-/

namespace LabelPress.Barcode

open Text

/-! ## One unit -/

/-- The word that takes back a product with the prime. -/
def hashPrimeInverse : UInt32 := 0x359c449b

theorem mul_hashPrime_mul (h : UInt32) : h * hashPrime * hashPrimeInverse = h := by
  have hone : hashPrime * hashPrimeInverse = 1 := by decide
  rw [UInt32.mul_assoc, hone, UInt32.mul_one]

theorem mul_hashPrime_inj {h k : UInt32} : h * hashPrime = k * hashPrime ↔ h = k := by
  have hinverse : Function.LeftInverse (· * hashPrimeInverse) (· * hashPrime) := mul_hashPrime_mul
  exact hinverse.injective.eq_iff

/-- A unit does not bring two hashes together. -/
theorem hashStep_left_inj {h k : UInt32} (u : UInt16) : hashStep h u = hashStep k u ↔ h = k := by
  rw [hashStep, hashStep, mul_hashPrime_inj, UInt32.xor_left_inj]

/-- Two units do not bring a hash to the same one. -/
theorem hashStep_right_inj {u v : UInt16} (h : UInt32) : hashStep h u = hashStep h v ↔ u = v := by
  rw [hashStep, hashStep, mul_hashPrime_inj, UInt32.xor_right_inj, UInt16.toUInt32_inj]

/-! ## Many units -/

theorem foldl_hashStep_inj {h k : UInt32} (us : List UInt16) :
    us.foldl hashStep h = us.foldl hashStep k ↔ h = k := by
  induction us generalizing h k with
  | nil => rfl
  | cons u us ih => rw [List.foldl_cons, List.foldl_cons, ih, hashStep_left_inj]

/-- Whether two lists of units are of the same length and differ at one place, and at no other. -/
def DifferOnce (us vs : List UInt16) : Prop := us.length = vs.length ∧ ∃! i : Nat, us[i]? ≠ vs[i]?

/-- Units that differ once have a beginning and an end in common, with one unit between. -/
theorem DifferOnce.exists_append {us vs : List UInt16} (h : DifferOnce us vs) :
    ∃ start u v rest, us = start ++ u :: rest ∧ vs = start ++ v :: rest ∧ u ≠ v := by
  obtain ⟨hlength, i, hne, honly⟩ := h
  have hsame : ∀ j, j ≠ i → us[j]? = vs[j]? := fun j hj => not_not.mp (mt (honly j) hj)
  have hi : i < us.length := by
    by_contra hi
    refine hne ?_
    rw [List.getElem?_eq_none (by omega), List.getElem?_eq_none (by omega)]
  have hi' : i < vs.length := hlength ▸ hi
  have hstart : us.take i = vs.take i := by
    refine List.ext_getElem? fun j => ?_
    rw [List.getElem?_take, List.getElem?_take]
    split
    case isTrue hj => exact hsame j (Nat.ne_of_lt hj)
    case isFalse => rfl
  have hrest : us.drop (i + 1) = vs.drop (i + 1) := by
    refine List.ext_getElem? fun j => ?_
    rw [List.getElem?_drop, List.getElem?_drop]
    exact hsame _ (by omega)
  refine ⟨us.take i, us[i], vs[i], us.drop (i + 1), ?_, ?_, ?_⟩
  · rw [List.getElem_cons_drop, List.take_append_drop]
  · rw [hstart, hrest, List.getElem_cons_drop, List.take_append_drop]
  · rwa [List.getElem?_eq_getElem hi, List.getElem?_eq_getElem hi', ne_eq, Option.some_inj] at hne

theorem foldl_hashStep_ne {us vs : List UInt16} (h : DifferOnce us vs) (k : UInt32) :
    us.foldl hashStep k ≠ vs.foldl hashStep k := by
  obtain ⟨start, u, v, rest, rfl, rfl, hne⟩ := h.exists_append
  rw [List.foldl_append, List.foldl_append, List.foldl_cons, List.foldl_cons, ne_eq,
    foldl_hashStep_inj, hashStep_right_inj]
  exact hne

/-- Values that differ in one of their units, and are as long as each other, have different hashes.
What is written after two values makes no difference to whether they have the same hash. -/
theorem hash_keeps_apart :
    (∀ s t : String, DifferOnce (units s) (units t) → hash s ≠ hash t) ∧
      ∀ p q s : String, hash (p ++ s) = hash (q ++ s) ↔ hash p = hash q := by
  refine ⟨fun s t h => foldl_hashStep_ne h hashBasis, fun p q s => ?_⟩
  rw [hash_append, hash_append]
  exact foldl_hashStep_inj (units s)

/-- Two characters outside the basic plane that share their first surrogate. -/
theorem hash_keeps_apart_surrogates :
    DifferOnce (units "📦") (units "📧") ∧ hash "📦" ≠ hash "📧" := by
  have hbox : units "📦" = [0xd83d, 0xdce6] := by decide
  have hmail : units "📧" = [0xd83d, 0xdce7] := by decide
  have hdiffer : DifferOnce (units "📦") (units "📧") := by
    rw [hbox, hmail]
    refine ⟨rfl, 1, by decide, ?_⟩
    rintro (_ | _ | i) hi
    · exact absurd rfl hi
    · rfl
    · exact absurd rfl hi
  exact ⟨hdiffer, hash_keeps_apart.1 _ _ hdiffer⟩

end LabelPress.Barcode
