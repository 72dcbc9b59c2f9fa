import LabelPress.Picture.Png
import Mathlib.Algebra.Order.Field.Rat
import Mathlib.Data.List.Basic
import Mathlib.Data.List.Forall2
import Mathlib.Data.List.Pairwise
import Mathlib.Data.List.Sort
import Mathlib.Tactic.Linarith

/-!
# The pixels that are written

A picture is written as runs, and one pixel is computed for each run. What the runs stand for are
the greys of all pixels, row by row (`Picture.pixels_eq`).

The coverage of a layer is the same for two pixels side by side unless the second one is at a cut,
and it is zero outside the cuts (`IsCutAt`, `Figure.isCutAt_columns`, `Figure.isCutAt_rows`). So the
layers that are left out of a row, and those left out of a column, change nothing there
(`Picture.greyUnder_eq`), and from one cut to the next all pixels are alike. A row cut into bands at
the cuts has the pixels it would have one by one (`expandRuns_bands`). The bytes of a file are those
of the pixels (`Png.toList_pixelBytes`).
-/

namespace LabelPress

/-! ## Bands -/

/-- A repeated number at the start of a list is erased. -/
theorem eraseReps_cons_cons (a b : Nat) (l : List Nat) : (a :: b :: l).eraseReps =
    if a = b then (a :: l).eraseReps else a :: (b :: l).eraseReps := by
  have hloop (r : Nat → Nat → Bool) (a : Nat) (l acc : List Nat) :
      List.eraseRepsBy.loop r a l acc = acc.reverse ++ List.eraseRepsBy.loop r a l [] := by
    induction l generalizing a acc with
    | nil => simp [List.eraseRepsBy.loop]
    | cons b l ih =>
      unfold List.eraseRepsBy.loop
      split
      · exact ih a acc
      · rw [ih b (a :: acc), ih b [a]]
        simp
  by_cases hab : a = b
  · simp [List.eraseReps, List.eraseRepsBy, List.eraseRepsBy.loop, hab]
  · simp only [List.eraseReps, List.eraseRepsBy, List.eraseRepsBy.loop, if_neg hab]
    rw [beq_false_of_ne hab]
    simp only
    rw [hloop]
    rfl

/-- Erasing repeated numbers keeps the first one, and the rest as a part of the rest. -/
theorem exists_eraseReps_cons (a : Nat) (l : List Nat) :
    ∃ l', (a :: l).eraseReps = a :: l' ∧ l'.Sublist l ∧ ∀ n ∈ l, n = a ∨ n ∈ l' := by
  induction l generalizing a with
  | nil => exact ⟨[], rfl, List.Sublist.slnil, by simp⟩
  | cons b l ih =>
    rw [eraseReps_cons_cons]
    by_cases hab : a = b
    · obtain ⟨l', heq, hsub, hmem⟩ := ih a
      rw [if_pos hab]
      refine ⟨l', heq, hsub.cons b, ?_⟩
      rintro n (_ | ⟨_, hn⟩)
      · exact .inl hab.symm
      · exact hmem n hn
    · obtain ⟨l', heq, hsub, hmem⟩ := ih b
      rw [if_neg hab, heq]
      refine ⟨b :: l', rfl, hsub.cons_cons b, ?_⟩
      rintro n (_ | ⟨_, hn⟩)
      · exact .inr List.mem_cons_self
      · exact .inr (List.mem_cons.mpr (hmem n hn))

/-- A value that stays the same from one place to the next, for all places of a band. -/
theorem replicate_eq_map {β : Type} {g : Nat → β} {start stop : Nat}
    (h : ∀ n, start ≤ n → n + 1 < stop → g (n + 1) = g n) :
    List.replicate (stop - start) (g start) = (List.range' start (stop - start)).map g := by
  have hconst (n : Nat) (hstart : start ≤ n) : n < stop → g n = g start := by
    induction n, hstart using Nat.le_induction with
    | base => exact fun _ => rfl
    | succ n hn ih => exact fun hstop => (h n hn hstop).trans (ih (by omega))
  symm
  rw [List.eq_replicate_iff]
  refine ⟨by simp, fun b hb => ?_⟩
  obtain ⟨n, hn, rfl⟩ := List.mem_map.mp hb
  have hn := List.mem_range'_1.mp hn
  exact hconst n hn.1 (by omega)

/-- Bands that follow each other stand for a value at every place, if the value changes only where
a band starts. -/
theorem expandRuns_zip {β : Type} {g : Nat → β} {start stop : Nat} {starts : List Nat}
    (hsorted : (start :: starts).Pairwise (· ≤ ·)) (hstop : ∀ n ∈ start :: starts, n ≤ stop)
    (hg : ∀ n, start ≤ n → n + 1 < stop → n + 1 ∉ starts → g (n + 1) = g n) :
    expandRuns (((start :: starts).zip (starts ++ [stop])).map fun band =>
      (band.2 - band.1, g band.1)) = (List.range' start (stop - start)).map g := by
  induction starts generalizing start with
  | nil =>
    rw [← replicate_eq_map fun n hstart hn => hg n hstart hn List.not_mem_nil]
    simp [expandRuns]
  | cons next starts ih =>
    obtain ⟨hle, htail⟩ := List.pairwise_cons.mp hsorted
    have hnext : start ≤ next := hle next List.mem_cons_self
    have hnext' : next ≤ stop := hstop next (by simp)
    have hlow : ∀ n ∈ starts, next ≤ n := (List.pairwise_cons.mp htail).1
    have hband : List.replicate (next - start) (g start) =
        (List.range' start (next - start)).map g := replicate_eq_map fun n hn hn' =>
      hg n hn (by omega) fun hmem => by
        rcases List.mem_cons.mp hmem with heq | hmem
        · omega
        · have := hlow _ hmem
          omega
    have hrest := ih htail (fun n hn => hstop n (List.mem_cons_of_mem _ hn)) fun n hn hn' hmem =>
      hg n (by omega) hn' (by simp [hmem]; omega)
    have hwhole : List.range' start (stop - start) =
        List.range' start (next - start) ++ List.range' next (stop - next) := by
      obtain ⟨m, rfl⟩ := Nat.exists_eq_add_of_le hnext
      rw [Nat.add_sub_cancel_left, List.range'_append_1]
      congr 1
      omega
    rw [hwhole, List.map_append, ← hband, ← hrest]
    rfl

/-- A line of places cut into bands has the value of every place, if the value changes at cuts
only. -/
theorem expandRuns_bands {β : Type} {g : Nat → β} {cuts : List Int} (length : Nat)
    (hg : ∀ n : Nat, (n : Int) + 1 ∉ cuts → g (n + 1) = g n) :
    expandRuns ((bands length cuts).map fun band => (band.2, g band.1)) =
      (List.range length).map g := by
  unfold bands
  dsimp only
  generalize hinside :
    ((cuts.filter fun p => 0 < p && p < (length : Int)).map Int.toNat).mergeSort = inside
  have hmem (n : Nat) : n ∈ inside ↔ (n : Int) ∈ cuts ∧ 0 < n ∧ n < length := by
    rw [← hinside, List.mem_mergeSort, List.mem_map]
    constructor
    · rintro ⟨p, hp, rfl⟩
      simp only [List.mem_filter, Bool.and_eq_true, decide_eq_true_eq] at hp
      obtain ⟨hp, hpos, hlength⟩ := hp
      have heq : (p.toNat : Int) = p := by omega
      exact ⟨heq ▸ hp, by omega, by omega⟩
    · rintro ⟨hn, hpos, hlength⟩
      exact ⟨n, by simp [hn, hpos, hlength], by simp⟩
  have hsorted : inside.Pairwise (· ≤ ·) := by
    rw [← hinside]
    exact List.pairwise_mergeSort' (· ≤ ·) _
  obtain ⟨starts, hstarts, hsub, hkept⟩ := exists_eraseReps_cons 0 inside
  rw [hstarts, List.tail_cons, List.map_map]
  rw [List.range_eq_range']
  refine expandRuns_zip (List.pairwise_cons.mpr ⟨by simp, hsorted.sublist hsub⟩) ?_ ?_
  · rintro n (_ | ⟨_, hn⟩)
    · exact Nat.zero_le _
    · exact ((hmem n).mp (hsub.subset hn)).2.2.le
  · refine fun n _ hn hnot => hg n fun hcut => ?_
    rcases hkept (n + 1) ((hmem _).mpr ⟨by exact_mod_cast hcut, by omega, hn⟩) with h | h
    · omega
    · exact hnot h

/-! ## Cuts -/

/-- Whether a part that is covered of each place on a line changes only where a cut is, and is
nothing before the first cut and from the last one on. -/
structure IsCutAt (part : Int → Rat) (cuts : List Int) : Prop where
  step : ∀ i, i + 1 ∉ cuts → part (i + 1) = part i
  before : ∀ i, (∀ c ∈ cuts, i < c) → part i = 0
  after : ∀ i, (∀ c ∈ cuts, c ≤ i) → part i = 0

namespace IsCutAt

variable {part part' : Int → Rat} {cuts cuts' : List Int} {f : Rat → Rat → Rat}

/-- What is made of two parts changes where one of them does. -/
theorem map₂ (h : IsCutAt part cuts) (h' : IsCutAt part' cuts') (hf : f 0 0 = 0) :
    IsCutAt (fun i => f (part i) (part' i)) (cuts ++ cuts') where
  step i hi := by
    rw [List.mem_append, not_or] at hi
    rw [h.step i hi.1, h'.step i hi.2]
  before i hi := by
    rw [List.forall_mem_append] at hi
    rw [h.before i hi.1, h'.before i hi.2, hf]
  after i hi := by
    rw [List.forall_mem_append] at hi
    rw [h.after i hi.1, h'.after i hi.2, hf]

theorem map {f : Rat → Rat} (h : IsCutAt part cuts) (hf : f 0 = 0) :
    IsCutAt (fun i => f (part i)) cuts := by
  have hnothing : IsCutAt (fun _ => 0) [] := ⟨by simp, by simp, by simp⟩
  simpa using h.map₂ (f := fun q _ => f q) hnothing hf

end IsCutAt

namespace Span

/-- A position does not lie in a pixel that its whole part does not count. -/
theorem lt_or_le_of_floor_ne {q : Rat} {i : Int} (h : i ≠ q.floor) : q < i ∨ (i : Rat) + 1 ≤ q := by
  rcases lt_or_gt_of_ne h with h | h
  · refine .inr ?_
    have hle := Rat.le_floor_iff.mp (Int.add_one_le_iff.mpr h)
    push_cast at hle
    exact hle
  · exact .inl (Rat.floor_lt_iff.mp h)

theorem isCutAt_hits (s : Span) : IsCutAt (fun i => if s.hits i then 1 else 0) s.solidCuts where
  step i hi := by
    simp only [solidCuts, List.mem_cons, List.not_mem_nil, or_false, not_or] at hi
    have hstart := lt_or_le_of_floor_ne hi.1
    have hstop := lt_or_le_of_floor_ne hi.2
    have hiff : s.hits (i + 1) ↔ s.hits i := by
      unfold hits
      push_cast at hstart hstop ⊢
      grind
    simp only [hiff]
  before i hi := by
    have hstart := Rat.le_floor_iff.mp (Int.add_one_le_iff.mpr (hi _ List.mem_cons_self))
    push_cast at hstart
    refine if_neg fun hits => ?_
    linarith [hits.1]
  after i hi := by
    have hstop := Rat.floor_lt_iff.mp (Int.lt_add_one_iff.mpr (hi (s.stop + 1 / 2).floor (by
      simp [solidCuts])))
    push_cast at hstop
    refine if_neg fun hits => ?_
    linarith [hits.2]

theorem isCutAt_overlap (s : Span) : IsCutAt s.overlap s.smoothCuts where
  step i hi := by
    simp only [smoothCuts, List.mem_cons, List.not_mem_nil, or_false, not_or] at hi
    obtain ⟨hstart, hstart', hstop, hstop'⟩ := hi
    have hstart := lt_or_le_of_floor_ne hstart
    have hstop := lt_or_le_of_floor_ne hstop
    have hstart' := lt_or_le_of_floor_ne (q := s.start) (i := i) (by omega)
    have hstop' := lt_or_le_of_floor_ne (q := s.stop) (i := i) (by omega)
    unfold overlap
    push_cast at hstart hstop ⊢
    grind
  before i hi := by
    have hstart := Rat.le_floor_iff.mp (Int.add_one_le_iff.mpr (hi _ List.mem_cons_self))
    push_cast at hstart
    unfold overlap
    grind
  after i hi := by
    have hstop := Rat.floor_lt_iff.mp (hi (s.stop.floor + 1) (by simp [smoothCuts]))
    unfold overlap
    grind

end Span

theorem Region.isCutAt_columns (r : Region) (j : Int) :
    IsCutAt (fun i => r.overlap i j) r.columns.smoothCuts :=
  r.columns.isCutAt_overlap.map (f := (· * r.rows.overlap j)) (zero_mul _)

theorem Region.isCutAt_rows (r : Region) (i : Int) :
    IsCutAt (fun j => r.overlap i j) r.rows.smoothCuts :=
  r.rows.isCutAt_overlap.map (f := (r.columns.overlap i * ·)) (mul_zero _)

namespace Figure

/-- Along a row, what a figure covers changes at its cuts. -/
theorem isCutAt_columns (f : Figure) (j : Int) :
    IsCutAt (fun i => f.coverage i j) f.columnCuts := by
  cases f with
  | solid r =>
    have hcover : (fun i => (solid r).coverage i j) =
        fun i => if r.rows.hits j then (if r.columns.hits i then 1 else 0) else 0 := by
      funext i
      by_cases hj : r.rows.hits j <;> simp [coverage, Region.hits, hj]
    rw [hcover]
    exact r.columns.isCutAt_hits.map (f := fun q => if r.rows.hits j then q else 0) (by simp)
  | smooth r => exact r.isCutAt_columns j
  | ring outer inner =>
    exact IsCutAt.map₂ (f := fun q q' => if q' ≤ q then q - q' else 0) (outer.isCutAt_columns j)
      (inner.isCutAt_columns j) (by simp)

/-- Along a column, what a figure covers changes at its cuts. -/
theorem isCutAt_rows (f : Figure) (i : Int) :
    IsCutAt (fun j => f.coverage i j) f.rowCuts := by
  cases f with
  | solid r =>
    have hcover : (fun j => (solid r).coverage i j) =
        fun j => if r.columns.hits i then (if r.rows.hits j then 1 else 0) else 0 := by
      funext j
      by_cases hi : r.columns.hits i <;> simp [coverage, Region.hits, hi]
    rw [hcover]
    exact r.rows.isCutAt_hits.map (f := fun q => if r.columns.hits i then q else 0) (by simp)
  | smooth r => exact r.isCutAt_rows i
  | ring outer inner =>
    exact IsCutAt.map₂ (f := fun q q' => if q' ≤ q then q - q' else 0) (outer.isCutAt_rows i)
      (inner.isCutAt_rows i) (by simp)

end Figure

namespace CutLayer

variable {cuts : List Int} {i : Int}

/-- Whether a place is between the first and the last cut changes at cuts only. -/
theorem within_succ (h : i + 1 ∉ cuts) : within cuts (i + 1) = within cuts i := by
  unfold within
  cases hfirst : cuts.head? with
  | none => rfl
  | some first =>
    cases hlast : cuts.getLast? with
    | none => rfl
    | some last =>
      have hfirst : first ≠ i + 1 := fun heq => h (heq ▸ List.mem_of_head? hfirst)
      have hlast : last ≠ i + 1 := fun heq => h (heq ▸ List.mem_of_getLast? hlast)
      have hlow : first ≤ i + 1 ↔ first ≤ i := by omega
      have hhigh : i + 1 < last ↔ i < last := by omega
      simp only [hlow, hhigh]

/-- A place outside of sorted cuts lies before all of them or not before any. -/
theorem forall_lt_or_forall_le (hsorted : cuts.Pairwise (· ≤ ·)) (h : within cuts i = false) :
    (∀ c ∈ cuts, i < c) ∨ ∀ c ∈ cuts, c ≤ i := by
  cases cuts with
  | nil => exact .inl (by simp)
  | cons first rest =>
    have hlast := List.getLast?_eq_some_getLast (List.cons_ne_nil first rest)
    simp only [within, List.head?_cons, hlast, Bool.and_eq_false_iff, decide_eq_false_iff_not,
      not_le, not_lt] at h
    rcases h with h | h
    · refine .inl fun c hc => ?_
      rcases List.mem_cons.mp hc with rfl | hc
      · exact h
      · exact h.trans_le ((List.pairwise_cons.mp hsorted).1 c hc)
    · exact .inr fun c hc => (hsorted.rel_getLast hc).trans h

theorem pairwise_mergeSort (cuts : List Int) : cuts.mergeSort.Pairwise (· ≤ ·) := by
  exact List.pairwise_mergeSort' (· ≤ ·) cuts

end CutLayer

/-- A part is nothing outside of its cuts. -/
theorem IsCutAt.eq_zero {part : Int → Rat} {cuts : List Int} {i : Int} (h : IsCutAt part cuts)
    (hout : CutLayer.within cuts.mergeSort i = false) : part i = 0 := by
  rcases CutLayer.forall_lt_or_forall_le (CutLayer.pairwise_mergeSort cuts) hout with hi | hi
  · exact h.before i fun c hc => hi c (List.mem_mergeSort.mpr hc)
  · exact h.after i fun c hc => hi c (List.mem_mergeSort.mpr hc)

/-! ## Pictures -/

theorem Layer.over_of_coverage_eq_zero {l : Layer} {i j : Int} (h : l.figure.coverage i j = 0)
    (grey : Rat) : l.over i j grey = grey := by
  simp [Layer.over, h]

/-- Layers that do not cover a pixel leave it as it is. -/
theorem foldl_over_of_coverage_eq_zero {layers : List Layer} {i j : Int}
    (h : ∀ l ∈ layers, l.figure.coverage i j = 0) (grey : Rat) :
    layers.foldl (fun grey layer => layer.over i j grey) grey = grey := by
  induction layers generalizing grey with
  | nil => rfl
  | cons l layers ih =>
    rw [List.forall_mem_cons] at h
    rw [List.foldl_cons, Layer.over_of_coverage_eq_zero h.1, ih h.2]

namespace Picture

variable {p : Picture} {layers : List Layer} {i j : Int}

/-- The layers that are left out of a row and of a column change nothing there. -/
theorem greyUnder_eq (layers : List Layer) (i j : Int) :
    greyUnder ((layers.map CutLayer.ofLayer).filter fun l => CutLayer.within l.rows j) i j =
      layers.foldl (fun grey layer => layer.over i j grey) 1 := by
  rw [greyUnder, List.foldl_filter, List.foldl_map]
  refine List.foldl_ext _ _ _ fun grey l _ => ?_
  by_cases hrow : CutLayer.within (CutLayer.ofLayer l).rows j = true
  · by_cases hcolumn : CutLayer.within (CutLayer.ofLayer l).columns i = true
    · rw [if_pos hrow, if_pos hcolumn]
      rfl
    · have hzero := (l.figure.isCutAt_columns j).eq_zero (Bool.not_eq_true _ ▸ hcolumn)
      rw [if_pos hrow, if_neg hcolumn, Layer.over_of_coverage_eq_zero hzero]
  · have hzero := (l.figure.isCutAt_rows i).eq_zero (Bool.not_eq_true _ ▸ hrow)
    rw [if_neg hrow, Layer.over_of_coverage_eq_zero hzero]

/-- A pixel is like the one above it, unless there is a cut. -/
theorem grey_succ (h : j + 1 ∉ (p.layers.map CutLayer.ofLayer).flatMap CutLayer.rows) :
    p.grey i (j + 1) = p.grey i j := by
  refine List.foldl_ext _ _ _ fun grey l hl => ?_
  have hcut : j + 1 ∉ l.figure.rowCuts := fun hmem => h (List.mem_flatMap.mpr
    ⟨_, List.mem_map_of_mem hl, List.mem_mergeSort.mpr hmem⟩)
  have hstep := (l.figure.isCutAt_rows i).step j hcut
  simp only [Layer.over, hstep]

/-- Under given layers, a pixel is like the one to its left, unless there is a cut. -/
theorem greyUnder_succ {cut : List CutLayer} (hcut : ∀ l ∈ cut, ∃ l', CutLayer.ofLayer l' = l)
    (h : i + 1 ∉ cut.flatMap CutLayer.columns) : greyUnder cut (i + 1) j = greyUnder cut i j := by
  refine List.foldl_ext _ _ _ fun grey l hl => ?_
  have hmem : i + 1 ∉ l.columns := fun hmem => h (List.mem_flatMap.mpr ⟨l, hl, hmem⟩)
  obtain ⟨l, rfl⟩ := hcut l hl
  have hstep := (l.figure.isCutAt_columns j).step i fun hmem' =>
    hmem (List.mem_mergeSort.mpr hmem')
  have hover : l.over (i + 1) j grey = l.over i j grey := by
    simp only [Layer.over, hstep]
  rw [CutLayer.within_succ hmem]
  split
  · exact hover
  · rfl

variable {α : Type} [DecidableEq α] (tell : Rat → α)

/-- The pixels that the runs of a row stand for. -/
theorem expandRuns_rowRuns (p : Picture) (j : Nat) :
    expandRuns (rowRuns tell p.width (p.layers.map CutLayer.ofLayer) j) =
      (List.range p.width).map fun i : Nat => tell (p.grey i j) := by
  have hgrey (i : Nat) := greyUnder_eq p.layers i j
  unfold rowRuns
  dsimp only
  generalize hcut : (p.layers.map CutLayer.ofLayer).filter
    (fun l => CutLayer.within l.rows j) = cut at hgrey ⊢
  have hlayer : ∀ l ∈ cut, ∃ l', CutLayer.ofLayer l' = l := by
    intro l hl
    rw [← hcut] at hl
    obtain ⟨l', -, hl'⟩ := List.mem_map.mp (List.mem_of_mem_filter hl)
    exact ⟨l', hl'⟩
  rw [expandRuns_joinRuns, expandRuns_bands (g := fun i : Nat => tell (greyUnder cut i j))]
  · simp only [hgrey, grey]
  · intro i hi
    push_cast
    rw [greyUnder_succ hlayer hi]

/-- The pixels that the runs of a picture stand for, row by row. -/
def pixels (tell : Rat → α) (p : Picture) : List (List α) :=
  (expandRuns (p.runs tell)).map expandRuns

/-- The runs of a picture stand for the greys of all its pixels. -/
theorem pixels_eq (p : Picture) : p.pixels tell =
    (List.range p.height).map fun j : Nat =>
      (List.range p.width).map fun i : Nat => tell (p.grey i j) := by
  have hexpand (runs : List (Nat × List (Nat × α))) : (expandRuns runs).map expandRuns =
      expandRuns (runs.map fun run => (run.1, expandRuns run.2)) := by
    simp [expandRuns, List.map_flatMap, List.flatMap_map]
  rw [pixels, runs, expandRuns_joinRuns, hexpand, List.map_map]
  have hrow := expandRuns_rowRuns tell p
  simp only [Function.comp_def, hrow]
  refine expandRuns_bands (g := fun j : Nat => (List.range p.width).map fun i : Nat =>
    tell (p.grey i j)) p.height fun j hj => ?_
  push_cast
  simp only [grey_succ hj]

/-- Two pictures of one size compare pixel by pixel as their greys do. -/
theorem forall₂_pixels {tell : Rat → α} {r : α → α → Prop} {p p' : Picture}
    (hwidth : p'.width = p.width) (hheight : p'.height = p.height)
    (h : ∀ i j : Nat, r (tell (p.grey i j)) (tell (p'.grey i j))) :
    List.Forall₂ (List.Forall₂ r) (p.pixels tell) (p'.pixels tell) := by
  rw [pixels_eq, pixels_eq, hwidth, hheight, List.forall₂_map_left_iff, List.forall₂_map_right_iff,
    List.forall₂_same]
  intro j _
  rw [List.forall₂_map_left_iff, List.forall₂_map_right_iff, List.forall₂_same]
  exact fun i _ => h i j

/-- The pixel in a column and a row, if there is one. -/
def pixel? (tell : Rat → α) (p : Picture) (i j : Nat) : Option α := (p.pixels tell)[j]?.bind (·[i]?)

theorem pixel?_eq (p : Picture) (i j : Nat) : p.pixel? tell i j =
    if i < p.width ∧ j < p.height then some (tell (p.grey i j)) else none := by
  rw [pixel?, pixels_eq]
  by_cases hj : j < p.height
  · by_cases hi : i < p.width <;> simp [hi, hj]
  · simp [hj]

end Picture

/-! ## Files -/

namespace Png

theorem toList_fold_push (n : Nat) (b : UInt8) (out : ByteArray) :
    (n.fold (fun _ _ out => out.push b) out).data.toList =
      out.data.toList ++ List.replicate n b := by
  induction n with
  | zero => simp
  | succ n ih =>
    rw [Nat.fold_succ, ByteArray.data_push, Array.toList_push, ih, List.append_assoc,
      List.replicate_succ']

theorem toList_fold_append (n : Nat) (bytes out : ByteArray) :
    (n.fold (fun _ _ out => out ++ bytes) out).data.toList =
      out.data.toList ++ (List.replicate n bytes.data.toList).flatten := by
  induction n with
  | zero => simp
  | succ n ih =>
    rw [Nat.fold_succ, ByteArray.data_append, Array.toList_append, ih, List.append_assoc,
      List.replicate_succ', List.flatten_append]
    simp

theorem toList_rowBytes (runs : List (Nat × UInt8)) :
    (rowBytes runs).data.toList = 0 :: expandRuns runs := by
  have hfold (out : ByteArray) : (runs.foldl
      (fun out run => run.1.fold (fun _ _ out => out.push run.2) out) out).data.toList =
        out.data.toList ++ expandRuns runs := by
    induction runs generalizing out with
    | nil => simp [expandRuns]
    | cons run runs ih =>
      rw [List.foldl_cons, ih, toList_fold_push, List.append_assoc]
      rfl
  exact hfold _

/-- The bytes of a picture tell its greys, row by row, each row behind its mark. -/
theorem toList_pixelBytes (p : Picture) : (pixelBytes p).data.toList =
    (List.range p.height).flatMap fun j : Nat =>
      0 :: (List.range p.width).map fun i : Nat => byte (p.grey i j) := by
  have hfold (rows : List (Nat × List (Nat × UInt8))) (out : ByteArray) : (rows.foldl
      (fun out row =>
        let bytes := rowBytes row.2
        row.1.fold (fun _ _ out => out ++ bytes) out) out).data.toList =
        out.data.toList ++ ((expandRuns rows).map expandRuns).flatMap (0 :: ·) := by
    induction rows generalizing out with
    | nil => simp [expandRuns]
    | cons row rows ih =>
      have hrow : ((expandRuns (row :: rows)).map expandRuns).flatMap (0 :: ·) =
          (List.replicate row.1 (0 :: expandRuns row.2)).flatten ++
            ((expandRuns rows).map expandRuns).flatMap (0 :: ·) := by
        rw [expandRuns, List.flatMap_cons, List.map_append, List.flatMap_append,
          List.map_replicate, List.flatMap_def, List.map_replicate]
        rfl
      rw [List.foldl_cons, ih, toList_fold_append, toList_rowBytes, hrow, List.append_assoc]
  have hpixels := p.pixels_eq byte
  rw [Picture.pixels] at hpixels
  rw [pixelBytes, hfold, hpixels, List.flatMap_map]
  rfl

end Png

end LabelPress
