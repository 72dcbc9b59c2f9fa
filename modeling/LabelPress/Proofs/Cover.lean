import LabelPress.Picture.Canvas
import LabelPress.Proofs.Rounding

/-!
# What a filled box covers

A box is filled in one of two ways, as a box of pixels or tile by tile, and both cover the pixels
with their centre between the edges of the box in pixels, the left and the upper edge left out
(`Canvas.covers_of_hits`). This is so for edges in single precision that are not too close to each
other, as long as the words that pixels are counted in can hold the far edge and the way between
the edges (`Span.IsFillable`).

Both ways are looked at one direction at a time. What a box of pixels starts at and how long it is
comes from rounding a number between whole ones, which leaves it between them
(`PixelBox.middle_le`, `PixelBox.le_middle`). Its length is that of the span
(`Span.IsDots.round_length_eq`) or, far out, differs by some pixels that are not on the surface
(`Single.exists_round_length`). What a tile shows is seen from its corner, and the distance of an
edge from there is exact where the edge lies on the tile (`Span.start_seen_eq_or`).
-/

namespace LabelPress

/-- Whether a span of pixels is longer than what is not filled, in single precision, with neither
its end nor its length beyond the greatest whole number that words and single precision share. -/
def Span.IsFillable (s : Span) : Prop :=
  Fill.least < Single.round (s.stop - s.start) ∧
    s.stop - s.start ≤ PixelBox.farthest ∧ s.stop ≤ PixelBox.farthest

/-- Whether the ends of a span are in single precision. -/
def Span.IsSingle (s : Span) : Prop := Single.IsSingle s.start ∧ Single.IsSingle s.stop

theorem PixelBox.isSingle_farthest : Single.IsSingle farthest :=
  ⟨16777215, 7, by norm_num [farthest], by decide, by decide, by decide⟩

/-- Between whole numbers a span has the pixels that are counted from the one to the other. -/
theorem Span.hits_intCast_iff {m n i : Int} : Span.hits ⟨m, n⟩ i ↔ m ≤ i ∧ i < n := by
  refine and_congr ⟨fun h => ?_, fun h => ?_⟩ ⟨fun h => ?_, fun h => ?_⟩
  · refine Int.lt_add_one_iff.mp ?_
    have hlt : (m : Rat) < ((i + 1 : Int) : Rat) := by push_cast; linarith
    exact_mod_cast hlt
  · have hle : (m : Rat) ≤ i := by exact_mod_cast h
    linarith
  · have hlt : (i : Rat) < n := by linarith
    exact_mod_cast hlt
  · have hle : ((i + 1 : Int) : Rat) ≤ n := by exact_mod_cast h
    push_cast at hle
    linarith

theorem Span.bounds_intCast {m n : Int} (h : Span.IsFillable ⟨m, n⟩) :
    n - m ≤ PixelBox.farthest ∧ n ≤ PixelBox.farthest := by
  have hlength : (n : Rat) - m ≤ PixelBox.farthest := h.2.1
  have hstop : (n : Rat) ≤ PixelBox.farthest := h.2.2
  exact ⟨by exact_mod_cast hlength, by exact_mod_cast hstop⟩

/-- As far as words and single precision go together, rounding moves a number by 64 at most. -/
theorem Single.abs_round_sub_le_of_abs_le_farthest {q : Rat} (h : |q| ≤ PixelBox.farthest) :
    |round q - q| ≤ 64 := by
  have hstep : ((PixelBox.farthest : Int) : Rat) = 16777215 * 2 ^ (7 : Int) := by
    norm_num [PixelBox.farthest]
  exact (abs_round_sub_le_of_abs_le (k := 7) (by decide) (h.trans_eq hstep)).trans (by norm_num)

/-! ## Boxes of pixels -/

namespace PixelBox

/-- The middle of a pixel is not beyond a whole number if the pixel is not. -/
theorem middle_le {q p : Rat} {n : Int} (hp : Single.IsSingle p) (hq : q.floor + 1 / 2 ≤ p)
    (hpn : p < n + 1) (hn : 0 ≤ n) : middle Single.round q ≤ n := by
  have hzero : Single.towardZero (Single.round (q.floor + 1 / 2)) ≤ n :=
    Single.towardZero_le ((Single.round_le hp hq).trans_lt hpn) hn
  simp only [middle, whole, farthest]
  omega

theorem middle_intCast_le {m k : Int} (hmk : m ≤ k) (hk : 0 ≤ k) (hnear : k < 8388608) :
    middle Single.round m ≤ k := by
  have hmk' : (m : Rat) ≤ k := by exact_mod_cast hmk
  refine middle_le (Single.isSingle_add_half (by omega) hnear) ?_ (by linarith) hk
  rw [Rat.floor_intCast]
  linarith

theorem le_middle {q : Rat} {n : Int} (hn : Single.IsSingle n) (h : n ≤ q)
    (hmost : n ≤ farthest) : n ≤ middle Single.round q := by
  have hfloor : (n : Rat) ≤ q.floor := by exact_mod_cast Rat.le_floor_iff.mpr h
  have hround : (n : Rat) ≤ Single.round (q.floor + 1 / 2) :=
    Single.le_round hn (by linarith)
  have hzero := Single.le_towardZero hround
  simp only [middle, whole]
  omega

/-- The middle of a pixel at a whole position in single precision is at most the next one. -/
theorem middle_le_add_one {n : Int} (hn : Single.IsSingle n) (hpos : 0 ≤ n) :
    middle Single.round n ≤ n + 1 := by
  have hnear := (abs_le.mp (Single.abs_round_sub_le hn (n + 1 / 2))).2
  have hzero : Single.towardZero (Single.round (n + 1 / 2)) ≤ n + 1 := by
    refine Single.towardZero_le ?_ (by omega)
    push_cast
    norm_num at hnear
    linarith
  simp only [middle, Rat.floor_intCast, whole, farthest]
  omega

end PixelBox

/-- Whether a span between whole numbers has the end that its start and its length, both in single
precision, come to. -/
structure Span.IsDots (m n : Int) : Prop where
  start_isSingle : Single.IsSingle m
  exists_length : ∃ k : Int, Single.IsSingle k ∧ Single.round (m + k) = n

/-- A span of dots that ends not far out has the length that it was made with. -/
theorem Span.IsDots.round_length_eq {m n : Int} (h : IsDots m n) (hn : 0 < n)
    (hnear : n < 16777216) : Single.round (n - m) = n - m := by
  obtain ⟨k, hk, hstop⟩ := h.exists_length
  have hlow : 0 < m + k := by
    by_contra hneg
    have hle := Single.round_nonpos (q := m + k) (by exact_mod_cast not_lt.mp hneg)
    rw [hstop] at hle
    exact absurd hn (not_lt.mpr (by exact_mod_cast hle))
  have hhigh : m + k < 16777216 := by
    by_contra hfar
    have hle := Single.le_round (q := m + k)
      (Single.isSingle_intCast (n := 16777216) (by decide) (by decide))
      (by exact_mod_cast not_lt.mp hfar)
    rw [hstop] at hle
    exact absurd hnear (not_lt.mpr (by exact_mod_cast hle))
  have hexact := Single.round_of_isSingle
    (Single.isSingle_intCast (n := m + k) (by omega) hhigh.le)
  push_cast at hexact
  rw [← hstop, hexact, add_sub_cancel_left]
  exact Single.round_of_isSingle hk

/-- The length between two places is a whole number, and off by 64 at most. -/
theorem Single.exists_round_length {m n : Int} (h : m < n) (hlong : n - m ≤ PixelBox.farthest) :
    ∃ length : Int, round (n - m) = length ∧ length ≤ PixelBox.farthest ∧
      n - m - 64 ≤ length ∧ length ≤ n - m + 64 := by
  obtain ⟨length, hlength⟩ := exists_round_intCast (n - m)
  push_cast at hlength
  have hpos : (0 : Rat) < n - m := by exact_mod_cast sub_pos.mpr h
  have hlong' : (n : Rat) - m ≤ PixelBox.farthest := by exact_mod_cast hlong
  have hmost := round_le PixelBox.isSingle_farthest hlong'
  obtain ⟨hloss, hgain⟩ := abs_le.mp
    (abs_round_sub_le_of_abs_le_farthest ((abs_of_pos hpos).trans_le hlong'))
  rw [hlength] at hmost hloss hgain
  refine ⟨length, hlength, by exact_mod_cast hmost, ?_, ?_⟩
  · exact_mod_cast (by linarith : (n : Rat) - m - 64 ≤ length)
  · exact_mod_cast (by linarith : (length : Rat) ≤ n - m + 64)

namespace PixelBox

/-- A span of dots, counted in pixels, reaches over every pixel of the surface with its centre in
it, and words can hold where it ends. -/
theorem middle_le_and_lt {m n : Int} {i : Nat} (h : Span.IsDots m n) (hlong : n - m ≤ farthest)
    (hn : n ≤ farthest) (hi : i < 8192) (hmi : m ≤ i) (hin : (i : Int) < n) :
    let length := max 1 (middle Single.round (Single.round ((n : Rat) - m)))
    middle Single.round m ≤ i ∧ (i : Int) < middle Single.round m + length ∧
      length ≤ Dot.greatest ∧ middle Single.round m + length ≤ Dot.greatest := by
  -- A start on the left of the surface is moved to the first column at the farthest.
  have hstart := middle_intCast_le (m := m) (k := max m 0) (by omega) (by omega) (by omega)
  have hstart' : m ≤ middle Single.round m := le_middle h.start_isSingle le_rfl (by omega)
  obtain ⟨length, hlength, hmost, hloss, hgain⟩ :=
    Single.exists_round_length (hmi.trans_lt hin) hlong
  have hleast : i + 1 - m ≤ length := by
    rcases lt_or_ge n 16777216 with hnear | hfar
    · have hexact := hlength.symm.trans (h.round_length_eq (by omega) hnear)
      have : length = n - m := by exact_mod_cast hexact
      omega
    -- Far out, what rounding takes off the length lies beyond the surface.
    · omega
  have hlength' : Single.IsSingle length := hlength ▸ Single.isSingle_round _
  have hlow : length ≤ middle Single.round length := le_middle hlength' le_rfl hmost
  have hhigh : middle Single.round length ≤ length + 1 := middle_le_add_one hlength' (by omega)
  have hfarthest : middle Single.round length ≤ farthest := by
    simp only [middle, whole]
    omega
  rw [hlength]
  simp only [farthest] at hn hfarthest
  simp only [Dot.greatest]
  omega

/-- A region of dots is counted as a box that has the pixels of the region. -/
theorem exists_rounded? {left top right bottom : Int} {i j : Nat} (hx : Span.IsDots left right)
    (hy : Span.IsDots top bottom) (hcolumns : Span.IsFillable ⟨left, right⟩)
    (hrows : Span.IsFillable ⟨top, bottom⟩) (hi : i < 8192) (hj : j < 8192)
    (hits : Region.hits ⟨⟨left, right⟩, ⟨top, bottom⟩⟩ i j) :
    ∃ box, rounded? Single.round ⟨⟨left, right⟩, ⟨top, bottom⟩⟩ = some box ∧
      box.region.hits i j := by
  obtain ⟨hli, hir⟩ := Span.hits_intCast_iff.mp hits.1
  obtain ⟨htj, hjb⟩ := Span.hits_intCast_iff.mp hits.2
  obtain ⟨hwide, hright⟩ := Span.bounds_intCast hcolumns
  obtain ⟨htall, hbottom⟩ := Span.bounds_intCast hrows
  obtain ⟨hx, hx', hwidth, hright'⟩ := middle_le_and_lt hx hwide hright hi hli hir
  obtain ⟨hy, hy', hheight, hbottom'⟩ := middle_le_and_lt hy htall hbottom hj htj hjb
  refine ⟨_, if_pos ?_, Span.hits_intCast_iff.mpr ⟨hx, hx'⟩, Span.hits_intCast_iff.mpr ⟨hy, hy'⟩⟩
  dsimp only
  omega

end PixelBox

/-! ## Tiles -/

namespace Tile

/-- Every place on a length lies in one of the pieces. -/
theorem exists_mem_cut {length i : Nat} (h : i < length) :
    ∃ piece ∈ cut length, piece.1 ≤ i ∧ i < piece.1 + piece.2 := by
  refine ⟨(i / longest * longest, min longest (length - i / longest * longest)), ?_, ?_⟩
  · refine List.mem_map.mpr ⟨i / longest, List.mem_range.mpr ?_, rfl⟩
    simp only [longest]
    omega
  · simp only [longest]
    omega

theorem length_le_of_mem_cut {length : Nat} {piece : Nat × Nat} (h : piece ∈ cut length) :
    piece.2 ≤ longest := by
  obtain ⟨n, -, rfl⟩ := List.mem_map.mp h
  exact min_le_left _ _

end Tile

/-- Every pixel of a surface lies on one of its tiles. -/
theorem Surface.exists_mem_tiles {s : Surface} {i j : Nat} (hi : i < s.width) (hj : j < s.height) :
    ∃ t ∈ s.tiles, (t.left ≤ i ∧ i < t.left + t.width) ∧ (t.top ≤ j ∧ j < t.top + t.height) := by
  obtain ⟨columns, hcolumns, hleft, hright⟩ := Tile.exists_mem_cut hi
  obtain ⟨rows, hrows, htop, hbottom⟩ := Tile.exists_mem_cut hj
  refine ⟨⟨columns.1, rows.1, columns.2, rows.2⟩, ?_, ⟨hleft, hright⟩, ⟨htop, hbottom⟩⟩
  exact List.mem_flatMap.mpr ⟨rows, hrows, List.mem_map.mpr ⟨columns, hcolumns, rfl⟩⟩

/-- A tile has no more columns or rows than the longest one. -/
theorem Surface.length_le_of_mem_tiles {s : Surface} {t : Tile} (h : t ∈ s.tiles) :
    t.width ≤ Tile.longest ∧ t.height ≤ Tile.longest := by
  obtain ⟨rows, hrows, ht⟩ := List.mem_flatMap.mp h
  obtain ⟨columns, hcolumns, rfl⟩ := List.mem_map.mp ht
  exact ⟨Tile.length_le_of_mem_cut hcolumns, Tile.length_le_of_mem_cut hrows⟩

/-- Whether words can hold the pixels near a span, from the first column or row on. -/
def Span.IsCountable (s : Span) : Prop :=
  s.stop - s.start ≤ 2147483645 ∧ s.stop ≤ PixelBox.farthest

/-- The pixels near a span are counted, and those of the span are among them. -/
theorem Span.IsCountable.near_of_hits {s : Span} {n : Int} (h : s.IsCountable) (hn : 0 ≤ n)
    (hits : s.hits n) :
    let start := (Dot.clamp (s.start - 1 / 2 - PixelBox.slack).ceil).val
    let stop := (Dot.clamp (s.stop + 1 / 2 + PixelBox.slack).floor).val
    start ≤ n ∧ n < stop ∧ stop - start ≤ Dot.greatest := by
  obtain ⟨hlength, hstop⟩ := h
  obtain ⟨hleft, hright⟩ := hits
  have hslack : PixelBox.slack = 3 / 128 := rfl
  have hfarthest : ((PixelBox.farthest : Int) : Rat) = 2147483520 := rfl
  have hceil : (s.start - 1 / 2 - PixelBox.slack).ceil ≤ n := Rat.ceil_le_iff.mpr (by linarith)
  have hfloor : n + 1 ≤ (s.stop + 1 / 2 + PixelBox.slack).floor :=
    Rat.le_floor_iff.mpr (by push_cast; linarith)
  have hfloor' : (s.stop + 1 / 2 + PixelBox.slack).floor < 2147483522 :=
    Rat.floor_lt_iff.mpr (by push_cast; linarith)
  have hbetween : (s.stop + 1 / 2 + PixelBox.slack).floor -
      (s.start - 1 / 2 - PixelBox.slack).ceil < 2147483647 := by
    have hlow := Rat.floor_le (s.stop + 1 / 2 + PixelBox.slack)
    have hhigh : _ ≤ ((s.start - 1 / 2 - PixelBox.slack).ceil : Rat) := Rat.le_ceil
    exact_mod_cast (by linarith : ((s.stop + 1 / 2 + PixelBox.slack).floor : Rat) -
      (s.start - 1 / 2 - PixelBox.slack).ceil < 2147483647)
  simp only [Dot.val_clamp, Dot.least, Dot.greatest]
  omega

/-- A span as it is seen from a place. -/
def Span.seen (s : Span) (start : Nat) : Span :=
  ⟨Single.round (s.start + -start), Single.round (s.stop + -start)⟩

section
variable {s : Span} {start i : Nat} (hs : s.IsSingle) (hf : s.IsFillable) (hi : s.hits i)
  (hstart : start ≤ i) (hstop : i < start + 8192)

section
include hs hi hstop

/-- A span that starts ahead is seen to start where it does, and one that starts behind is seen
so. -/
theorem Span.start_seen_eq_or :
    (s.seen start).start = s.start - start ∨ (s.seen start).start ≤ 0 := by
  obtain ⟨hleft, -⟩ := hi
  have hstop' : (i : Rat) < start + 8192 := by exact_mod_cast hstop
  rw [Int.cast_natCast] at hleft
  rcases le_total (start : Rat) s.start with hahead | hbehind
  · have hexact := Single.round_of_isSingle (hs.1.sub_natCast hahead (by linarith))
    rw [sub_eq_add_neg] at hexact ⊢
    exact .inl hexact
  · exact .inr (Single.round_nonpos (by linarith))

include hstart

/-- A pixel lies in what is seen of a span if it lies in the span. -/
theorem Span.hits_seen :
    (s.seen start).start < (i : Rat) - start + 1 / 2 ∧
      (i : Rat) - start + 1 / 2 ≤ (s.seen start).stop := by
  have hstart' : (start : Rat) ≤ i := by exact_mod_cast hstart
  obtain ⟨hleft, hright⟩ := id hi
  rw [Int.cast_natCast] at hleft hright
  refine ⟨?_, ?_⟩
  · rcases start_seen_eq_or hs hi hstop with hahead | hbehind
    · rw [hahead]
      linarith
    · linarith
  · have hpixel : Single.IsSingle ((i : Rat) - start + 1 / 2) := by
      have h := Single.isSingle_add_half (n := (i : Int) - start) (by omega) (by omega)
      push_cast at h
      exact h
    exact Single.le_round hpixel (by linarith)

/-- What is seen of a span is as long as the span, or at least half a pixel. -/
theorem Span.length_seen_eq_or : (s.seen start).stop - (s.seen start).start = s.stop - s.start ∨
    1 / 2 ≤ (s.seen start).stop - (s.seen start).start := by
  obtain ⟨hleft, hright⟩ := hits_seen hs hi hstart hstop
  have hstart' : (start : Rat) ≤ i := by exact_mod_cast hstart
  have hstop' : (i : Rat) < start + 8192 := by exact_mod_cast hstop
  have hright' := hi.2
  rw [Int.cast_natCast] at hright'
  rcases start_seen_eq_or hs hi hstop with hahead | hbehind
  · rcases lt_or_ge s.stop (start + 16777216) with hnear | hfar
    · have hexact := Single.round_of_isSingle (hs.2.sub_natCast (k := start) (by linarith) hnear)
      left
      rw [hahead, seen, ← sub_eq_add_neg, ← sub_eq_add_neg, hexact]
      ring
    · have hlong : (16777216 : Rat) ≤ (s.seen start).stop := by
        have hfull := Single.isSingle_intCast (n := 16777216) (by decide) (by decide)
        push_cast at hfull
        exact Single.le_round hfull (by linarith)
      right
      linarith
  · right
    linarith

end

include hf hi hstart

/-- The pixels near what is seen of a span are counted. -/
theorem Span.isCountable_seen : (s.seen start).IsCountable := by
  obtain ⟨-, hlength, hfar⟩ := hf
  have hright := hi.2
  have hstart' : (start : Rat) ≤ i := by exact_mod_cast hstart
  have hnonneg : (0 : Rat) ≤ start := by positivity
  have hfarthest : ((PixelBox.farthest : Int) : Rat) = 2147483520 := rfl
  rw [Int.cast_natCast] at hright
  have hstop : Single.round (s.stop + -start) ≤ PixelBox.farthest :=
    Single.round_le PixelBox.isSingle_farthest (by linarith)
  refine ⟨?_, hstop⟩
  simp only [seen]
  rcases le_or_gt 0 (s.start + -start) with hahead | hbehind
  · linarith [Single.round_nonneg hahead]
  -- Each end is moved by 64 at most, and only one of the two is so far out as to be moved by more
  -- than 32.
  have hcoarse (q : Rat) (hlow : -2147483520 ≤ q) (hhigh : q ≤ 2147483520) :=
    abs_le.mp (Single.abs_round_sub_le_of_abs_le_farthest (abs_le.mpr ⟨hlow, hhigh⟩))
  have hfine (q : Rat) (hlow : -1073741760 ≤ q) (hhigh : q ≤ 1073741760) :
      -32 ≤ Single.round q - q ∧ Single.round q - q ≤ 32 := by
    have hle : |q| ≤ 16777215 * 2 ^ (6 : Int) := (abs_le.mpr ⟨hlow, hhigh⟩).trans (by norm_num)
    exact abs_le.mp ((Single.abs_round_sub_le_of_abs_le (by decide) hle).trans (by norm_num))
  rcases le_or_gt (s.stop + -start) 1073741760 with hnear | hfar
  · have hend := hfine (s.stop + -start) (by linarith) hnear
    have hbegin := hcoarse (s.start + -start) (by linarith) (by linarith)
    linarith
  · have hend := hcoarse (s.stop + -start) (by linarith) (by linarith)
    have hbegin := hfine (s.start + -start) (by linarith) (by linarith)
    linarith

include hs hstop

/-- What is seen of a span is filled. -/
theorem Span.allows_seen : Fill.allows Single.round (s.seen start) := by
  obtain ⟨hlength, hstop'⟩ := isCountable_seen hf hi hstart
  obtain ⟨hleft, hright⟩ := hits_seen hs hi hstart hstop
  have hstart' : (start : Rat) ≤ i := by exact_mod_cast hstart
  have hfarthest : (4294967296 : Rat) ≤ Fill.farthest := by
    norm_num [Fill.farthest, Single.greatest]
  have hfarthest' : ((PixelBox.farthest : Int) : Rat) = 2147483520 := rfl
  refine ⟨?_, by linarith, by linarith⟩
  rcases length_seen_eq_or hs hi hstart hstop with hsame | hlong
  · rw [hsame]
    exact hf.1
  · have hhalf : Single.IsSingle (1 / 2) := ⟨1, -1, by norm_num, by decide, by decide, by decide⟩
    have hlength := Single.le_round hhalf hlong
    have hfine : Fill.least < 1 / 2 := by norm_num [Fill.least]
    linarith

end

/-- What is kept of a span on a piece of a length has the pixels of that piece. -/
theorem Span.hits_shift_limit {s : Span} {start length i : Nat}
    (h : s.start < (i : Rat) - start + 1 / 2 ∧ (i : Rat) - start + 1 / 2 ≤ s.stop)
    (hstart : start ≤ i) (hstop : i < start + length) :
    ((s.limit 0 length).shift start).hits i := by
  have hstart' : (start : Rat) ≤ i := by exact_mod_cast hstart
  have hstop' : (i : Rat) + 1 ≤ start + length := by exact_mod_cast hstop
  simp only [hits, shift, limit, Int.cast_natCast]
  constructor
  · split <;> linarith
  · split <;> linarith

/-- A box between places that are not too far from each other is counted. -/
theorem PixelBox.ofCorner?_sub {left top right bottom : Int} (hcolumns : left < right)
    (hrows : top < bottom) (hwidth : right - left ≤ Dot.greatest)
    (hheight : bottom - top ≤ Dot.greatest) (hright : right ≤ Dot.greatest)
    (hbottom : bottom ≤ Dot.greatest) :
    ofCorner? left top (right - left) (bottom - top) = some ⟨left, top, right, bottom⟩ := by
  unfold ofCorner?
  rw [add_sub_cancel, add_sub_cancel]
  exact if_pos ⟨sub_pos.mpr hcolumns, hwidth, hright, sub_pos.mpr hrows, hheight, hbottom⟩

/-- A tile shows a pixel of a region on it, if the region is one to be filled. -/
theorem Tile.exists_show?_of_hits {t : Tile} {round : Rat → Rat} {seen : Region} {i j : Nat}
    (hallows : Fill.allows round seen.columns ∧ Fill.allows round seen.rows)
    (hcolumns : seen.columns.IsCountable) (hrows : seen.rows.IsCountable)
    (hits : seen.hits (i - t.left) (j - t.top)) (hi : t.left ≤ i ∧ i < t.left + t.width)
    (hj : t.top ≤ j ∧ j < t.top + t.height) :
    ∃ region, t.show? round (.solid seen) = some (.solid region) ∧ region.hits i j := by
  obtain ⟨hleft, hright, hwidth⟩ := hcolumns.near_of_hits (by omega) hits.1
  obtain ⟨htop, hbottom, hheight⟩ := hrows.near_of_hits (by omega) hits.2
  have hbox := PixelBox.ofCorner?_sub (hleft.trans_lt hright) (htop.trans_lt hbottom) hwidth
    hheight (Dot.val_le _) (Dot.val_le _)
  have hx := hits.1
  have hy := hits.2
  simp only [Span.hits, Int.cast_sub, Int.cast_natCast] at hx hy
  refine ⟨t.place seen, (if_pos hallows).trans ?_, Span.hits_shift_limit hx hi.1 hi.2,
    Span.hits_shift_limit hy hj.1 hj.2⟩
  have hsolid : t.solid? seen = (PixelBox.ofCorner? _ _ _ _).bind _ := rfl
  change t.solid? _ = _
  rw [hsolid, hbox, Option.bind_some]
  exact if_pos (by dsimp only [meets]; omega)

/-- A tile shows a pixel of a filled region on it. -/
theorem Tile.exists_show? {t : Tile} {r : Region} {i j : Nat}
    (hcolumns : r.columns.IsSingle ∧ r.columns.IsFillable)
    (hrows : r.rows.IsSingle ∧ r.rows.IsFillable) (hits : r.hits i j)
    (hsize : t.width ≤ longest ∧ t.height ≤ longest) (hi : t.left ≤ i ∧ i < t.left + t.width)
    (hj : t.top ≤ j ∧ j < t.top + t.height) :
    ∃ region, t.show? Single.round (.solid ⟨r.columns.seen t.left, r.rows.seen t.top⟩) =
      some (.solid region) ∧ region.hits i j := by
  obtain ⟨hwidth, hheight⟩ := hsize
  simp only [longest] at hwidth hheight
  have hx := Span.hits_seen hcolumns.1 hits.1 hi.1 (by omega)
  have hy := Span.hits_seen hrows.1 hits.2 hj.1 (by omega)
  refine exists_show?_of_hits
    ⟨Span.allows_seen hcolumns.1 hcolumns.2 hits.1 hi.1 (by omega),
      Span.allows_seen hrows.1 hrows.2 hits.2 hj.1 (by omega)⟩
    (Span.isCountable_seen hcolumns.2 hits.1 hi.1) (Span.isCountable_seen hrows.2 hits.2 hj.1) ?_
    hi hj
  simpa only [Region.hits, Span.hits, Int.cast_sub, Int.cast_natCast] using And.intro hx hy

/-! ## Filled boxes -/

namespace Canvas

variable {c : Canvas} (hround : c.round = Single.round) {b : Box} {dots : Region} {i j : Nat}
include hround

theorem view_eq (t : Tile) (r : Region) :
    c.view t r = ⟨r.columns.seen t.left, r.rows.seen t.top⟩ := by
  simp only [view, moveEnds, hround]
  rfl

theorem isSingle_scaleSpan (s : Span) : (c.scaleSpan s).IsSingle := by
  simp only [scaleSpan, pixels, hround]
  exact ⟨Single.isSingle_round _, Single.isSingle_round _⟩

/-- The dots of a box end at whole numbers, which are pixels where a dot is one. -/
theorem exists_dotSpan (start length : Dot) : ∃ m n : Int, Span.IsDots m n ∧
    c.dotSpan start length = ⟨m, n⟩ ∧
    (c.scale = 1 → c.scaleSpan (c.dotSpan start length) = ⟨m, n⟩) := by
  obtain ⟨m, hm⟩ := Single.exists_round_intCast start.val
  obtain ⟨k, hk⟩ := Single.exists_round_intCast length.val
  obtain ⟨n, hn⟩ := Single.exists_round_intCast (m + k)
  have hspan : c.dotSpan start length = ⟨m, n⟩ := by
    simp only [dotSpan, hround, hm, hk]
    rw [← Int.cast_add, hn]
  have hm' : Single.IsSingle m := hm ▸ Single.isSingle_round _
  have hk' : Single.IsSingle k := hk ▸ Single.isSingle_round _
  have hn' : Single.IsSingle n := hn ▸ Single.isSingle_round _
  refine ⟨m, n, ⟨hm', k, hk', by rw [← hn, Int.cast_add]⟩, hspan, fun hscale => ?_⟩
  rw [hspan]
  simp only [scaleSpan, pixels, hround, hscale, mul_one, Single.round_of_isSingle hm',
    Single.round_of_isSingle hn']

omit hround in
theorem eq_of_dots? (hdots : c.dots? b = some dots) :
    dots = ⟨c.dotSpan b.x b.width, c.dotSpan b.y b.height⟩ := by
  unfold dots? at hdots
  dsimp only at hdots
  split at hdots
  · exact (Option.some.inj hdots).symm
  · cases hdots

/-- A box is filled with a layer that covers the pixels with their centre between its edges. -/
theorem covers_of_hits (hdots : c.dots? b = some dots)
    (hcolumns : (c.scaleRegion dots).columns.IsFillable)
    (hrows : (c.scaleRegion dots).rows.IsFillable) (hi : i < c.width) (hj : j < c.height)
    (hits : (c.scaleRegion dots).hits i j) (ink : Ink) :
    ∃ region, ⟨ink, 1, .solid region⟩ ∈ c.fill ink b ∧ region.hits i j := by
  unfold fill
  rw [hdots]
  dsimp only
  split
  · rename_i hwhole
    obtain ⟨hscale, hcut⟩ := hwhole
    simp only [Surface.isCut, Tile.longest, not_or, not_lt] at hcut
    obtain rfl := eq_of_dots? hdots
    obtain ⟨left, right, hleft, hx, hx'⟩ := exists_dotSpan hround b.x b.width
    obtain ⟨top, bottom, htop, hy, hy'⟩ := exists_dotSpan hround b.y b.height
    simp only [scaleRegion, hx' hscale, hy' hscale] at hcolumns hrows hits
    obtain ⟨box, hbox, hregion⟩ := PixelBox.exists_rounded? hleft htop hcolumns hrows (by omega)
      (by omega) hits
    refine ⟨box.region, ?_, hregion⟩
    rw [hround, hx, hy, hbox]
    exact List.mem_singleton.mpr rfl
  · obtain ⟨t, ht, hti, htj⟩ := c.exists_mem_tiles hi hj
    obtain ⟨region, hshow, hregion⟩ := Tile.exists_show? (r := c.scaleRegion dots)
      ⟨isSingle_scaleSpan hround _, hcolumns⟩ ⟨isSingle_scaleSpan hround _, hrows⟩ hits
      (Surface.length_le_of_mem_tiles ht) hti htj
    refine ⟨region, List.mem_filterMap.mpr ⟨t, ht, ?_⟩, hregion⟩
    rw [Figure.map, view_eq hround, hround, hshow]
    rfl

end Canvas

end LabelPress
