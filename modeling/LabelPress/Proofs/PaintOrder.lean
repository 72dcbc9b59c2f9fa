import LabelPress.Layout
import Mathlib.Data.List.Basic
import Mathlib.Data.List.Nodup

/-!
# The order of painting

A command draws one element, or none if it is a text without a value (`Command.element?`).
The elements of a layout are those of its commands, kind by kind: first the rules, then the
barcodes, then the texts, each kind in the order of the commands (`elements_layout`).

`IsPaintOrder` says the same without building the list. Every element has one command that it
comes from, its source; the sources are all the commands that draw, none of them twice, and
they are sorted by kind first and by place second. The elements of the layout are such a list
(`isPaintOrder_layout`), and there is no other (`IsPaintOrder.elements_eq`).

What is drawn for two lists of commands one after the other is, kind by kind, what is drawn
for the first and then what is drawn for the second (`filter_kind_layout_append`).
-/

namespace LabelPress

/-! ## Kinds -/

/-- The kinds of things that are drawn. -/
inductive Kind where
  | rule
  | barcode
  | text
deriving DecidableEq

namespace Kind

/-- The kinds in the order in which they are painted. -/
def order : List Kind := [rule, barcode, text]

/-- The place of a kind in the order of painting. -/
def rank : Kind → Nat
  | rule => 0
  | barcode => 1
  | text => 2

end Kind

/-- The kind of a command. -/
def Command.kind (c : Command) : Kind :=
  match c.shape with
  | .rule _ => .rule
  | .barcode _ => .barcode
  | .text _ => .text

/-- The kind of an element. -/
def Element.kind : Element → Kind
  | rule _ => .rule
  | barcode _ => .barcode
  | text _ => .text

namespace Command

/-- What a command draws, if it draws anything. -/
def element? (c : Command) : Option Element :=
  match c.shape with
  | .rule spec => some (.rule (placeRule c.x c.y spec))
  | .barcode spec => some (.barcode (Barcode.place c.x c.y spec))
  | .text spec => (placeText c.x c.y spec).map .text

/-- A command draws nothing exactly if it is a text without a value. -/
theorem element?_eq_none_iff {c : Command} :
    c.element? = none ↔ ∃ spec, c.shape = .text spec ∧ spec.value = "" := by
  unfold element?
  cases h : c.shape with
  | rule spec => simp
  | barcode spec => simp
  | text spec =>
    by_cases hvalue : spec.value = ""
    · simp [placeText, hvalue]
    · simp [placeText, hvalue]

/-- What a command draws is of its own kind. -/
theorem kind_of_element?_eq_some {c : Command} {e : Element} (h : c.element? = some e) :
    e.kind = c.kind := by
  unfold element? at h
  unfold kind
  cases hshape : c.shape with
  | rule spec =>
    rw [hshape] at h
    obtain rfl := Option.some.inj h
    rfl
  | barcode spec =>
    rw [hshape] at h
    obtain rfl := Option.some.inj h
    rfl
  | text spec =>
    rw [hshape] at h
    obtain ⟨run, -, rfl⟩ := Option.map_eq_some_iff.mp h
    rfl

end Command

/-! ## What a kind draws -/

/-- What the commands of a kind draw, in their order. -/
def drawn (k : Kind) (cs : List Command) : List Element :=
  (cs.filter fun c => c.kind = k).filterMap Command.element?

theorem drawn_append (k : Kind) (as bs : List Command) :
    drawn k (as ++ bs) = drawn k as ++ drawn k bs := by
  rw [drawn, List.filter_append, List.filterMap_append, ← drawn, ← drawn]

theorem kind_of_mem_drawn {k : Kind} {cs : List Command} {e : Element} (h : e ∈ drawn k cs) :
    e.kind = k := by
  obtain ⟨c, hc, he⟩ := List.mem_filterMap.mp h
  rw [Command.kind_of_element?_eq_some he]
  simpa using (List.mem_filter.mp hc).2

/-- What is drawn of a kind is what one pass over the commands gives that leaves the other kinds
out. -/
theorem drawn_eq_map_filterMap {α : Type} {k : Kind} {place? : Command → Option α}
    {wrap : α → Element} (cs : List Command)
    (h : ∀ c, (if c.kind = k then c.element? else none) = (place? c).map wrap) :
    drawn k cs = (cs.filterMap place?).map wrap := by
  rw [drawn, List.filterMap_filter, List.map_filterMap]
  simp only [decide_eq_true_eq, h]

/-- The elements of a layout, kind by kind. -/
theorem elements_layout (cs : List Command) :
    (layout cs).elements = Kind.order.flatMap fun k => drawn k cs := by
  have hrules : drawn .rule cs = (cs.filterMap Command.rule?).map .rule := by
    refine drawn_eq_map_filterMap cs fun c => ?_
    cases h : c.shape <;> simp [Command.kind, Command.element?, Command.rule?, h]
  have hbarcodes : drawn .barcode cs = (cs.filterMap Command.barcode?).map .barcode := by
    refine drawn_eq_map_filterMap cs fun c => ?_
    cases h : c.shape <;> simp [Command.kind, Command.element?, Command.barcode?, h]
  have htexts : drawn .text cs = (cs.filterMap Command.text?).map .text := by
    refine drawn_eq_map_filterMap cs fun c => ?_
    cases h : c.shape <;> simp [Command.kind, Command.element?, Command.text?, h]
  simp [Kind.order, layout, hrules, hbarcodes, htexts]

/-- The elements of one kind are what the commands of this kind draw. -/
theorem filter_kind_layout (k : Kind) (cs : List Command) :
    (layout cs).elements.filter (fun e => e.kind = k) = drawn k cs := by
  have hself : ∀ j, (drawn j cs).filter (fun e => e.kind = k) =
      if j = k then drawn j cs else [] := by
    intro j
    split
    case isTrue hk =>
      refine List.filter_eq_self.mpr fun e he => ?_
      simp [kind_of_mem_drawn he, hk]
    case isFalse hk =>
      refine List.filter_eq_nil_iff.mpr fun e he => ?_
      simp [kind_of_mem_drawn he, hk]
  rw [elements_layout, List.filter_flatMap]
  simp only [hself]
  cases k <;> simp [Kind.order]

/-- The elements for two lists of commands, kind by kind. -/
theorem filter_kind_layout_append (k : Kind) (as bs : List Command) :
    (layout (as ++ bs)).elements.filter (fun e => e.kind = k) =
      (layout as).elements.filter (fun e => e.kind = k)
        ++ (layout bs).elements.filter (fun e => e.kind = k) := by
  simp only [filter_kind_layout, drawn_append]

/-- A list that is made up kind by kind is in order if each part is, and if parts of an earlier
kind come before those of a later one. -/
theorem pairwise_order_flatMap {α : Type} {R : α → α → Prop} {f : Kind → List α}
    (hsame : ∀ k, (f k).Pairwise R)
    (hnext : ∀ j k, j.rank < k.rank → ∀ a ∈ f j, ∀ b ∈ f k, R a b) :
    (Kind.order.flatMap f).Pairwise R := by
  have horder : Kind.order.Pairwise fun j k => j.rank < k.rank := by decide
  exact List.pairwise_flatMap.mpr ⟨fun k _ => hsame k, horder.imp (hnext _ _)⟩

/-- No element is painted before one of an earlier kind. -/
theorem pairwise_rank_layout (cs : List Command) :
    (layout cs).elements.Pairwise fun e f => e.kind.rank ≤ f.kind.rank := by
  rw [elements_layout]
  refine pairwise_order_flatMap (fun k => ?_) fun j k hjk e he f hf => ?_
  · refine List.pairwise_of_forall_mem_list fun e he f hf => ?_
    have hkind : e.kind = f.kind := (kind_of_mem_drawn he).trans (kind_of_mem_drawn hf).symm
    exact Nat.le_of_eq (congrArg Kind.rank hkind)
  · rw [kind_of_mem_drawn he, kind_of_mem_drawn hf]
    exact Nat.le_of_lt hjk

/-! ## Sources -/

/-- The places of the commands of a kind that draw. -/
def sources (k : Kind) (cs : List Command) : List Nat :=
  (cs.zipIdx.filter fun c => c.1.element?.isSome && c.1.kind = k).map Prod.snd

theorem mem_sources {k : Kind} {cs : List Command} {i : Nat} :
    i ∈ sources k cs ↔ ∃ c, cs[i]? = some c ∧ c.kind = k ∧ c.element? ≠ none := by
  simp only [sources, List.mem_map, List.mem_filter, List.mem_zipIdx_iff_getElem?, Prod.exists,
    exists_eq_right, Bool.and_eq_true, decide_eq_true_eq, Option.isSome_iff_ne_none,
    and_comm (a := Command.element? _ ≠ none)]

/-- The commands of a kind are in their order. -/
theorem pairwise_lt_sources (k : Kind) (cs : List Command) : (sources k cs).Pairwise (· < ·) := by
  have hsub : (sources k cs).Sublist (List.range' 0 cs.length) := by
    rw [← List.zipIdx_map_snd]
    exact List.filter_sublist.map Prod.snd
  exact List.Pairwise.sublist hsub List.pairwise_lt_range'

/-- What is kept by a function is kept from where it gives something. -/
theorem map_some_filterMap {α β : Type} (f : α → Option β) (as : List α) :
    (as.filterMap f).map some = (as.filter fun a => (f a).isSome).map f := by
  induction as with
  | nil => rfl
  | cons a as ih => cases h : f a <;> simp [h, ih]

/-- Each element of a kind is what the command at its source draws. -/
theorem map_some_drawn (k : Kind) (cs : List Command) :
    (drawn k cs).map some = (sources k cs).map fun i => cs[i]?.bind Command.element? := by
  have hkept : (cs.filter fun c => c.element?.isSome && c.kind = k) =
      (cs.zipIdx.filter fun c => c.1.element?.isSome && c.1.kind = k).map Prod.fst := by
    conv_lhs => rw [← List.zipIdx_map_fst 0 cs]
    rw [List.filter_map]
    rfl
  rw [drawn, map_some_filterMap, List.filter_filter, hkept, List.map_map, sources, List.map_map]
  refine List.map_congr_left fun c hc => ?_
  have hplace : cs[c.2]? = some c.1 := List.mem_zipIdx_iff_getElem?.mp (List.mem_filter.mp hc).1
  simp [hplace]

/-- The command at place `i` is painted before the one at place `j`: it is of an earlier kind,
or of the same kind and comes first. -/
def PaintedBefore (cs : List Command) (i j : Nat) : Prop :=
  ∃ c d, cs[i]? = some c ∧ cs[j]? = some d ∧ (c.kind.rank < d.kind.rank ∨ c.kind = d.kind ∧ i < j)

/-- Painting is never in a circle. -/
theorem PaintedBefore.asymm {cs : List Command} {i j : Nat} (h : PaintedBefore cs i j) :
    ¬ PaintedBefore cs j i := by
  rintro ⟨d', c', hd', hc', h'⟩
  obtain ⟨c, d, hc, hd, h⟩ := h
  obtain rfl : c = c' := Option.some.inj (hc.symm.trans hc')
  obtain rfl : d = d' := Option.some.inj (hd.symm.trans hd')
  rcases h with h | ⟨hkind, h⟩
  · rcases h' with h' | ⟨hkind', -⟩
    · exact Nat.lt_asymm h h'
    · exact absurd h (hkind' ▸ Nat.lt_irrefl _)
  · rcases h' with h' | ⟨-, h'⟩
    · exact absurd h' (hkind ▸ Nat.lt_irrefl _)
    · exact Nat.lt_asymm h h'

/-- The elements are those of the commands, in the order of painting. -/
structure IsPaintOrder (cs : List Command) (elements : List Element) (sources : List Nat) :
    Prop where
  /-- Each element is what the command at its source draws. -/
  drawn : elements.map some = sources.map fun i => cs[i]?.bind Command.element?
  /-- The sources are the places of all commands that draw. -/
  mem : ∀ i, i ∈ sources ↔ ∃ c, cs[i]? = some c ∧ c.element? ≠ none
  /-- They are in the order of painting, so no command is the source of two elements. -/
  sorted : sources.Pairwise (PaintedBefore cs)

/-- The elements of a layout are those of the commands, in the order of painting. -/
theorem isPaintOrder_layout (cs : List Command) :
    IsPaintOrder cs (layout cs).elements (Kind.order.flatMap fun k => sources k cs) where
  drawn := by
    simp only [elements_layout, List.map_flatMap, map_some_drawn]
  mem i := by
    simp only [List.mem_flatMap, mem_sources]
    constructor
    · rintro ⟨k, -, c, hc, -, he⟩
      exact ⟨c, hc, he⟩
    · rintro ⟨c, hc, he⟩
      exact ⟨c.kind, by cases c.kind <;> decide, c, hc, rfl, he⟩
  sorted := by
    refine pairwise_order_flatMap (fun k => ?_) fun j k hjk a ha b hb => ?_
    · refine (pairwise_lt_sources k cs).imp_of_mem fun ha hb hab => ?_
      obtain ⟨c, hc, hck, -⟩ := mem_sources.mp ha
      obtain ⟨d, hd, hdk, -⟩ := mem_sources.mp hb
      exact ⟨c, d, hc, hd, Or.inr ⟨hck.trans hdk.symm, hab⟩⟩
    · obtain ⟨c, hc, rfl, -⟩ := mem_sources.mp ha
      obtain ⟨d, hd, rfl, -⟩ := mem_sources.mp hb
      exact ⟨c, d, hc, hd, Or.inl hjk⟩

/-- There is only one list of elements in the order of painting. -/
theorem IsPaintOrder.elements_eq {cs : List Command} {es fs : List Element} {is js : List Nat}
    (he : IsPaintOrder cs es is) (hf : IsPaintOrder cs fs js) : es = fs := by
  have hnodup : ∀ {ks : List Nat}, ks.Pairwise (PaintedBefore cs) → ks.Nodup := by
    intro ks hks
    refine hks.imp ?_
    rintro i _ h rfl
    exact h.asymm h
  have hperm : is.Perm js := by
    refine (List.perm_ext_iff_of_nodup (hnodup he.sorted) (hnodup hf.sorted)).mpr fun i => ?_
    rw [he.mem, hf.mem]
  obtain rfl : is = js :=
    hperm.eq_of_pairwise (fun _ _ _ _ h h' => absurd h' h.asymm) he.sorted hf.sorted
  exact (List.map_inj_right fun _ _ => Option.some.inj).mp (he.drawn.trans hf.drawn.symm)

/-- The elements of a layout are the only ones in the order of painting: what the rules draw,
then what the barcodes draw, then what the texts draw, each kind in the order of the commands.
Every command gives one element, but for a text without a value, which gives none. What two
lists of commands draw one after the other is, kind by kind, what each of them draws. -/
theorem layout_in_paintOrder (as bs : List Command) :
    (layout as).elements = drawn .rule as ++ drawn .barcode as ++ drawn .text as ∧
      (∀ es, (∃ is, IsPaintOrder as es is) ↔ es = (layout as).elements) ∧
      (∀ c : Command, c.element? = none ↔ ∃ spec, c.shape = .text spec ∧ spec.value = "") ∧
      (∀ k, (layout (as ++ bs)).elements.filter (fun e => e.kind = k) =
        (layout as).elements.filter (fun e => e.kind = k)
          ++ (layout bs).elements.filter (fun e => e.kind = k)) ∧
      (layout as).elements.Pairwise fun e f => e.kind.rank ≤ f.kind.rank := by
  refine ⟨?_, fun es => ⟨?_, ?_⟩, fun _ => Command.element?_eq_none_iff,
    fun k => filter_kind_layout_append k as bs, pairwise_rank_layout as⟩
  · simp [elements_layout, Kind.order]
  · rintro ⟨is, h⟩
    exact h.elements_eq (isPaintOrder_layout as)
  · rintro rfl
    exact ⟨_, isPaintOrder_layout as⟩

end LabelPress
