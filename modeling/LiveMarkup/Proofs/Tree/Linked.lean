import LiveMarkup.Tree.Linked
import Mathlib.Data.List.Induction
import Mathlib.Data.List.Nodup
import Mathlib.Data.List.Perm.Subperm

/-!
# The links of a forest

A cell has five links, and putting it below another one changes up to five links of three cells.
Which cell was put below which is a list of pairs, in the order of the calls, and the children of a
cell can be read off it (`LiveMarkup.Growth.below`). `LiveMarkup.LinkedForest.Follows` says that the
links of all cells are those of the children that are read off; the main statement is
`LiveMarkup.Growth.links_follow_appends`.

Two things have to be seen.

* **A call breaks off before it changes anything.** Both cells are looked up in front of the first
  change, so that only a link to a last child that is not there could stop it halfway
  (`LiveMarkup.LinkedForest.attempt_cases`), and there is no such link.
* **A cell is attached exactly if it has a parent.** A neighbour is among the children of the same
  cell, so that the three links which are looked at say the same
  (`LiveMarkup.Growth.Sound.isAttached_iff`).

Nothing is assumed about cycles: the links of a cell that is put below itself are in order as well.
-/

namespace LiveMarkup

/-! ### Neighbours in a list -/

section Neighbours

variable {i j c : Nat} {l : List Nat}

/-- Two neighbours in a list with one more entry. -/
theorem pair_isInfix_concat :
    [i, j] <:+: l ++ [c] ↔ [i, j] <:+: l ∨ (l.getLast? = some i ∧ j = c) := by
  have hlast : [i] <:+ l ↔ l.getLast? = some i := by
    rw [List.getLast?_eq_some_iff]
    exact ⟨fun ⟨s, hs⟩ => ⟨s, hs.symm⟩, fun ⟨s, hs⟩ => ⟨s, hs.symm⟩⟩
  rw [List.infix_concat_iff, List.suffix_concat_iff, or_comm]
  refine or_congr_right ⟨?_, ?_⟩
  · rintro (h | ⟨t, ht, hsuffix⟩)
    · cases h
    · have hpair : [i] ++ [j] = t ++ [c] := ht
      obtain ⟨rfl, hj⟩ := List.append_inj' hpair rfl
      exact ⟨hlast.mp hsuffix, List.singleton_inj.mp hj⟩
  · rintro ⟨hi, rfl⟩
    exact Or.inr ⟨[i], rfl, hlast.mpr hi⟩

/-- The last entry of a list without repetitions has no neighbour behind it. -/
theorem not_pair_isInfix_of_getLast? (hnodup : l.Nodup) (hlast : l.getLast? = some i) :
    ¬[i, j] <:+: l := by
  rintro ⟨s, t, rfl⟩
  rw [List.append_assoc, List.cons_append, List.singleton_append] at hnodup hlast
  have hmem : i ∈ j :: t := by
    refine List.mem_of_getLast? ?_
    rwa [List.getLast?_append_cons, List.getLast?_cons_cons] at hlast
  exact (List.nodup_cons.mp (List.nodup_append.mp hnodup).2.1).1 hmem

end Neighbours

/-! ### Following links and changing them -/

namespace Linking

variable {α β : Type} {f f' : LinkedForest} {link : Option Nat}

theorem run_bind_of_ok {m : Linking α} {a : α} (h : m.run.run f = (.ok a, f'))
    (k : α → Linking β) : (m >>= k).run.run f = (k a).run.run f' := by
  rw [ExceptT.run_bind, StateT.run_bind, h]
  rfl

theorem run_bind_of_error {m : Linking α} {e : LinkError} (h : m.run.run f = (.error e, f'))
    (k : α → Linking β) : (m >>= k).run.run f = (.error e, f') := by
  rw [ExceptT.run_bind, StateT.run_bind, h]
  rfl

theorem run_cell_of_some {x : Cell} (h : link.bind f.get? = some x) :
    (cell link).run.run f = (.ok x, f) := by
  have hget : (get : Linking LinkedForest).run.run f = (.ok f, f) := rfl
  rw [cell, run_bind_of_ok hget, h]
  rfl

theorem run_cell_of_none (h : link.bind f.get? = none) :
    (cell link).run.run f = (.error .missing, f) := by
  have hget : (get : Linking LinkedForest).run.run f = (.ok f, f) := rfl
  rw [cell, run_bind_of_ok hget, h]
  rfl

theorem run_change {i : Nat} (h : (f.get? i).isSome) (g : Cell → Cell) :
    (change (some i) g).run.run f = (.ok (), f.modify i g) := by
  obtain ⟨x, hx⟩ := Option.isSome_iff_exists.mp h
  have hlink : (some i).bind f.get? = some x := hx
  rw [change, run_bind_of_ok (run_cell_of_some hlink)]
  rfl

end Linking

/-- The cell with index `i` after the cell `c` was put below the cell `p`, whose last child was
`last`. -/
def Cell.joined (p c : Nat) (last : Option Nat) (i : Nat) (x : Cell) : Cell :=
  { x with
    parent := if i = c then some p else x.parent
    firstChild := if i = p ∧ last = none then some c else x.firstChild
    lastChild := if i = p then some c else x.lastChild
    previous := if i = c then last else x.previous
    next := if last = some i then some c else x.next }

namespace LinkedForest

variable {f : LinkedForest} {parent child : Option Nat} {i p c : Nat} {x y : Cell}

/-- The forest after the cell `c` was put below the cell `p`, whose last child was `last`. -/
def joined (f : LinkedForest) (p c : Nat) (last : Option Nat) : LinkedForest :=
  ⟨f.cells.mapIdx (Cell.joined p c last)⟩

theorem get?_joined (last : Option Nat) :
    (f.joined p c last).get? i = (f.get? i).map (Cell.joined p c last i) :=
  List.getElem?_mapIdx

theorem length_joined (last : Option Nat) : (f.joined p c last).cells.length = f.cells.length :=
  List.length_mapIdx

theorem map_element_joined (last : Option Nat) :
    (f.joined p c last).cells.map Cell.element = f.cells.map Cell.element := by
  refine List.ext_getElem? fun i => ?_
  rw [List.getElem?_map, List.getElem?_map, joined, List.getElem?_mapIdx, Option.map_map]
  rfl

theorem isSome_get? (h : i < f.cells.length) : (f.get? i).isSome := by
  rw [get?, List.getElem?_eq_getElem h]
  rfl

theorem lt_of_get? (h : f.get? i = some x) : i < f.cells.length :=
  (List.getElem?_eq_some_iff.mp h).1

theorem get?_modify (f : LinkedForest) (i k : Nat) (g : Cell → Cell) :
    (f.modify i g).get? k = (f.get? k).map fun x => if i = k then g x else x := by
  rw [get?, modify, List.getElem?_modify, get?]
  split <;> rfl

theorem isSome_get?_modify (f : LinkedForest) (i k : Nat) (g : Cell → Cell) :
    ((f.modify i g).get? k).isSome = (f.get? k).isSome := by
  rw [get?_modify, Option.isSome_map]

theorem ext_get? {f f' : LinkedForest} (h : ∀ i, f.get? i = f'.get? i) : f = f' :=
  congrArg LinkedForest.mk (List.ext_getElem? h)

/-- The links are changed one after another. -/
theorem joined_eq_modify (f : LinkedForest) (p c : Nat) (last : Option Nat) :
    f.joined p c last =
      ((last.elim (f.modify p fun x => { x with firstChild := some c }) fun l =>
        f.modify l fun x => { x with next := some c }).modify p fun x =>
          { x with lastChild := some c }).modify c fun x =>
            { x with parent := some p, previous := last } := by
  refine ext_get? fun i => ?_
  rw [get?_joined, get?_modify, get?_modify]
  cases last with
  | none =>
    rw [Option.elim_none, get?_modify, Option.map_map, Option.map_map]
    refine Option.map_congr fun z _ => ?_
    simp only [Cell.joined, Function.comp_apply, eq_comm (a := i)]
    split_ifs <;> simp_all
  | some l =>
    rw [Option.elim_some, get?_modify, Option.map_map, Option.map_map]
    refine Option.map_congr fun z _ => ?_
    simp only [Cell.joined, Function.comp_apply, eq_comm (a := i)]
    split_ifs <;> simp_all

/-- **Putting a free cell below another one** changes the links as `LiveMarkup.Cell.joined` says, if
the last child is there. -/
theorem attempt_of_free (hc : f.get? c = some x) (hfree : ¬isAttached x) (hp : f.get? p = some y)
    (hlast : ∀ l, y.lastChild = some l → (f.get? l).isSome) :
    f.attempt (some p) (some c) = (.ok (), f.joined p c y.lastChild) := by
  have hchild : (some c).bind f.get? = some x := hc
  have hparent : (some p).bind f.get? = some y := hp
  have hc' : (f.get? c).isSome := Option.isSome_of_eq_some hc
  have hp' : (f.get? p).isSome := Option.isSome_of_eq_some hp
  rw [attempt, Linking.append, Linking.run_bind_of_ok (Linking.run_cell_of_some hchild),
    if_neg hfree, Linking.run_bind_of_ok (Linking.run_cell_of_some hparent), joined_eq_modify]
  cases hl : y.lastChild with
  | none =>
    rw [if_neg (by simp), Linking.run_bind_of_ok (Linking.run_change hp' _),
      Linking.run_bind_of_ok (Linking.run_change (by rwa [isSome_get?_modify]) _),
      Linking.run_change (by rwa [isSome_get?_modify, isSome_get?_modify])]
    rfl
  | some l =>
    rw [if_pos (by simp), Linking.run_bind_of_ok (Linking.run_change (hlast l hl) _),
      Linking.run_bind_of_ok (Linking.run_change (by rwa [isSome_get?_modify]) _),
      Linking.run_change (by rwa [isSome_get?_modify, isSome_get?_modify])]
    rfl

/-- **What a call can do**: it breaks off and changes nothing, because a cell is missing or the
child is attached, or it joins two cells. -/
theorem attempt_cases (hlast : ∀ i y l, f.get? i = some y → y.lastChild = some l →
      (f.get? l).isSome) (parent child : Option Nat) :
    (f.attempt parent child = (.error .missing, f) ∧
      ∀ x, child.bind f.get? = some x → ¬isAttached x ∧ parent.bind f.get? = none) ∨
    (∃ x, child.bind f.get? = some x ∧ isAttached x ∧
      f.attempt parent child = (.error .attached, f)) ∨
    ∃ p c x y, parent = some p ∧ child = some c ∧ f.get? p = some y ∧ f.get? c = some x ∧
      ¬isAttached x ∧ f.attempt parent child = (.ok (), f.joined p c y.lastChild) := by
  cases hc : child.bind f.get? with
  | none =>
    refine Or.inl ⟨?_, fun x hx => by cases hx⟩
    rw [attempt, Linking.append, Linking.run_bind_of_error (Linking.run_cell_of_none hc)]
  | some x =>
    by_cases hattached : isAttached x
    · refine Or.inr (Or.inl ⟨x, rfl, hattached, ?_⟩)
      rw [attempt, Linking.append, Linking.run_bind_of_ok (Linking.run_cell_of_some hc),
        if_pos hattached]
      rfl
    cases hp : parent.bind f.get? with
    | none =>
      refine Or.inl ⟨?_, fun x' hx' => ?_⟩
      · rw [attempt, Linking.append, Linking.run_bind_of_ok (Linking.run_cell_of_some hc),
          if_neg hattached, Linking.run_bind_of_error (Linking.run_cell_of_none hp)]
      · obtain rfl := Option.some.inj hx'
        exact ⟨hattached, rfl⟩
    | some y =>
      obtain ⟨c, rfl, hc⟩ := Option.bind_eq_some_iff.mp hc
      obtain ⟨p, rfl, hp⟩ := Option.bind_eq_some_iff.mp hp
      exact Or.inr (Or.inr ⟨p, c, x, y, rfl, rfl, hp, hc, hattached,
        attempt_of_free hc hattached hp fun l => hlast p y l hp⟩)

/-! ### The ordered forest -/

/-- **The links of cells follow an ordered forest**, in which `below i` are the children of the cell
`i`: no cell is below two others or below one twice, following the links from the first child on
gives the children, and each link leads where the forest says. -/
structure Follows (f : LinkedForest) (below : Nat → List Nat) : Prop where
  nodup : ∀ p, (below p).Nodup
  disjoint : ∀ p q i, i ∈ below p → i ∈ below q → p = q
  children : ∀ i, f.children i = below i
  parent : ∀ i x, f.get? i = some x → ∀ p, x.parent = some p ↔ i ∈ below p
  firstChild : ∀ i x, f.get? i = some x → x.firstChild = (below i).head?
  lastChild : ∀ i x, f.get? i = some x → x.lastChild = (below i).getLast?
  next : ∀ i x, f.get? i = some x → ∀ j, x.next = some j ↔ ∃ p, [i, j] <:+: below p
  previous : ∀ i x, f.get? i = some x → ∀ j, x.previous = some j ↔ ∃ p, [j, i] <:+: below p
  inverse : ∀ i x j y, f.get? i = some x → f.get? j = some y →
    (x.next = some j ↔ y.previous = some i)
  ends : ∀ i x l z, f.get? i = some x → x.lastChild = some l → f.get? l = some z → z.next = none

end LinkedForest

/-! ### Calls -/

/-- A call on a forest: it makes a cell, or puts one below another. -/
inductive Call
  | create (element : Element)
  | append (parent child : Option Nat)

/-- The element of a cell that a call makes. -/
def Call.element? : Call → Option Element
  | .create e => some e
  | .append _ _ => none

/-- A forest, and which cells were put below which, in the order of the calls. -/
structure Growth where
  forest : LinkedForest := {}
  pairs : List (Nat × Nat) := []

namespace Growth

/-- One more call. A pair is recorded if the call came to its end. -/
def step (g : Growth) : Call → Growth
  | .create e => { g with forest := g.forest.add e }
  | .append parent child =>
    let r := g.forest.attempt parent child
    let pair? := parent.bind fun p => child.map fun c => (p, c)
    { forest := r.2, pairs := g.pairs ++ if r.1.isOk then pair?.toList else [] }

/-- What is made from nothing by calls. -/
def ofCalls (calls : List Call) : Growth := calls.foldl step {}

/-- The cells that were put below a cell, in the order of the calls. -/
def below (g : Growth) (i : Nat) : List Nat := (g.pairs.filter (·.1 = i)).map Prod.snd

theorem mem_below {g : Growth} {p i : Nat} : i ∈ g.below p ↔ (p, i) ∈ g.pairs := by
  simp [below]

/-- **The links are those of the recorded pairs**, and no cell is recorded as a child twice. -/
structure Sound (g : Growth) : Prop where
  once : (g.pairs.map Prod.snd).Nodup
  bound : ∀ e ∈ g.pairs, e.1 < g.forest.cells.length ∧ e.2 < g.forest.cells.length
  parent : ∀ i x, g.forest.get? i = some x → ∀ p, x.parent = some p ↔ i ∈ g.below p
  firstChild : ∀ i x, g.forest.get? i = some x → x.firstChild = (g.below i).head?
  lastChild : ∀ i x, g.forest.get? i = some x → x.lastChild = (g.below i).getLast?
  next : ∀ i x, g.forest.get? i = some x → ∀ j, x.next = some j ↔ ∃ p, [i, j] <:+: g.below p
  previous : ∀ i x, g.forest.get? i = some x →
    ∀ j, x.previous = some j ↔ ∃ p, [j, i] <:+: g.below p

namespace Sound

variable {g : Growth} (hg : g.Sound)

include hg

theorem nodup_below (p : Nat) : (g.below p).Nodup :=
  hg.once.sublist (List.filter_sublist.map Prod.snd)

theorem below_disjoint {p q i : Nat} (hp : i ∈ g.below p) (hq : i ∈ g.below q) : p = q := by
  have hpair := List.inj_on_of_nodup_map hg.once (mem_below.mp hp) (mem_below.mp hq) rfl
  exact congrArg Prod.fst hpair

theorem lt_of_mem_below {p i : Nat} (h : i ∈ g.below p) :
    p < g.forest.cells.length ∧ i < g.forest.cells.length :=
  hg.bound _ (mem_below.mp h)

/-- The last child is there. -/
theorem isSome_get?_lastChild (i : Nat) (y : Cell) (l : Nat) (hy : g.forest.get? i = some y)
    (hl : y.lastChild = some l) : (g.forest.get? l).isSome := by
  rw [hg.lastChild i y hy] at hl
  exact LinkedForest.isSome_get? (hg.lt_of_mem_below (List.mem_of_getLast? hl)).2

/-- **A cell is attached exactly if it was put below another one.** -/
theorem isAttached_iff {i : Nat} {x : Cell} (hx : g.forest.get? i = some x) :
    LinkedForest.isAttached x ↔ ∃ p, i ∈ g.below p := by
  rw [LinkedForest.isAttached, Bool.or_eq_true, Bool.or_eq_true, Option.isSome_iff_exists,
    Option.isSome_iff_exists, Option.isSome_iff_exists]
  simp only [hg.parent i x hx, hg.previous i x hx, hg.next i x hx]
  constructor
  · rintro ((h | ⟨j, p, h⟩) | ⟨j, p, h⟩)
    · exact h
    · exact ⟨p, h.subset (by simp)⟩
    · exact ⟨p, h.subset (by simp)⟩
  · exact fun h => Or.inl (Or.inl h)

/-- The last child has no neighbour behind it. -/
theorem not_pair_of_getLast? {p l : Nat} (hl : (g.below p).getLast? = some l) (q j : Nat) :
    ¬[l, j] <:+: g.below q := by
  intro h
  obtain rfl := hg.below_disjoint (List.mem_of_getLast? hl) (h.subset (by simp))
  exact not_pair_isInfix_of_getLast? (hg.nodup_below p) hl h

/-! ### Following the links -/

/-- Within the children of a cell, the link to the next one leads to what stands behind. -/
theorem next_of_isSuffix {p i : Nat} {r : List Nat} (h : i :: r <:+ g.below p) :
    (g.forest.get? i).bind Cell.next = r.head? := by
  have hi : i ∈ g.below p := h.subset (by simp)
  obtain ⟨x, hx⟩ := Option.isSome_iff_exists.mp (LinkedForest.isSome_get? (hg.lt_of_mem_below hi).2)
  rw [hx, Option.bind_some]
  cases r with
  | nil =>
    have hlast : (g.below p).getLast? = some i := by
      obtain ⟨s, hs⟩ := h
      rw [← hs, List.getLast?_concat]
    refine Option.eq_none_iff_forall_ne_some.mpr fun j hj => ?_
    obtain ⟨q, hq⟩ := (hg.next i x hx j).mp hj
    exact hg.not_pair_of_getLast? hlast q j hq
  | cons j r =>
    refine (hg.next i x hx j).mpr ⟨p, ?_⟩
    exact (List.prefix_append [i, j] r).isInfix.trans h.isInfix

theorem chain_of_isSuffix {p n : Nat} {r : List Nat} (h : r <:+ g.below p) (hn : r.length ≤ n) :
    g.forest.chain n r.head? = r := by
  -- What is left of the way is a suffix of the children, and the steps that may still be made are
  -- enough for it.
  induction r generalizing n with
  | nil => cases n <;> rfl
  | cons i r ih =>
    obtain ⟨m, rfl⟩ : ∃ m, n = m + 1 := ⟨n - 1, by rw [List.length_cons] at hn; omega⟩
    rw [List.head?_cons, LinkedForest.chain, hg.next_of_isSuffix h,
      ih ((List.suffix_cons i r).trans h) (by rw [List.length_cons] at hn; omega)]

/-- There are not more children than cells. -/
theorem length_below_le (p : Nat) : (g.below p).length ≤ g.forest.cells.length := by
  -- Children are indexes of cells, and no index is among them twice.
  have hsub : g.below p ⊆ List.range g.forest.cells.length :=
    fun i hi => List.mem_range.mpr (hg.lt_of_mem_below hi).2
  have hle := (List.subperm_of_subset (hg.nodup_below p) hsub).length_le
  rwa [List.length_range] at hle

/-- **Following the links gives the children.** -/
theorem children_eq (i : Nat) : g.forest.children i = g.below i := by
  have hfirst : (g.forest.get? i).bind Cell.firstChild = (g.below i).head? := by
    cases hx : g.forest.get? i with
    | some x => exact hg.firstChild i x hx
    | none =>
      -- A cell that is not there has no children.
      have hempty : g.below i = [] := by
        refine List.eq_nil_iff_forall_not_mem.mpr fun j hj => ?_
        have hi := LinkedForest.isSome_get? (hg.lt_of_mem_below hj).1
        rw [hx] at hi
        cases hi
      rw [hempty]
      rfl
  rw [LinkedForest.children, hfirst]
  exact hg.chain_of_isSuffix (List.suffix_refl _) (hg.length_below_le i)

/-- **Sound links are those of an ordered forest.** -/
theorem follows : g.forest.Follows g.below where
  nodup := hg.nodup_below
  disjoint _ _ _ := hg.below_disjoint
  children := hg.children_eq
  parent := hg.parent
  firstChild := hg.firstChild
  lastChild := hg.lastChild
  next := hg.next
  previous := hg.previous
  inverse i x j y hx hy := by rw [hg.next i x hx, hg.previous j y hy]
  ends i x l z hx hl hz := by
    rw [hg.lastChild i x hx] at hl
    refine Option.eq_none_iff_forall_ne_some.mpr fun j hj => ?_
    obtain ⟨q, hq⟩ := (hg.next l z hz j).mp hj
    exact hg.not_pair_of_getLast? hl q j hq

/-! ### One more call -/

/-- **A new cell has no links**, and none lead to it. -/
theorem create (e : Element) : (g.step (.create e)).Sound := by
  set n := g.forest.cells.length with hn
  have hlength : (g.forest.add e).cells.length = n + 1 := by
    rw [LinkedForest.add, List.length_append, List.length_singleton]
  have hnew {p i : Nat} (h : i ∈ g.below p) : p ≠ n ∧ i ≠ n :=
    ⟨Nat.ne_of_lt (hg.lt_of_mem_below h).1, Nat.ne_of_lt (hg.lt_of_mem_below h).2⟩
  have hempty : g.below n = [] :=
    List.eq_nil_iff_forall_not_mem.mpr fun j hj => (hnew hj).1 rfl
  -- A cell of the larger forest is a cell of the old one, or the new one.
  have hget {i : Nat} {x : Cell} (hx : (g.forest.add e).get? i = some x) :
      g.forest.get? i = some x ∨ (i = n ∧ x = { element := e }) := by
    rw [LinkedForest.get?, LinkedForest.add, List.getElem?_append] at hx
    split at hx
    · exact Or.inl hx
    · rename_i hi
      obtain ⟨hlt, hx⟩ := List.getElem?_eq_some_iff.mp hx
      rw [List.length_singleton] at hlt
      exact Or.inr ⟨by omega, by simpa using hx.symm⟩
  refine ⟨hg.once, fun a ha => ?_, fun i x hx => ?_, fun i x hx => ?_, fun i x hx => ?_,
    fun i x hx => ?_, fun i x hx => ?_⟩
  · have hlt := hg.bound a ha
    exact ⟨by rw [step, hlength]; omega, by rw [step, hlength]; omega⟩
  · rcases hget hx with hx | ⟨rfl, rfl⟩
    · exact hg.parent i x hx
    · exact fun p => iff_of_false (by simp) fun h => (hnew h).2 rfl
  · rcases hget hx with hx | ⟨rfl, rfl⟩
    · exact hg.firstChild i x hx
    · exact (congrArg List.head? hempty).symm
  · rcases hget hx with hx | ⟨rfl, rfl⟩
    · exact hg.lastChild i x hx
    · exact (congrArg List.getLast? hempty).symm
  · rcases hget hx with hx | ⟨rfl, rfl⟩
    · exact hg.next i x hx
    · exact fun j => iff_of_false (by simp) fun ⟨p, h⟩ => (hnew (h.subset (by simp))).2 rfl
  · rcases hget hx with hx | ⟨rfl, rfl⟩
    · exact hg.previous i x hx
    · exact fun j => iff_of_false (by simp) fun ⟨p, h⟩ => (hnew (h.subset (by simp))).2 rfl

/-- **A free cell is put below another one**: the links are those of one more pair. -/
theorem join {p c : Nat} {x y : Cell} (hp : g.forest.get? p = some y)
    (hc : g.forest.get? c = some x) (hfree : ¬LinkedForest.isAttached x) :
    Sound ⟨g.forest.joined p c y.lastChild, g.pairs ++ [(p, c)]⟩ := by
  set g' : Growth := ⟨g.forest.joined p c y.lastChild, g.pairs ++ [(p, c)]⟩ with hg'
  have hlast : y.lastChild = (g.below p).getLast? := hg.lastChild p y hp
  have hnot (q : Nat) : c ∉ g.below q := fun h => hfree ((hg.isAttached_iff hc).mpr ⟨q, h⟩)
  have hsame : g'.below p = g.below p ++ [c] := by simp [below, hg']
  have hother {q : Nat} (hq : q ≠ p) : g'.below q = g.below q := by simp [below, hg', hq.symm]
  have hmem {q i : Nat} : i ∈ g'.below q ↔ i ∈ g.below q ∨ (q = p ∧ i = c) := by
    by_cases hq : q = p
    · rw [hq, hsame, List.mem_append, List.mem_singleton]
      simp
    · simp [hother hq, hq]
  -- The only new neighbours are the former last child and the new one.
  have hpair {i j : Nat} : (∃ q, [i, j] <:+: g'.below q) ↔
      (∃ q, [i, j] <:+: g.below q) ∨ (y.lastChild = some i ∧ j = c) := by
    rw [hlast]
    constructor
    · rintro ⟨q, h⟩
      by_cases hq : q = p
      · rw [hq, hsame, pair_isInfix_concat] at h
        exact h.imp_left fun h => ⟨p, h⟩
      · exact Or.inl ⟨q, hother hq ▸ h⟩
    · rintro (⟨q, h⟩ | h)
      · by_cases hq : q = p
        · exact ⟨p, by rw [hsame, pair_isInfix_concat]; exact Or.inl (hq ▸ h)⟩
        · exact ⟨q, (hother hq).symm ▸ h⟩
      · exact ⟨p, by rw [hsame, pair_isInfix_concat]; exact Or.inr h⟩
  have hget {i : Nat} {x' : Cell} (hx' : g'.forest.get? i = some x') :
      ∃ z, g.forest.get? i = some z ∧ z.joined p c y.lastChild i = x' := by
    rw [LinkedForest.get?_joined] at hx'
    exact Option.map_eq_some_iff.mp hx'
  refine ⟨?_, fun a ha => ?_, fun i x' hx' q => ?_, fun i x' hx' => ?_, fun i x' hx' => ?_,
    fun i x' hx' j => ?_, fun i x' hx' j => ?_⟩
  · -- The new child was free, so it is in no pair yet.
    rw [List.map_append, List.nodup_append]
    refine ⟨hg.once, List.nodup_singleton _, ?_⟩
    rintro i hi j hj rfl
    obtain ⟨⟨q, k⟩, hq, rfl⟩ := List.mem_map.mp hi
    obtain rfl : k = c := List.mem_singleton.mp hj
    exact hnot q (mem_below.mpr hq)
  · rw [LinkedForest.length_joined]
    rcases List.mem_append.mp ha with ha | ha
    · exact hg.bound a ha
    · obtain rfl := List.mem_singleton.mp ha
      exact ⟨LinkedForest.lt_of_get? hp, LinkedForest.lt_of_get? hc⟩
  · obtain ⟨z, hz, rfl⟩ := hget hx'
    rw [hmem, Cell.joined]
    by_cases hi : i = c
    · subst hi
      simp [hnot, eq_comm]
    · simp [hi, hg.parent i z hz]
  · obtain ⟨z, hz, rfl⟩ := hget hx'
    -- The first child changes only if there was none.
    rw [Cell.joined, hlast, hg.firstChild i z hz]
    by_cases hi : i = p
    · subst hi
      rw [hsame]
      cases g.below i <;> simp
    · simp [hi, hother hi]
  · obtain ⟨z, hz, rfl⟩ := hget hx'
    rw [Cell.joined, hg.lastChild i z hz]
    by_cases hi : i = p
    · subst hi
      rw [hsame, List.getLast?_concat]
      simp
    · simp [hi, hother hi]
  · obtain ⟨z, hz, rfl⟩ := hget hx'
    rw [hpair, Cell.joined]
    by_cases hi : y.lastChild = some i
    · -- The former last child had nothing behind it.
      have hno : ¬∃ q, [i, j] <:+: g.below q :=
        fun ⟨q, h⟩ => hg.not_pair_of_getLast? (hlast.symm.trans hi) q j h
      simp [hi, hno, eq_comm]
    · simp [hi, hg.next i z hz]
  · obtain ⟨z, hz, rfl⟩ := hget hx'
    rw [hpair, Cell.joined]
    by_cases hi : i = c
    · -- The new child had nothing in front of it.
      have hno : ¬∃ q, [j, i] <:+: g.below q :=
        fun ⟨q, h⟩ => hnot q (hi ▸ h.subset (by simp))
      simp [hi, hi ▸ hno]
    · simp [hi, hg.previous i z hz]

/-- **What one call keeps**: the links are sound, and an element is there for each cell made. -/
theorem step (call : Call) : (g.step call).Sound ∧
    (g.step call).forest.cells.map Cell.element =
      g.forest.cells.map Cell.element ++ call.element?.toList := by
  cases call with
  | create e => exact ⟨hg.create e, by simp [Growth.step, LinkedForest.add, Call.element?]⟩
  | append parent child =>
    rw [Growth.step, Call.element?, Option.toList_none, List.append_nil]
    rcases LinkedForest.attempt_cases hg.isSome_get?_lastChild parent child with
      ⟨h, -⟩ | ⟨x, -, -, h⟩ | ⟨p, c, x, y, rfl, rfl, hp, hc, hfree, h⟩
    · rw [h]
      refine ⟨?_, rfl⟩
      simpa [Except.isOk, Except.toBool] using hg
    · rw [h]
      refine ⟨?_, rfl⟩
      simpa [Except.isOk, Except.toBool] using hg
    · rw [h]
      exact ⟨hg.join hp hc hfree, LinkedForest.map_element_joined y.lastChild⟩

end Sound

theorem sound_ofCalls (calls : List Call) : (ofCalls calls).Sound ∧
    (ofCalls calls).forest.cells.map Cell.element = calls.filterMap Call.element? := by
  induction calls using List.reverseRecOn with
  | nil =>
    refine ⟨⟨List.nodup_nil, ?_, ?_, ?_, ?_, ?_, ?_⟩, rfl⟩
    all_goals simp [ofCalls, LinkedForest.get?]
  | append_singleton calls call ih =>
    obtain ⟨hsound, helements⟩ := ih
    rw [ofCalls, List.foldl_append, List.foldl_cons, List.foldl_nil, ← ofCalls]
    refine ⟨(hsound.step call).1, ?_⟩
    rw [(hsound.step call).2, helements, List.filterMap_append]
    cases call <;> rfl

/-- **The links of a forest are those of what was put below what.** However a forest was made by
calls, some of which may have broken off: each cell has the children that were put below it, in the
order of the calls, and all links of all cells follow from these. A further call breaks off with its
own message exactly if the child is below some cell already; a call that breaks off, for this reason
or because a cell is missing, changes nothing; and all other calls come to their end. -/
theorem links_follow_appends (calls : List Call) :
    let g := ofCalls calls
    g.forest.Follows g.below ∧
    g.forest.cells.map Cell.element = calls.filterMap Call.element? ∧
    ∀ parent child : Option Nat,
      let r := g.forest.attempt parent child
      let attached := ∃ c p, child = some c ∧ c ∈ g.below p
      ((∃ e m, r.1 = .error e ∧ e.message? = some m) ↔ attached) ∧
      (∀ e, r.1 = .error e → r.2 = g.forest) ∧
      (r.1 = .ok () ↔ (parent.bind g.forest.get?).isSome ∧ (child.bind g.forest.get?).isSome ∧
        ¬attached) := by
  intro g
  have hg : g.Sound := (sound_ofCalls calls).1
  refine ⟨hg.follows, (sound_ofCalls calls).2, fun parent child => ?_⟩
  intro r attached
  have hattached {x : Cell} (hx : child.bind g.forest.get? = some x) :
      attached ↔ LinkedForest.isAttached x := by
    obtain ⟨c, rfl, hc⟩ := Option.bind_eq_some_iff.mp hx
    rw [hg.isAttached_iff hc]
    simp [attached]
  rcases LinkedForest.attempt_cases hg.isSome_get?_lastChild parent child with
    ⟨h, hmissing⟩ | ⟨x, hx, hx', h⟩ | ⟨p, c, x, y, rfl, rfl, hp, hc, hfree, h⟩
  · -- A cell is missing. A child that is below some cell is not, and would be attached.
    have hnot : ¬attached := by
      rintro ⟨c, p, rfl, hc⟩
      obtain ⟨x, hx⟩ :=
        Option.isSome_iff_exists.mp (LinkedForest.isSome_get? (hg.lt_of_mem_below hc).2)
      exact (hmissing x hx).1 ((hattached hx).mp ⟨c, p, rfl, hc⟩)
    have hfirst : r.1 = .error .missing := congrArg Prod.fst h
    refine ⟨iff_of_false ?_ hnot, fun e _ => congrArg Prod.snd h, iff_of_false ?_ ?_⟩
    · rintro ⟨e, m, he, hm⟩
      obtain rfl := Except.error.inj (hfirst.symm.trans he)
      cases hm
    · rw [hfirst]
      exact fun hok => by cases hok
    · rintro ⟨hparent, hchild, -⟩
      obtain ⟨x, hx⟩ := Option.isSome_iff_exists.mp hchild
      rw [(hmissing x hx).2] at hparent
      cases hparent
  · have hyes : attached := (hattached hx).mpr hx'
    have hfirst : r.1 = .error .attached := congrArg Prod.fst h
    refine ⟨iff_of_true ⟨.attached, _, hfirst, rfl⟩ hyes, fun e _ => congrArg Prod.snd h,
      iff_of_false ?_ fun hall => hall.2.2 hyes⟩
    rw [hfirst]
    exact fun hok => by cases hok
  · have hnot : ¬attached := fun hyes => hfree ((hattached hc).mp hyes)
    have hfirst : r.1 = .ok () := congrArg Prod.fst h
    refine ⟨iff_of_false ?_ hnot, fun e he => ?_, iff_of_true hfirst ?_⟩
    · rintro ⟨e, m, he, -⟩
      cases hfirst.symm.trans he
    · cases hfirst.symm.trans he
    · exact ⟨Option.isSome_of_eq_some hp, Option.isSome_of_eq_some hc, hnot⟩

/-- The second cell is put below the third after it was put below the first, and then nothing below
the third: both calls break off. -/
example : (ofCalls [.create { tag := utf8 "a" }, .create { tag := utf8 "b" },
    .create { tag := utf8 "c" }, .append (some 0) (some 1), .append (some 2) (some 1),
    .append (some 2) none, .append (some 0) (some 2)]).pairs = [(0, 1), (0, 2)] := by decide

end Growth

end LiveMarkup
