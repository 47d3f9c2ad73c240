import LiveMarkup.Proofs.Document.Pieces
import LiveMarkup.Proofs.Tree.Nesting

/-!
# Handlers and the numbers of their elements

The script finds the element of a handler by its number, and the number is written on the element:
that the two agree is the subject of this file. Both come from the count that is threaded through
the tree while the document is written (`LiveMarkup.Builder`), and it counts the elements with a
handler for the script in pre-order.

* `LiveMarkup.Layout.flatMap_handlers_elements`: the handlers of a source are those of its elements;
* `LiveMarkup.Wiring.map_ofNodes`: the wirings are the compiled handlers, in the same order;
* `LiveMarkup.Document.filter_handlerMark_document`: the elements with a number in the document are
  those of the script, with the same numbers;
* `LiveMarkup.Document.countP_number`: so a number leads to one element.
-/

namespace LiveMarkup

/-! ### Numbers in decimal -/

theorem ofNat_octet_of_isDigit {c : Char} (h : c.isDigit) : Char.ofNat (octet c).toNat = c := by
  have hle : c.toNat ≤ 57 := by
    rw [Char.isDigit, Bool.and_eq_true, decide_eq_true_eq, decide_eq_true_eq] at h
    exact h.2
  have htoNat : (octet c).toNat = c.toNat := by
    rw [octet, Nat.toUInt8, UInt8.toNat_ofNat']
    omega
  rw [htoNat, Char.ofNat_toNat]

/-- **Numbers are told apart by their digits.** -/
theorem decimalNat_injective : Function.Injective decimalNat := by
  have hdigits (n : Nat) :
      (decimalNat n).map (fun b => Char.ofNat b.toNat) = Nat.toDigits 10 n := by
    rw [decimalNat, List.map_map]
    refine (List.map_congr_left fun c hc => ?_).trans (List.map_id _)
    exact ofNat_octet_of_isDigit (Nat.isDigit_of_mem_toDigits (by omega) (by omega) hc)
  intro m n h
  calc m = Nat.ofDigitChars 10 (Nat.toDigits 10 m) 0 := Nat.ofDigitChars_ten_toDigits.symm
    _ = Nat.ofDigitChars 10 (Nat.toDigits 10 n) 0 := by rw [← hdigits, h, hdigits]
    _ = n := Nat.ofDigitChars_ten_toDigits

/-! ### The handlers of a source -/

namespace Layout

theorem elements_nodes (src : Bytes) : Node.elements (SourceTree.ofSource src).nodes =
    (ofSource src).filterMap (element? (ofSource src)) := by
  rw [Node.elements_eq_items, items_nodes, List.filterMap_filterMap]
  refine List.filterMap_congr fun x _ => ?_
  rw [item?]
  cases element? (ofSource src) x with
  | some e => rfl
  | none => cases run? x <;> rfl

/-- **The handlers of a source are those of its elements**, in pre-order. -/
theorem flatMap_handlers_elements (src : Bytes) :
    (Node.elements (SourceTree.ofSource src).nodes).flatMap Element.handlers =
      (SourceTree.ofSource src).handlers := by
  have hhandlers : (SourceTree.ofSource src).handlers = (ofSource src).flatMap Row.handlers :=
    Reading.handlers_ofLines (Line.ofSource src)
  rw [elements_nodes, hhandlers]
  generalize hrows : element? (ofSource src) = f
  have hrow (x : Row) : ((f x).map Element.handlers).getD [] = x.handlers := by
    rw [← hrows, element?, Row.handlers, Option.map_map]
    rfl
  induction ofSource src with
  | nil => rfl
  | cons x rows ih =>
    rw [List.flatMap_cons, ← ih, ← hrow x]
    cases hx : f x <;> simp [hx]

/-- **A source cannot set the marks**: no element has an attribute with a reserved key. -/
theorem unreserved_of_mem_elements {src : Bytes} {e : Element}
    (h : e ∈ Node.elements (SourceTree.ofSource src).nodes) :
    ∀ a ∈ e.attributes, isReserved a.key = false := by
  rw [elements_nodes, List.mem_filterMap] at h
  obtain ⟨x, -, hx⟩ := h
  obtain ⟨t, -, rfl⟩ := Option.map_eq_some_iff.mp hx
  exact Reading.elementOf_unreserved x.line t

end Layout

/-! ### Wirings -/

namespace Wiring

/-- **The wirings are the compiled handlers of the elements**, in order. -/
theorem map_ofNodes (ns : List Node) :
    (ofNodes ns).map (fun w => (w.event, w.statement)) =
      (((Node.elements ns).flatMap Element.handlers).filter Handler.isCompiled).map
        fun h => (h.event, h.statement) := by
  have hnumber (es : List Element) (k : Nat) :
      ((es.zipIdx k).flatMap fun y => ofElement y.2 y.1).map (fun w => (w.event, w.statement)) =
        es.flatMap fun e => (e.handlers.filter Handler.isCompiled).map
          fun h => (h.event, h.statement) := by
    induction es generalizing k with
    | nil => rfl
    | cons e es ih =>
      rw [List.zipIdx_cons, List.flatMap_cons, List.map_append, ih, List.flatMap_cons, ofElement,
        List.map_map]
      rfl
  have hall := hnumber ((Node.elements ns).filter Element.isLive) 0
  refine hall.trans ?_
  rw [List.filter_flatMap, List.map_flatMap]
  -- The elements without a number have no compiled handlers.
  induction Node.elements ns with
  | nil => rfl
  | cons e es ih =>
    rw [List.filter_cons, List.flatMap_cons]
    cases hlive : e.isLive with
    | true => rw [if_pos rfl, List.flatMap_cons, ih]
    | false =>
      have hnone : e.handlers.filter Handler.isCompiled = [] := by
        rw [Element.isLive, List.any_eq_false] at hlive
        exact List.filter_eq_nil_iff.mpr hlive
      rw [if_neg (by simp), ih, hnone]
      rfl

end Wiring

/-! ### The numbers in a document -/

/-- Whether a piece is an element with a number, as the script looks for it. -/
def Piece.hasNumber (k : Nat) (p : Piece) : Bool :=
  (Attribute.marks handlerMark p.attributes).any fun a => a.value == decimalNat k

namespace Document

/-- The elements with a handler for the script, each with its number. -/
def liveElements (ns : List Node) : List (Element × Nat) :=
  ((Node.elements ns).filter Element.isLive).zipIdx

/-- The pieces of a node with a number on them: the element, if it is live. -/
theorem filter_handlerMark_ofItem (states : StateTable) (id : Nat) {i : Item}
    (hkeys : ∀ e, i.element? = some e → ∀ a ∈ e.attributes, isReserved a.key = false) :
    (Piece.ofItem states id i).filter (Piece.isMarked handlerMark) =
      if i.isLive then (Piece.own? id i).toList else [] := by
  have hcontent : (Piece.content states i.literal i.binding?).filter
      (Piece.isMarked handlerMark) = [] := by
    refine List.filter_eq_nil_iff.mpr fun p hp => ?_
    rw [Piece.content, List.mem_append] at hp
    rcases hp with hp | hp
    · rw [List.mem_ite_nil_left, List.mem_singleton] at hp
      simp [hp.2]
    · obtain ⟨x, -, rfl⟩ := Option.map_eq_some_iff.mp (Option.mem_toList.mp hp)
      have hspan : Piece.isMarked handlerMark (Piece.placeholder x) = false := rfl
      split <;> simp [hspan]
  rw [Piece.ofItem, List.filter_append, hcontent, List.append_nil, Piece.own?, Item.isLive]
  cases he : i.element? with
  | none => simp
  | some e =>
    have hmarks := marks_handler (hkeys e he) id
    cases hlive : e.isLive <;> simp_all [Piece.isMarked, Piece.attributes]

/-- **The elements with a number in a document** are the live elements of its forest, with the same
numbers: threading the count through the tree is counting in pre-order. -/
theorem filter_handlerMark_document (states : StateTable) {ns : List Node}
    (hkeys : ∀ e ∈ Node.elements ns, ∀ a ∈ e.attributes, isReserved a.key = false) :
    (shell (body states ns)).pieces.filter (Piece.isMarked handlerMark) =
      (liveElements ns).map fun y => .element (shownTag y.1) (attributes y.2 y.1) := by
  rw [filter_pieces_document (by decide), liveElements]
  rw [Node.elements_eq_items] at hkeys ⊢
  -- The count starts anywhere: that is what the induction over the nodes needs.
  generalize Node.items ns = is at hkeys
  generalize hid : 0 = id
  clear hid
  induction is generalizing id with
  | nil => rfl
  | cons i is ih =>
    have hi : ∀ e, i.element? = some e → ∀ a ∈ e.attributes, isReserved a.key = false :=
      fun e he => hkeys e (List.mem_filterMap.mpr ⟨i, List.mem_cons_self, he⟩)
    have his := ih (fun e he => by
      obtain ⟨j, hj, hje⟩ := List.mem_filterMap.mp he
      exact hkeys e (List.mem_filterMap.mpr ⟨j, List.mem_cons_of_mem i hj, hje⟩))
    rw [Item.numbered, List.flatMap_cons, filter_handlerMark_ofItem states id hi, his,
      List.filterMap_cons, Item.isLive, Piece.own?]
    cases i.element? with
    | none => rfl
    | some e => cases hlive : e.isLive <;> simp [hlive, List.zipIdx_cons]

theorem mem_liveElements {ns : List Node} {y : Element × Nat} (h : y ∈ liveElements ns) :
    y.1 ∈ Node.elements ns ∧ y.1.isLive := by
  have hfst : y.1 ∈ (liveElements ns).map Prod.fst := List.mem_map_of_mem h
  rw [liveElements, List.zipIdx_map_fst] at hfst
  exact List.mem_filter.mp hfst

/-- **A live element carries its number and no other.** -/
theorem marks_of_mem_liveElements {ns : List Node}
    (hkeys : ∀ e ∈ Node.elements ns, ∀ a ∈ e.attributes, isReserved a.key = false)
    {y : Element × Nat} (h : y ∈ liveElements ns) :
    Attribute.marks handlerMark (attributes y.2 y.1) = [⟨handlerMark, decimalNat y.2⟩] := by
  obtain ⟨hmem, hlive⟩ := mem_liveElements h
  rw [marks_handler (hkeys y.1 hmem), if_pos hlive]

/-- **A number leads to one element** of the document. -/
theorem countP_number (states : StateTable) {ns : List Node}
    (hkeys : ∀ e ∈ Node.elements ns, ∀ a ∈ e.attributes, isReserved a.key = false) {k : Nat}
    (hk : k ∈ (liveElements ns).map Prod.snd) :
    (shell (body states ns)).pieces.countP (Piece.hasNumber k) = 1 := by
  -- An element with the number is marked, so only the live elements count.
  have hmarked (p : Piece) : (Piece.hasNumber k p && Piece.isMarked handlerMark p) =
      Piece.hasNumber k p := by
    rw [Piece.hasNumber, Piece.isMarked]
    cases Attribute.marks handlerMark p.attributes <;> simp
  calc (shell (body states ns)).pieces.countP (Piece.hasNumber k)
      = ((shell (body states ns)).pieces.filter (Piece.isMarked handlerMark)).countP
          (Piece.hasNumber k) := by
        rw [List.countP_filter]
        simp only [hmarked]
    _ = (liveElements ns).countP fun y => y.2 == k := by
        rw [filter_handlerMark_document states hkeys, List.countP_map]
        refine List.countP_congr fun y hy => ?_
        rw [Function.comp_apply, Piece.hasNumber, Piece.attributes,
          marks_of_mem_liveElements hkeys hy]
        simp [decimalNat_injective.eq_iff]
    _ = ((liveElements ns).map Prod.snd).count k := by
        rw [List.count, List.countP_map]
        rfl
    _ = 1 := by
        refine List.count_eq_one_of_mem ?_ hk
        rw [liveElements, List.zipIdx_map_snd]
        exact List.nodup_range' 1

end Document

theorem Wiring.id_mem_of_mem {ns : List Node} {w : Wiring} (h : w ∈ ofNodes ns) :
    w.id ∈ (Document.liveElements ns).map Prod.snd := by
  obtain ⟨y, hy, hw⟩ := List.mem_flatMap.mp h
  obtain ⟨a, -, rfl⟩ := List.mem_map.mp hw
  exact List.mem_map_of_mem hy

namespace Document

/-- **Handlers and elements agree.** The handlers of a source are those of its elements in
pre-order, and the script wires the compiled ones in that order. The elements with a compiled
handler are numbered from zero on in pre-order; their wirings carry these numbers, and so do the
elements of the document, each exactly once and no other element in any spelling. So every number
that the script uses leads to exactly one element. -/
theorem handlers_wired_by_number (src : Bytes) :
    let t := SourceTree.ofSource src
    let document := shell (body t.states t.nodes)
    let wirings := (elements t.states t.nodes).2.wirings
    (Node.elements t.nodes).flatMap Element.handlers = t.handlers ∧
    wirings.map (fun w => (w.event, w.statement)) =
      (t.handlers.filter Handler.isCompiled).map (fun h => (h.event, h.statement)) ∧
    (liveElements t.nodes).map Prod.fst =
      (Node.elements t.nodes).filter (fun e => e.handlers.any Handler.isCompiled) ∧
    (liveElements t.nodes).map Prod.snd = List.range (liveElements t.nodes).length ∧
    wirings = (liveElements t.nodes).flatMap (fun y =>
      (y.1.handlers.filter Handler.isCompiled).map fun h => ⟨y.2, h.event, h.statement⟩) ∧
    document.pieces.filter (Piece.isMarked handlerMark) =
      (liveElements t.nodes).map (fun y => .element (shownTag y.1) (attributes y.2 y.1)) ∧
    (∀ y ∈ liveElements t.nodes,
      Attribute.marks handlerMark (attributes y.2 y.1) = [⟨handlerMark, decimalNat y.2⟩]) ∧
    ∀ w ∈ wirings, document.pieces.countP (Piece.hasNumber w.id) = 1 := by
  intro t document wirings
  have hwirings : wirings = Wiring.ofNodes t.nodes := wirings_elements t.states t.nodes
  have hkeys : ∀ e ∈ Node.elements t.nodes, ∀ a ∈ e.attributes, isReserved a.key = false :=
    fun e => Layout.unreserved_of_mem_elements
  have hhandlers := Layout.flatMap_handlers_elements src
  rw [hwirings]
  refine ⟨hhandlers, ?_, List.zipIdx_map_fst _ _, ?_, rfl,
    filter_handlerMark_document t.states hkeys, fun y => marks_of_mem_liveElements hkeys,
    fun w hw => countP_number t.states hkeys (Wiring.id_mem_of_mem hw)⟩
  · rw [Wiring.map_ofNodes, hhandlers]
  · rw [liveElements, List.zipIdx_map_snd, List.length_zipIdx, List.range_eq_range']

/-- Two buttons below each other, of which the inner one has the number one. -/
theorem handlers_wired_by_number_nested :
    let t := SourceTree.ofSource (utf8
      "a(on: tap \x7bn.value=1\x7d)\n p\n b(on: tap \x7bn.value=2\x7d)")
    let wirings := (elements t.states t.nodes).2.wirings
    wirings.map Wiring.id = [0, 1] ∧
    ∃ w ∈ wirings, w.id = 1 ∧
      (shell (body t.states t.nodes)).pieces.countP (Piece.hasNumber w.id) = 1 := by
  intro t wirings
  have hids : (elements t.states t.nodes).2.wirings.map Wiring.id = [0, 1] := by decide +kernel
  have hone : 1 ∈ wirings.map Wiring.id := by simp [wirings, hids]
  obtain ⟨w, hw, hid⟩ := List.mem_map.mp hone
  have hwired := handlers_wired_by_number
    (utf8 "a(on: tap \x7bn.value=1\x7d)\n p\n b(on: tap \x7bn.value=2\x7d)")
  exact ⟨hids, w, hw, hid, hwired.2.2.2.2.2.2.2 w hw⟩

end Document

end LiveMarkup
