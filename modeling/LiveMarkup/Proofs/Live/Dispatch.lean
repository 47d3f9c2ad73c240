import LiveMarkup.Proofs.Document.Hosting
import LiveMarkup.Proofs.Live.Coherence
import LiveMarkup.Proofs.Statement

/-!
# Dispatching an event is firing handlers

An event reaches a running page with the number of an element. The page looks the number up among
its wirings, which were made with the document; the handlers of the source were collected while it
was read, and know nothing of numbers. This file shows that the two ways lead to the same handlers:
those of the element of the document that carries the number.

* `LiveMarkup.Document.placedHandlers` lists the handlers of a source, each with the index of its
  element among the pieces of the document;
* `LiveMarkup.Wiring.ofNodes_eq_places` says that the wirings of a page are its compiled handlers,
  each with the number in front of its place;
* `LiveMarkup.Document.markAt?_of_mem_places` says that this number, and no other, is on the element
  of the document.

Carrying out statements and firing handlers, one after another up to the first error, is then the
same (`LiveMarkup.Store.runAll_map_statement`).
-/

namespace LiveMarkup

/-- The numeral of an integer is that of a natural number only if the two are equal. -/
theorem decimalNat_eq_decimalInt_iff {n : Nat} {id : Int} :
    decimalNat n = decimalInt id ↔ (n : Int) = id := by
  cases id with
  | ofNat m => rw [decimalInt, decimalNat_injective.eq_iff, Int.ofNat_eq_natCast, Int.natCast_inj]
  | negSucc m =>
    -- A minus sign is not a digit.
    have hminus : decimalNat n ≠ decimalInt (.negSucc m) := fun h => by
      have hmem : octet '-' ∈ decimalNat n := by
        rw [h]
        exact List.mem_cons_self
      exact absurd (isDigitOctet_of_mem_decimalNat hmem) (by decide)
    exact iff_of_false hminus (by omega)

theorem Wiring.ofNodes_eq_places (states : StateTable) (index : Nat) (ns : List Node) :
    ofNodes ns = (Node.placeAll states [] 0 index ns).flatMap fun y =>
      ofItem y.number y.item := by
  rw [ofNodes_eq_numbered, ← Node.map_number_placeAll states [] 0 index ns, List.flatMap_map]

/-! ### The element of a handler in the document -/

/-- The number on an element of a document, as it is written. -/
def Piece.mark? (p : Piece) : Option Bytes := Attribute.get? handlerMark p.attributes

/-- The number on the piece with an index, if there is such a piece and it has a number. -/
def Markup.markAt? (m : Markup) (k : Nat) : Option Bytes := (m.pieces[k]?).bind Piece.mark?

/-- The value of a mark is found among the attributes that are the mark. -/
theorem Attribute.get?_of_marks {mark : Bytes} (hmark : sameFolded mark mark)
    (as : List Attribute) :
    get? mark as = get? mark (marks mark as) := by
  rw [get?, get?, marks, List.find?_filter]
  congr 2
  funext a
  by_cases ha : a.key = mark
  · simp [ha, hmark]
  · simp [ha]

namespace Document

/-- The handlers of a source in order, each with the index of its element among the pieces of the
document. -/
def placedHandlers (t : SourceTree) : List (Handler × Nat) :=
  (Node.placeAll t.states [] 0 framePieces.length t.nodes).flatMap fun y =>
    y.item.handlers.map (·, y.index)

theorem map_fst_placedHandlers (src : Bytes) :
    (placedHandlers (SourceTree.ofSource src)).map Prod.fst =
      (SourceTree.ofSource src).handlers := by
  rw [← Layout.flatMap_handlers_elements, Node.elements_eq_items, placedHandlers,
    ← Node.map_item_placeAll (SourceTree.ofSource src).states [] 0 framePieces.length,
    List.map_flatMap]
  generalize Node.placeAll _ _ _ _ _ = places
  induction places with
  | nil => rfl
  | cons y places ih =>
    rw [List.flatMap_cons, ih, List.map_cons, List.filterMap_cons, Item.handlers, List.map_map]
    cases y.item.element? with
    | none => rfl
    | some e => exact congrArg (· ++ _) (List.map_id e.handlers)

/-- **An element of the source is found at its index** among the pieces of the document. -/
theorem getElem?_pieces_of_mem_places (states : StateTable) {ns : List Node} {y : Place}
    (hy : y ∈ Node.placeAll states [] 0 framePieces.length ns) {e : Element}
    (he : y.item = .element e) :
    (shell (body states ns)).pieces[y.index]? =
      some (.element (shownTag e) (attributes y.number e)) := by
  have hindexed := Node.indexedFrom_placeAll states [] 0 framePieces.length ns
  have hown : y.hosted states = (y.host?, .element (shownTag e) (attributes y.number e)) ::
      (Piece.content states e.text e.binding).map (y.inner?, ·) := by
    rw [Place.hosted, he]
    rfl
  -- The index counts the pieces of the frame and of the places in front.
  obtain ⟨before, after, hsplit⟩ := List.append_of_mem hy
  rw [hsplit] at hindexed
  obtain ⟨-, hindex, -⟩ := Place.indexedFrom_append.mp hindexed
  have hpieces : (Item.numbered 0 (Node.items ns)).flatMap (fun z => Piece.ofItem states z.1 z.2) =
      ((before ++ y :: after).flatMap (Place.hosted states)).map Prod.snd := by
    rw [← hsplit, ← Node.map_number_placeAll states [] 0 framePieces.length, List.flatMap_map,
      List.map_flatMap]
    refine List.flatMap_congr fun z _ => ?_
    simp [Place.hosted, Piece.ofItem, Function.comp_def]
  rw [pieces_document, hpieces, hindex, List.append_assoc, List.getElem?_append_right (by omega),
    Nat.add_sub_cancel_left, List.flatMap_append, List.flatMap_cons, hown]
  simp

/-- **The number on the element of a place**: the one in front of it, if the element is live. -/
theorem markAt?_of_mem_places (states : StateTable) {ns : List Node}
    (hkeys : ∀ e ∈ Node.elements ns, ∀ a ∈ e.attributes, isReserved a.key = false) {y : Place}
    (hy : y ∈ Node.placeAll states [] 0 framePieces.length ns) {e : Element}
    (he : y.item = .element e) :
    (shell (body states ns)).markAt? y.index =
      if e.isLive then some (decimalNat y.number) else none := by
  have hmem : e ∈ Node.elements ns := by
    rw [Node.mem_elements_iff, ← Node.map_item_placeAll states [] 0 framePieces.length, ← he]
    exact List.mem_map_of_mem hy
  rw [Markup.markAt?, getElem?_pieces_of_mem_places states hy he, Option.bind_some, Piece.mark?,
    Piece.attributes, Attribute.get?_of_marks (by decide), marks_handler (hkeys e hmem)]
  split
  · simp [Attribute.get?]
  · rfl

end Document

namespace Store

/-! ### Firing handlers in order -/

variable {E : Evaluator}

/-- Carries out handlers one after another, up to the first one that fails. -/
def fireAll (s : Store E) : List Handler → Store E × Option ActionError
  | [] => (s, none)
  | h :: hs =>
    match s.fire h with
    | (s', none) => fireAll s' hs
    | (s', some e) => (s', some e)

/-- **Statements are carried out as their handlers are fired**, if the handlers are compiled. -/
theorem runAll_map_statement {hs : List Handler} (hcompiled : ∀ h ∈ hs, h.isCompiled)
    (s : Store E) : s.runAll (hs.map Handler.statement) = s.fireAll hs := by
  induction hs generalizing s with
  | nil => rfl
  | cons h hs ih =>
    rw [List.map_cons, runAll, fireAll, fire, if_pos (hcompiled h List.mem_cons_self)]
    obtain ⟨s', e⟩ := s.run h.statement
    cases e with
    | none => exact ih (fun h' hh' => hcompiled h' (List.mem_cons_of_mem h hh')) s'
    | some e => rfl

theorem snd_run (s : Store E) (st : Statement) :
    (s.run st).2 = none ∨ (s.run st).2 = some (.evaluation st) := by
  rw [run]
  split
  · exact Or.inl rfl
  · exact Or.inr rfl

/-- A statement that fails does so because its value cannot be evaluated. -/
theorem snd_runAll (s : Store E) (sts : List Statement) :
    (s.runAll sts).2 = none ∨ ∃ st, (s.runAll sts).2 = some (.evaluation st) := by
  induction sts generalizing s with
  | nil => exact Or.inl rfl
  | cons st sts ih =>
    have hrun := snd_run s st
    rw [runAll]
    split
    · exact ih _
    · rename_i s' e hs'
      rw [hs'] at hrun
      exact Or.inr ⟨st, hrun.resolve_left (by simp)⟩

end Store

/-- Whether an action failed for lack of a handler. -/
def ActionError.isNoHandler : ActionError → Bool
  | .noneAt _ _ | .notCompiled _ => true
  | .evaluation _ => false

/-- The handlers of a source that an event at a number calls: the compiled ones for the event whose
element carries the number in the document. -/
def Document.calledBy (t : SourceTree) (id : Int) (event : Bytes) : List Handler :=
  let document := shell (body t.states t.nodes)
  ((placedHandlers t).filter fun y => y.1.isCompiled ∧ y.1.event = event ∧
    document.markAt? y.2 = some (decimalInt id)).map Prod.fst

/-- **The wirings with a number and an event** are the handlers that the event calls there. -/
theorem Document.map_statement_calledBy (src : Bytes) (id : Int) (event : Bytes) :
    let t := SourceTree.ofSource src
    (calledBy t id event).map Handler.statement =
      ((elements t.states t.nodes).2.wirings.filter fun w => w.id = id ∧ w.event = event).map
        Wiring.statement := by
  intro t
  have hkeys : ∀ e ∈ Node.elements t.nodes, ∀ a ∈ e.attributes, isReserved a.key = false :=
    fun e => Layout.unreserved_of_mem_elements
  rw [calledBy, placedHandlers, wirings_elements,
    Wiring.ofNodes_eq_places t.states framePieces.length, List.filter_flatMap, List.map_flatMap,
    List.map_flatMap, List.filter_flatMap, List.map_flatMap]
  refine List.flatMap_congr fun y hy => ?_
  rw [Wiring.ofItem, List.filter_map, List.map_map, List.map_map, List.filter_map, List.map_map,
    List.filter_filter]
  refine congrArg₂ List.map rfl (List.filter_congr fun h hh => ?_)
  -- A node with a handler is an element, and it is live if the handler is compiled.
  obtain ⟨e, he⟩ : ∃ e, y.item = .element e := by
    cases hitem : y.item with
    | element e => exact ⟨e, rfl⟩
    | text t => exact absurd hh (by simp [hitem, Item.handlers, Item.element?])
    | comment => exact absurd hh (by simp [hitem, Item.handlers, Item.element?])
  have hmark := markAt?_of_mem_places t.states hkeys hy he
  cases hcompiled : h.isCompiled with
  | false => simp [hcompiled]
  | true =>
    have hlive : e.isLive := by
      rw [he] at hh
      exact List.any_eq_true.mpr ⟨h, hh, hcompiled⟩
    rw [Function.comp_apply, Function.comp_apply, hmark, if_pos hlive]
    simp [hcompiled, decimalNat_eq_decimalInt_iff, and_comm]

namespace Store

/-- **Dispatching an event is firing handlers**, at every point of every run of a page and with
every evaluator. The handlers of a source in order have their elements in the document; an event at
a number calls the compiled ones for the event whose element carries the number. They are fired in
this order, up to the first one whose value cannot be evaluated: the page is the same afterwards,
and so is the error. If there are none, the page is left as it is, and only then a handler is found
missing. -/
theorem dispatch_is_firing {E : Evaluator} {src : Bytes} {s₀ : Store E}
    (hstart : start E (SourceTree.ofSource src) = .ok s₀) (cs : List (Call E)) (id : Int)
    (event : Bytes) :
    let t := SourceTree.ofSource src
    let document := Document.shell (Document.body t.states t.nodes)
    let placed := Document.placedHandlers t
    let called := (placed.filter fun y => y.1.isCompiled ∧ y.1.event = event ∧
      document.markAt? y.2 = some (decimalInt id)).map Prod.fst
    let s := s₀.performAll cs
    placed.map Prod.fst = t.handlers ∧
    (∀ y ∈ placed, ∃ e ∈ Node.elements t.nodes, y.1 ∈ e.handlers ∧
      ∃ n : Nat, document.pieces[y.2]? =
        some (.element (Document.shownTag e) (Document.attributes n e))) ∧
    (called ≠ [] → s.dispatch id event = s.fireAll called) ∧
    (called = [] → s.dispatch id event = (s, some (.noneAt event id))) ∧
    ((s.dispatch id event).2.any ActionError.isNoHandler ↔ called = []) := by
  intro t document placed called s
  have hwirings : s.wirings = (Document.elements t.states t.nodes).2.wirings := by
    rw [(steps_performAll s₀ cs).frame.2, wirings_of_start hstart]
  -- The table of the page and the document name the same handlers.
  have hstatements : called.map Handler.statement =
      (s.wirings.filter fun w => w.id = id ∧ w.event = event).map Wiring.statement := by
    rw [hwirings]
    exact Document.map_statement_calledBy src id event
  have hcompiled : ∀ h ∈ called, h.isCompiled := by
    intro h hh
    obtain ⟨y, hy, rfl⟩ := List.mem_map.mp hh
    exact (of_decide_eq_true (List.mem_filter.mp hy).2).1
  have hempty : (s.wirings.filter fun w => w.id = id ∧ w.event = event).isEmpty ↔ called = [] := by
    rw [List.isEmpty_iff, ← List.map_eq_nil_iff (f := Wiring.statement), ← hstatements,
      List.map_eq_nil_iff]
  have hfire (h : called ≠ []) : s.dispatch id event = s.fireAll called := by
    rw [dispatch, if_neg (mt hempty.mp h), ← runAll_map_statement hcompiled, hstatements]
  have hnone (h : called = []) : s.dispatch id event = (s, some (.noneAt event id)) := by
    rw [dispatch, if_pos (hempty.mpr h)]
  refine ⟨Document.map_fst_placedHandlers src, fun y hy => ?_, hfire, hnone, fun h => ?_,
    fun h => ?_⟩
  · obtain ⟨z, hz, hy⟩ := List.mem_flatMap.mp hy
    obtain ⟨h, hh, rfl⟩ := List.mem_map.mp hy
    cases hitem : z.item with
    | element e =>
      have hmem : e ∈ Node.elements t.nodes := by
        rw [Node.mem_elements_iff,
          ← Node.map_item_placeAll t.states [] 0 Document.framePieces.length, ← hitem]
        exact List.mem_map_of_mem hz
      rw [hitem] at hh
      exact ⟨e, hmem, hh, z.number, Document.getElem?_pieces_of_mem_places t.states hz hitem⟩
    | text r => exact absurd hh (by simp [hitem, Item.handlers, Item.element?])
    | comment => exact absurd hh (by simp [hitem, Item.handlers, Item.element?])
  · -- Firing a handler that is there fails only in an evaluation.
    by_contra hne
    rw [hfire hne, ← runAll_map_statement hcompiled] at h
    obtain hok | ⟨st, herror⟩ := snd_runAll s (called.map Handler.statement)
    · rw [hok] at h
      exact absurd h (by simp)
    · rw [herror] at h
      exact absurd h (by simp [ActionError.isNoHandler])
  · rw [hnone h]
    rfl

/-- Two handlers for one event at the first element with a number, which is the second one of the
source: the handler of the other is left to the browser. -/
theorem dispatch_is_firing_twice :
    let t := SourceTree.ofSource
      (utf8 "a(on:t\x7bf\x7d)\nb(on:t\x7bn.value=2\x7d,on:t\x7bn.value+=3\x7d)")
    ∃ s₀ : Store evaluator, start evaluator t = .ok s₀ ∧
      let s := s₀.performAll [.update (utf8 "n") (.int 7)]
      ∃ called : List Handler,
        called.map (fun h => h.statement.text) = [utf8 "n.value=2", utf8 "n.value+=3"] ∧
        s.dispatch 0 (utf8 "t") = s.fireAll called := by
  intro t
  have hstates : t.states.declarations = [] := by decide +kernel
  obtain ⟨s₀, hs⟩ : ∃ s₀ : Store evaluator, start evaluator t = .ok s₀ := by
    rw [start, hstates, declareAll]
    exact ⟨_, rfl⟩
  have htexts : (((Document.elements t.states t.nodes).2.wirings.filter fun w =>
      w.id = (0 : Int) ∧ w.event = utf8 "t").map Wiring.statement).map Statement.text =
        [utf8 "n.value=2", utf8 "n.value+=3"] := by decide +kernel
  rw [← Document.map_statement_calledBy, List.map_map] at htexts
  obtain ⟨-, -, hfire, -⟩ := dispatch_is_firing hs [.update (utf8 "n") (.int 7)] 0 (utf8 "t")
  refine ⟨s₀, hs, Document.calledBy t 0 (utf8 "t"), htexts, hfire fun hnil => ?_⟩
  rw [show Document.calledBy t 0 (utf8 "t") = [] from hnil] at htexts
  exact absurd htexts (by simp)

end Store

end LiveMarkup
