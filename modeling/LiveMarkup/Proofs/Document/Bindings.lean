import LiveMarkup.Proofs.Document.Numbering
import LiveMarkup.Proofs.Live.Start

/-!
# Bindings and their placeholders

A node that is bound to a declared state has a placeholder, and one that is bound to another name
shows that name. Three parts of the program count placeholders: the document, which holds them
(`LiveMarkup.Document.filter_bindingMark_document`), the builder, which counts them while the
document is written (`LiveMarkup.Builder.placeholders`), and the running page
(`LiveMarkup.Store.placeholders`). They agree with the bindings of the nodes to declared states, in
pre-order (`LiveMarkup.Node.boundNames`); whether a name is declared does not depend on where it is
used (`LiveMarkup.SourceTree.has_states_iff`).

The names that are not declared are reported in the same order
(`LiveMarkup.SourceTree.filter_isUnbound_diagnostics`).
-/

namespace LiveMarkup

/-! ### Counting bindings -/

/-- **A name is bound as often as nodes are bound to it** if it is declared, and never if not. -/
theorem Node.count_boundNames (states : StateTable) (ns : List Node) (x : Bytes) :
    (boundNames states ns).count x =
      if states.has x then (Node.preorderAll 0 ns).countP (fun y => y.2.binding? = some x)
      else 0 := by
  have hitems : (Node.preorderAll 0 ns).countP (fun y => y.2.binding? = some x) =
      ((Node.items ns).filterMap Item.binding?).count x := by
    rw [← map_item_preorderAll 0, List.filterMap_map, List.count, List.countP_filterMap]
    refine List.countP_congr fun y _ => ?_
    rw [Function.comp_apply, binding?_item]
    cases y.2.binding? <;> simp
  rw [boundNames_eq_items, hitems]
  split
  · rename_i hx
    exact List.count_filter hx
  · rename_i hx
    exact List.count_eq_zero.mpr fun hmem => hx (List.mem_filter.mp hmem).2

/-! ### Placeholders in a document -/

namespace Document

theorem placeholder_injective : Function.Injective Piece.placeholder := by
  intro x y h
  simpa [Piece.placeholder] using h

/-- The placeholders among the pieces of a node: one, if it is bound to a declared state. -/
theorem filter_bindingMark_ofItem (states : StateTable) (id : Nat) {i : Item}
    (hkeys : ∀ e, i.element? = some e → ∀ a ∈ e.attributes, isReserved a.key = false) :
    (Piece.ofItem states id i).filter (Piece.isMarked bindingMark) =
      ((i.binding?.filter states.has).map Piece.placeholder).toList := by
  have hown : (Piece.own? id i).toList.filter (Piece.isMarked bindingMark) = [] := by
    rw [Piece.own?]
    cases he : i.element? with
    | none => rfl
    | some e =>
      have hmarks := marks_binding (hkeys e he) id
      simp [Piece.isMarked, Piece.attributes, hmarks]
  have htext : (if i.literal.isEmpty then [] else [Piece.text i.literal]).filter
      (Piece.isMarked bindingMark) = [] := by
    split <;> simp
  rw [Piece.ofItem, Piece.content, List.filter_append, List.filter_append, hown, htext,
    List.nil_append, List.nil_append]
  cases i.binding? with
  | none => rfl
  | some x =>
    have hspan : Piece.isMarked bindingMark (Piece.placeholder x) = true := rfl
    cases hx : states.has x <;> simp [hx, hspan, Option.filter]

/-- **The placeholders of a document** are those of the bound names, in order; nothing else is
marked as a placeholder, in any spelling. -/
theorem filter_bindingMark_document (states : StateTable) {ns : List Node}
    (hkeys : ∀ e ∈ Node.elements ns, ∀ a ∈ e.attributes, isReserved a.key = false) :
    (shell (body states ns)).pieces.filter (Piece.isMarked bindingMark) =
      (Node.boundNames states ns).map Piece.placeholder := by
  have hitem : ∀ y ∈ Item.numbered 0 (Node.items ns),
      (Piece.ofItem states y.1 y.2).filter (Piece.isMarked bindingMark) =
        ((y.2.binding?.filter states.has).map Piece.placeholder).toList := by
    intro y hy
    have hmem : y.2 ∈ (Item.numbered 0 (Node.items ns)).map Prod.snd := List.mem_map_of_mem hy
    rw [Item.map_snd_numbered] at hmem
    refine filter_bindingMark_ofItem states y.1 fun e he => hkeys e ?_
    rw [Node.elements_eq_items]
    exact List.mem_filterMap.mpr ⟨y.2, hmem, he⟩
  rw [filter_pieces_document (by decide), Node.boundNames_eq_items]
  calc (Item.numbered 0 (Node.items ns)).flatMap
        (fun y => (Piece.ofItem states y.1 y.2).filter (Piece.isMarked bindingMark))
      = ((Item.numbered 0 (Node.items ns)).map Prod.snd).flatMap
          (fun i => ((i.binding?.filter states.has).map Piece.placeholder).toList) := by
        rw [List.flatMap_map]
        exact List.flatMap_congr hitem
    _ = (((Node.items ns).filterMap Item.binding?).filter states.has).map Piece.placeholder := by
        rw [Item.map_snd_numbered]
        induction Node.items ns with
        | nil => rfl
        | cons i is ih =>
          rw [List.flatMap_cons, ih]
          cases hi : i.binding? with
          | none => simp [hi]
          | some x => cases hx : states.has x <;> simp [hi, hx, Option.filter]

theorem count_placeholder (states : StateTable) {ns : List Node}
    (hkeys : ∀ e ∈ Node.elements ns, ∀ a ∈ e.attributes, isReserved a.key = false) (x : Bytes) :
    (shell (body states ns)).pieces.count (Piece.placeholder x) =
      (Node.boundNames states ns).count x := by
  rw [← List.count_filter (p := Piece.isMarked bindingMark) (a := Piece.placeholder x) rfl,
    filter_bindingMark_document states hkeys]
  exact List.count_map_of_injective _ _ placeholder_injective x

end Document

/-! ### Names that are not declared -/

namespace Problem

/-- Whether a problem is that a node is bound to a name that is not declared. -/
def isUnbound : Problem → Bool
  | .undeclaredBinding _ => true
  | _ => false

/-- How such a problem is reported: as a warning that the name is shown. -/
theorem report_undeclaredBinding (x : Bytes) : (Problem.undeclaredBinding x).severity = .warning ∧
    (Problem.undeclaredBinding x).message =
      utf8 "undeclared state " ++ displayed x ++ utf8 ": rendered as text" := by
  have hspace : utf8 "undeclared state " = utf8 "undeclared state" ++ utf8 " " := by decide
  refine ⟨rfl, ?_⟩
  rw [message, summary, detail, hspace, List.append_assoc, List.append_assoc, List.append_assoc]

theorem isReference_of_isUnbound {p : Problem} (h : p.isUnbound) : p.isReference := by
  cases p <;> simp_all [isUnbound, isReference]

end Problem

namespace SourceTree

/-- The report about a node that is bound to a name that is not declared. -/
def unbound? (states : StateTable) (n : Node) : Option Diagnostic :=
  n.binding?.bind fun x => if states.has x then none else some ⟨n.position, .undeclaredBinding x⟩

theorem undeclaredBindings_eq_preorder (states : StateTable) (ns : List Node) :
    undeclaredBindings states ns =
      (Node.preorderAll 0 ns).filterMap fun y => unbound? states y.2 := by
  rw [undeclaredBindings, Node.bindings, List.filterMap_filterMap]
  refine List.filterMap_congr fun y _ => ?_
  obtain ⟨depth, n⟩ := y
  dsimp only [unbound?]
  cases n.binding? <;> rfl

/-- **The names that are not declared are reported once for each node** that is bound to one, in
pre-order. -/
theorem filter_isUnbound_diagnostics (src : Bytes) :
    (ofSource src).diagnostics.filter (fun d => d.problem.isUnbound) =
      (Node.preorderAll 0 (ofSource src).nodes).filterMap
        fun y => unbound? (ofSource src).states y.2 := by
  -- Of the three parts of the diagnostics only the second one has such reports, and it has no
  -- others.
  have hreading : (Reading.ofLines (Line.ofSource src)).diagnostics.filter
      (fun d => d.problem.isUnbound) = [] := by
    refine List.filter_eq_nil_iff.mpr fun d hd hunbound => ?_
    have hreference := Problem.isReference_of_isUnbound hunbound
    rw [Reading.not_isReference_of_mem_diagnostics hd] at hreference
    exact absurd hreference (by simp)
  have htargets : (undeclaredTargets (ofSource src).states (ofSource src).handlers).filter
      (fun d => d.problem.isUnbound) = [] := by
    refine List.filter_eq_nil_iff.mpr fun d hd => ?_
    obtain ⟨x, event, hproblem⟩ := problem_of_mem_undeclaredTargets hd
    simp [hproblem, Problem.isUnbound]
  have hbindings : (undeclaredBindings (ofSource src).states (ofSource src).nodes).filter
      (fun d => d.problem.isUnbound) =
        undeclaredBindings (ofSource src).states (ofSource src).nodes := by
    refine List.filter_eq_self.mpr fun d hd => ?_
    obtain ⟨x, p, -, -, rfl⟩ := mem_undeclaredBindings.mp hd
    rfl
  have hparts : (ofSource src).diagnostics = (Reading.ofLines (Line.ofSource src)).diagnostics
      ++ undeclaredBindings (ofSource src).states (ofSource src).nodes
      ++ undeclaredTargets (ofSource src).states (ofSource src).handlers := rfl
  rw [hparts, List.filter_append, List.filter_append, hreading, htargets, hbindings,
    List.nil_append, List.append_nil, undeclaredBindings_eq_preorder]

end SourceTree

/-! ### The three counts -/

namespace Document

/-- **The counts of placeholders agree**, and are the number of nodes that are bound to the name if
some line of the source declares it. -/
theorem placeholder_counts (src x : Bytes) :
    let t := SourceTree.ofSource src
    ∃ n : Nat, (shell (body t.states t.nodes)).pieces.count (Piece.placeholder x) = n ∧
      (elements t.states t.nodes).2.placeholders x = n ∧
      (∀ E s, Store.start E t = .ok s → s.placeholders x = n) ∧
      ((∃ y ∈ Layout.ofSource src, ∃ d : StateLine, y.state? = some d ∧ d.name = x) →
        n = (Node.preorderAll 0 t.nodes).countP fun y => y.2.binding? = some x) ∧
      ((¬∃ y ∈ Layout.ofSource src, ∃ d : StateLine, y.state? = some d ∧ d.name = x) → n = 0) := by
  intro t
  have hkeys : ∀ e ∈ Node.elements t.nodes, ∀ a ∈ e.attributes, isReserved a.key = false :=
    fun e => Layout.unreserved_of_mem_elements
  refine ⟨_, count_placeholder t.states hkeys x, placeholders_elements _ _ x,
    fun E s hs => ?_, fun hdeclared => ?_, fun hundeclared => ?_⟩
  · rw [Store.placeholders_of_start hs, placeholders_elements]
  · rw [Node.count_boundNames, if_pos (SourceTree.has_states_iff.mpr hdeclared)]
  · rw [Node.count_boundNames, if_neg (mt SourceTree.has_states_iff.mp hundeclared)]

/-- **Bindings are resolved against the whole source.** For every name the placeholders of the
document, those that the builder has counted and those of the running page are as many as the nodes
that are bound to the name, if a line of the source declares it, and none otherwise. The document
has the pieces of the nodes in pre-order, where a binding that is not declared is its name as text;
these bindings, and no others, are reported as not declared, one report for each node at its
position, in pre-order; and nothing but a placeholder carries the mark of one, in any spelling. -/
theorem bindings_resolved (src : Bytes) :
    let t := SourceTree.ofSource src
    let document := shell (body t.states t.nodes)
    (∀ x : Bytes, ∃ n : Nat, document.pieces.count (Piece.placeholder x) = n ∧
      (elements t.states t.nodes).2.placeholders x = n ∧
      (∀ E s, Store.start E t = .ok s → s.placeholders x = n) ∧
      ((∃ y ∈ Layout.ofSource src, ∃ d : StateLine, y.state? = some d ∧ d.name = x) →
        n = (Node.preorderAll 0 t.nodes).countP fun y => y.2.binding? = some x) ∧
      ((¬∃ y ∈ Layout.ofSource src, ∃ d : StateLine, y.state? = some d ∧ d.name = x) → n = 0)) ∧
    (∀ x : Bytes, t.states.has x ↔
      ∃ y ∈ Layout.ofSource src, ∃ d : StateLine, y.state? = some d ∧ d.name = x) ∧
    (Item.numbered 0 (Node.items t.nodes)).map Prod.snd =
      (Node.preorderAll 0 t.nodes).map (fun y => y.2.item) ∧
    document.pieces = framePieces ++
      ((Item.numbered 0 (Node.items t.nodes)).flatMap fun y =>
        (Piece.own? y.1 y.2).toList ++
          ((if y.2.literal.isEmpty then [] else [Piece.text y.2.literal]) ++
            (y.2.binding?.map fun x =>
              if t.states.has x then Piece.placeholder x else Piece.text x).toList)) ++
      Markup.piecesAll (script t.states (elements t.states t.nodes).2.wirings) ∧
    t.diagnostics.filter (fun d => d.problem.isUnbound) =
      (Node.preorderAll 0 t.nodes).filterMap (fun y => y.2.binding?.bind fun x =>
        if t.states.has x then none else some ⟨y.2.position, .undeclaredBinding x⟩) ∧
    (∀ x, (Problem.undeclaredBinding x).severity = .warning ∧
      (Problem.undeclaredBinding x).message =
        utf8 "undeclared state " ++ displayed x ++ utf8 ": rendered as text") ∧
    ∀ p ∈ document.pieces, p.isMarked bindingMark →
      ∃ x, t.states.has x ∧ p = Piece.placeholder x := by
  intro t document
  refine ⟨placeholder_counts src, fun x => SourceTree.has_states_iff, ?_,
    pieces_document t.states t.nodes, SourceTree.filter_isUnbound_diagnostics src,
    Problem.report_undeclaredBinding, ?_⟩
  · rw [Item.map_snd_numbered, Node.map_item_preorderAll]
  · intro p hp hmarked
    have hmem : p ∈ document.pieces.filter (Piece.isMarked bindingMark) :=
      List.mem_filter.mpr ⟨hp, hmarked⟩
    rw [filter_bindingMark_document t.states fun e => Layout.unreserved_of_mem_elements] at hmem
    obtain ⟨x, hx, rfl⟩ := List.mem_map.mp hmem
    exact ⟨x, (List.mem_filter.mp hx).2, rfl⟩

/-- A name that is used before it is declared has its placeholder on the running page too. -/
theorem bindings_resolved_early :
    let t := SourceTree.ofSource (utf8 "p n\nstate n = 1")
    ∃ s, Store.start evaluator t = .ok s ∧ s.placeholders (utf8 "n") = 1 ∧
      (shell (body t.states t.nodes)).pieces.count (Piece.placeholder (utf8 "n")) = 1 := by
  intro t
  have hrows : Layout.ofSource (utf8 "p n\nstate n = 1") =
      [⟨⟨1, 0, utf8 "p n"⟩, false⟩, ⟨⟨2, 0, utf8 "state n = 1"⟩, false⟩] := by decide +kernel
  have hnodes : (Node.preorderAll 0 t.nodes).countP
      (fun y => y.2.binding? = some (utf8 "n")) = 1 := by decide +kernel
  have hok : (Store.start evaluator t).isOk = true := by decide +kernel
  obtain ⟨n, hdocument, -, hstart, hdeclared, -⟩ :=
    (bindings_resolved (utf8 "p n\nstate n = 1")).1 (utf8 "n")
  have hline : (⟨⟨2, 0, utf8 "state n = 1"⟩, false⟩ : Row) ∈
      Layout.ofSource (utf8 "p n\nstate n = 1") := by simp [hrows]
  have hn : n = 1 :=
    (hdeclared ⟨_, hline, ⟨utf8 "n", utf8 "1"⟩, by decide +kernel, rfl⟩).trans hnodes
  cases hs : Store.start evaluator t with
  | error name => exact absurd hok (by simp [hs, Except.isOk, Except.toBool])
  | ok s => exact ⟨s, rfl, (hstart evaluator s hs).trans hn, hdocument.trans hn⟩

end Document

end LiveMarkup
