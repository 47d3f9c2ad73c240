import LiveMarkup.Proofs.Document.Rendering

/-!
# Where the nodes of a source stand in its document

An element that cannot have content is followed by what is below it, so the parent of a node in the
document is not always its parent in the source: it is the nearest of its ancestors that can have
content. To say this without confusing equal elements, a node of a document is known by its index in
pre-order.

* `LiveMarkup.Markup.hostedAll` lists the pieces of a document, each with the index of the element
  right above it;
* `LiveMarkup.Node.placeAll` lists the nodes of a source, each with the index of its first piece and
  with its ancestors (`LiveMarkup.Place`); the nearest ancestor that can have content is
  `LiveMarkup.Place.host?`;
* `LiveMarkup.Document.hostedAll_ofNodes` says that the first list is read off the second one.

With `LiveMarkup.Document.compile_eq` this is all there is to generating markup: nothing is lost,
nothing is added, the order is that of the source, and everything is written.
-/

namespace LiveMarkup

/-! ### Pieces with the places of their parents -/

namespace Markup

mutual

/-- The pieces of a tree, each with the index of the element right above it; the tree has the index
`k`. -/
def hosted (host : Option Nat) (k : Nat) : Markup → List (Option Nat × Piece)
  | .element name as cs => (host, .element name as) :: hostedAll (some k) (k + 1) cs
  | .text s => [(host, .text s)]

/-- The pieces of a list of trees, each with the index of the element right above it; the first tree
has the index `k`. -/
def hostedAll (host : Option Nat) (k : Nat) : List Markup → List (Option Nat × Piece)
  | [] => []
  | m :: ms => hosted host k m ++ hostedAll host (k + (pieces m).length) ms

end

@[simp] theorem hostedAll_nil (host : Option Nat) (k : Nat) : hostedAll host k [] = [] := rfl

@[simp] theorem hostedAll_text (host : Option Nat) (k : Nat) (s : Bytes) (ms : List Markup) :
    hostedAll host k (.text s :: ms) = (host, .text s) :: hostedAll host (k + 1) ms := rfl

theorem hostedAll_element (host : Option Nat) (k : Nat) (name : Bytes) (as : List Attribute)
    (cs ms : List Markup) :
    hostedAll host k (.element name as cs :: ms) = (host, .element name as) ::
      (hostedAll (some k) (k + 1) cs ++ hostedAll host (k + 1 + (piecesAll cs).length) ms) := by
  rw [hostedAll, hosted, pieces, List.length_cons, Nat.add_comm (piecesAll cs).length,
    ← Nat.add_assoc, List.cons_append]

/-- An element without children is followed by its siblings at once. -/
theorem hostedAll_childless (host : Option Nat) (k : Nat) (name : Bytes) (as : List Attribute)
    (ms : List Markup) :
    hostedAll host k (.element name as [] :: ms) =
      (host, .element name as) :: hostedAll host (k + 1) ms := rfl

theorem hostedAll_append (host : Option Nat) (k : Nat) (ms ns : List Markup) :
    hostedAll host k (ms ++ ns) =
      hostedAll host k ms ++ hostedAll host (k + (piecesAll ms).length) ns := by
  induction ms generalizing k with
  | nil => rfl
  | cons m ms ih =>
    rw [List.cons_append, hostedAll, ih, hostedAll, piecesAll, List.length_append,
      List.append_assoc, Nat.add_assoc]

end Markup

/-! ### Nodes with their places -/

/-- A node of a source and where it goes in a document. -/
structure Place where
  /-- The number of live elements in front of the node. -/
  number : Nat
  /-- The number of pieces in front of those of the node. -/
  index : Nat
  /-- The elements above the node, innermost first, each with its index. -/
  ancestors : List (Nat × Element)
  item : Item
  deriving DecidableEq

namespace Place

/-- The index of the nearest of some ancestors that can have content. -/
def nearest? (ancestors : List (Nat × Element)) : Option Nat :=
  (ancestors.find? fun a => !a.2.isVoid).map Prod.fst

/-- The index of the nearest ancestor that can have content; there is none if the node goes directly
into the body. -/
def host? (y : Place) : Option Nat := nearest? y.ancestors

/-- The index of the element that the content of the node goes into: the node itself, if it is an
element that can have content. -/
def inner? (y : Place) : Option Nat :=
  match y.item with
  | .element e => nearest? ((y.index, e) :: y.ancestors)
  | _ => y.host?

/-- The pieces of the node, each with the index of the element right above it. -/
def hosted (states : StateTable) (y : Place) : List (Option Nat × Piece) :=
  (Piece.own? y.number y.item).toList.map (y.host?, ·) ++
    (Piece.content states y.item.literal y.item.binding?).map (y.inner?, ·)

end Place

/-- How many pieces a node has does not depend on its number. -/
theorem Piece.length_ofItem (states : StateTable) (n : Nat) (i : Item) :
    (Piece.ofItem states n i).length = (Piece.ofItem states 0 i).length := by
  cases i <;> rfl

theorem Place.length_hosted (states : StateTable) (y : Place) :
    (y.hosted states).length = (Piece.ofItem states 0 y.item).length := by
  rw [← Piece.length_ofItem states y.number, Place.hosted, Piece.ofItem]
  simp

namespace Node

/-- How many pieces the nodes of a forest have. -/
def width (states : StateTable) (ns : List Node) : Nat :=
  ((items ns).flatMap (Piece.ofItem states 0)).length

/-- How many elements of a forest are live. -/
def liveCount (ns : List Node) : Nat := (items ns).countP Item.isLive

mutual

/-- A node and all nodes below it with their places; `above` are the ancestors of the node. -/
def place (states : StateTable) (above : List (Nat × Element)) (number index : Nat) :
    Node → List Place
  | .element e cs =>
    ⟨number, index, above, .element e⟩ ::
      placeAll states ((index, e) :: above) (if e.isLive then number + 1 else number)
        (index + (Piece.ofItem states 0 (.element e)).length) cs
  | .text t => [⟨number, index, above, .text t⟩]
  | .comment => [⟨number, index, above, .comment⟩]

/-- The nodes of a forest with their places; `above` are the ancestors of the forest. -/
def placeAll (states : StateTable) (above : List (Nat × Element)) (number index : Nat) :
    List Node → List Place
  | [] => []
  | n :: ns =>
    place states above number index n ++
      placeAll states above (number + liveCount [n]) (index + width states [n]) ns

end

@[simp] theorem placeAll_nil (states : StateTable) (above : List (Nat × Element))
    (number index : Nat) : placeAll states above number index [] = [] := rfl

theorem width_element (states : StateTable) (e : Element) (cs ns : List Node) :
    width states (.element e cs :: ns) =
      (Piece.ofItem states 0 (.element e)).length + width states cs + width states ns := by
  simp [width, Nat.add_assoc]

theorem liveCount_element (e : Element) (cs ns : List Node) :
    liveCount (.element e cs :: ns) =
      (if e.isLive then 1 else 0) + liveCount cs + liveCount ns := by
  have hlive : Item.isLive (.element e) = e.isLive := rfl
  rw [liveCount, items_element, List.countP_cons, List.countP_append, hlive, liveCount, liveCount]
  omega

/-- An element is followed by the forest below it and then by the forest after it. -/
theorem placeAll_element (states : StateTable) (above : List (Nat × Element)) (number index : Nat)
    (e : Element) (cs ns : List Node) :
    placeAll states above number index (.element e cs :: ns) =
      let number' := if e.isLive then number + 1 else number
      let index' := index + (Piece.ofItem states 0 (.element e)).length
      ⟨number, index, above, .element e⟩ ::
        (placeAll states ((index, e) :: above) number' index' cs ++
          placeAll states above (number' + liveCount cs) (index' + width states cs) ns) := by
  have hnumber : number + liveCount [.element e cs] =
      (if e.isLive then number + 1 else number) + liveCount cs := by
    have hnil : liveCount [] = 0 := rfl
    rw [liveCount_element, hnil]
    split <;> omega
  have hindex : index + width states [.element e cs] =
      index + (Piece.ofItem states 0 (.element e)).length + width states cs := by
    have hnil : width states [] = 0 := rfl
    rw [width_element, hnil]
    omega
  rw [placeAll, place, hnumber, hindex, List.cons_append]

theorem placeAll_text (states : StateTable) (above : List (Nat × Element)) (number index : Nat)
    (t : TextRun) (ns : List Node) :
    placeAll states above number index (.text t :: ns) = ⟨number, index, above, .text t⟩ ::
      placeAll states above number (index + (Piece.ofItem states 0 (.text t)).length) ns := by
  have hindex : width states [.text t] = (Piece.ofItem states 0 (.text t)).length := by
    simp [width]
  rw [placeAll, place, hindex]
  rfl

theorem placeAll_comment (states : StateTable) (above : List (Nat × Element)) (number index : Nat)
    (ns : List Node) :
    placeAll states above number index (.comment :: ns) =
      ⟨number, index, above, .comment⟩ :: placeAll states above number index ns := rfl

/-! What a place says about its node: the parent, the number and the ancestors are those of the
forest. -/

section Places

variable (states : StateTable)

/-- The innermost ancestor of a node is its parent. -/
theorem map_parent_placeAll (above : List (Nat × Element)) (number index : Nat) (ns : List Node) :
    (placeAll states above number index ns).map
        (fun y => (y.ancestors.head?.map Prod.snd, y.item)) =
      parentedAll (above.head?.map Prod.snd) ns := by
  induction ns using forest_induction generalizing above number index with
  | nil => rfl
  | element e cs ns ihcs ihns =>
    rw [placeAll_element, List.map_cons, List.map_append, ihcs, ihns, parentedAll_element]
    rfl
  | text t ns ih => rw [placeAll_text, List.map_cons, ih, parentedAll_text]
  | comment ns ih => rw [placeAll_comment, List.map_cons, ih, parentedAll_comment]

/-- Nodes have the numbers with which their elements are written. -/
theorem map_number_placeAll (above : List (Nat × Element)) (number index : Nat) (ns : List Node) :
    (placeAll states above number index ns).map (fun y => (y.number, y.item)) =
      Item.numbered number (items ns) := by
  induction ns using forest_induction generalizing above number index with
  | nil => rfl
  | element e cs ns ihcs ihns =>
    rw [placeAll_element, List.map_cons, List.map_append, ihcs, ihns, items_element, Item.numbered,
      Item.numbered_append]
    rfl
  | text t ns ih =>
    rw [placeAll_text, List.map_cons, ih, items_text, Item.numbered]
    rfl
  | comment ns ih =>
    rw [placeAll_comment, List.map_cons, ih, items_comment, Item.numbered]
    rfl

/-- **The ancestors of a node** are those of the forest, or an element of it with its ancestors. -/
theorem ancestors_of_mem_placeAll {above : List (Nat × Element)} {number index : Nat}
    {ns : List Node} {y : Place} (h : y ∈ placeAll states above number index ns) :
    y.ancestors = above ∨ ∃ z ∈ placeAll states above number index ns, ∃ e,
      z.item = .element e ∧ y.ancestors = (z.index, e) :: z.ancestors := by
  induction ns using forest_induction generalizing above number index with
  | nil => exact absurd h (by simp)
  | element e cs ns ihcs ihns =>
    rw [placeAll_element] at h ⊢
    dsimp only at h ⊢
    rcases List.mem_cons.mp h with rfl | h
    · exact Or.inl rfl
    rcases List.mem_append.mp h with h | h
    · -- A node right below the element has the element above it.
      rcases ihcs h with hy | ⟨z, hz, e', he', hy⟩
      · exact Or.inr ⟨_, List.mem_cons_self, e, rfl, hy⟩
      · exact Or.inr ⟨z, by simp [hz], e', he', hy⟩
    · rcases ihns h with hy | ⟨z, hz, e', he', hy⟩
      · exact Or.inl hy
      · exact Or.inr ⟨z, by simp [hz], e', he', hy⟩
  | text t ns ih =>
    rw [placeAll_text] at h ⊢
    rcases List.mem_cons.mp h with rfl | h
    · exact Or.inl rfl
    · rcases ih h with hy | ⟨z, hz, e', he', hy⟩
      · exact Or.inl hy
      · exact Or.inr ⟨z, by simp [hz], e', he', hy⟩
  | comment ns ih =>
    rw [placeAll_comment] at h ⊢
    rcases List.mem_cons.mp h with rfl | h
    · exact Or.inl rfl
    · rcases ih h with hy | ⟨z, hz, e', he', hy⟩
      · exact Or.inl hy
      · exact Or.inr ⟨z, by simp [hz], e', he', hy⟩

end Places

end Node

/-! ### Indexes -/

namespace Place

variable (states : StateTable)

/-- **Places are indexed** from `k` on: each one has the index after the pieces of those in front.
-/
def IndexedFrom (k : Nat) : List Place → Prop
  | [] => True
  | y :: ys => y.index = k ∧ IndexedFrom (k + (y.hosted states).length) ys

variable {states}

theorem indexedFrom_append {k : Nat} {ys zs : List Place} : IndexedFrom states k (ys ++ zs) ↔
    IndexedFrom states k ys ∧
      IndexedFrom states (k + (ys.flatMap (hosted states)).length) zs := by
  induction ys generalizing k with
  | nil => simp [IndexedFrom]
  | cons y ys ih =>
    rw [List.cons_append, IndexedFrom, ih, IndexedFrom, List.flatMap_cons, List.length_append,
      Nat.add_assoc, and_assoc]

/-- The pieces of an indexed place are found at its index. -/
theorem getElem?_of_indexedFrom {k : Nat} {ys : List Place} (h : IndexedFrom states k ys)
    {y : Place} (hy : y ∈ ys) {p : Option Nat × Piece} {ps : List (Option Nat × Piece)}
    (hp : y.hosted states = p :: ps) :
    (ys.flatMap (hosted states))[y.index - k]? = some p := by
  obtain ⟨before, after, rfl⟩ := List.append_of_mem hy
  obtain ⟨-, hindex, -⟩ := indexedFrom_append.mp h
  rw [hindex, Nat.add_sub_cancel_left, List.flatMap_append, List.flatMap_cons, hp]
  simp

end Place

namespace Node

theorem map_item_placeAll (states : StateTable) (above : List (Nat × Element)) (number index : Nat)
    (ns : List Node) : (placeAll states above number index ns).map Place.item = items ns := by
  have h := congrArg (List.map Prod.snd) (map_number_placeAll states above number index ns)
  rwa [List.map_map, Item.map_snd_numbered] at h

theorem length_flatMap_hosted (states : StateTable) (above : List (Nat × Element))
    (number index : Nat) (ns : List Node) :
    ((placeAll states above number index ns).flatMap (Place.hosted states)).length =
      width states ns := by
  rw [width, ← map_item_placeAll states above number index, List.flatMap_map, List.length_flatMap,
    List.length_flatMap]
  simp only [Place.length_hosted]

/-- **The nodes of a forest are indexed** by the pieces in front of them. -/
theorem indexedFrom_placeAll (states : StateTable) (above : List (Nat × Element))
    (number index : Nat) (ns : List Node) :
    Place.IndexedFrom states index (placeAll states above number index ns) := by
  induction ns using forest_induction generalizing above number index with
  | nil => trivial
  | element e cs ns ihcs ihns =>
    rw [placeAll_element]
    refine ⟨rfl, Place.indexedFrom_append.mpr ⟨?_, ?_⟩⟩
    · rw [Place.length_hosted]
      exact ihcs _ _ _
    · rw [Place.length_hosted, length_flatMap_hosted]
      exact ihns _ _ _
  | text t ns ih =>
    rw [placeAll_text]
    refine ⟨rfl, ?_⟩
    rw [Place.length_hosted]
    exact ih _ _ _
  | comment ns ih =>
    rw [placeAll_comment]
    exact ⟨rfl, ih _ _ _⟩

end Node

namespace Document

open Markup Node

theorem length_piecesAll_ofNodes (states : StateTable) (b : Builder) (ns : List Node) :
    (piecesAll (ofNodes states b ns).1).length = width states ns := by
  rw [piecesAll_ofNodes, width]
  conv => rhs; rw [← Item.map_snd_numbered b.next (items ns)]
  rw [List.flatMap_map, List.length_flatMap, List.length_flatMap]
  simp only [Piece.length_ofItem states]

/-- Content is all at one level. -/
theorem hostedAll_content (states : StateTable) (host : Option Nat) (k : Nat) (text : Bytes)
    (binding : Option Bytes) (ms : List Markup) :
    hostedAll host k (content states text binding ++ ms) =
      (Piece.content states text binding).map (host, ·) ++
        hostedAll host (k + (Piece.content states text binding).length) ms := by
  rw [hostedAll_append, piecesAll_content]
  congr 1
  rw [content.eq_def, Piece.content, hostedAll_append, List.map_append]
  congr 1
  · split <;> rfl
  · cases binding with
    | none => rfl
    | some x =>
      dsimp only [Option.map_some]
      cases states.has x <;> rfl

/-- An element, its content and what is below it: the content and what is below are in the element
if it can have content, and where the element is if not. -/
theorem hostedAll_ofNode_element (states : StateTable) (above : List (Nat × Element))
    (b : Builder) (index : Nat) (e : Element) (cs : List Node) :
    hostedAll (Place.nearest? above) index (ofNode states b (.element e cs)).1 =
      Place.hosted states ⟨b.next, index, above, .element e⟩ ++
        hostedAll (Place.nearest? ((index, e) :: above))
          (index + (Piece.ofItem states 0 (.element e)).length)
          (ofNodes states (b.addItem states (.element e)) cs).1 := by
  have hadd : (b.addElement e).addBinding states e.binding = b.addItem states (.element e) := rfl
  have hlength : (Piece.ofItem states 0 (.element e)).length =
      1 + (Piece.content states e.text e.binding).length := by
    rw [Nat.add_comm]
    rfl
  rw [ofNode, hadd, hlength, ← Nat.add_assoc]
  cases hvoid : e.isVoid with
  | true =>
    have hnearest : Place.nearest? ((index, e) :: above) = Place.nearest? above := by
      simp [Place.nearest?, hvoid]
    rw [if_pos rfl, hostedAll_childless, hostedAll_content, hnearest]
    simp [Place.hosted, Place.inner?, Place.host?, hnearest, Piece.own?, Item.element?,
      Item.literal, Item.binding?]
  | false =>
    have hnearest : Place.nearest? ((index, e) :: above) = some index := by
      simp [Place.nearest?, hvoid]
    rw [if_neg (by simp), hostedAll_element, hostedAll_content, hnearest]
    simp [Place.hosted, Place.inner?, Place.host?, hnearest, Piece.own?, Item.element?,
      Item.literal, Item.binding?]

/-- **Every piece of a document is where its node is placed.** -/
theorem hostedAll_ofNodes (states : StateTable) (above : List (Nat × Element)) (b : Builder)
    (index : Nat) (ns : List Node) :
    hostedAll (Place.nearest? above) index (ofNodes states b ns).1 =
      (placeAll states above b.next index ns).flatMap (Place.hosted states) := by
  induction ns using Node.forest_induction generalizing above b index with
  | nil => rfl
  | element e cs ns ihcs ihns =>
    have hlength : (piecesAll (ofNode states b (.element e cs)).1).length =
        (Piece.ofItem states 0 (.element e)).length + width states cs := by
      rw [piecesAll_ofNode_element, List.length_append, length_piecesAll_ofNodes,
        Piece.length_ofItem]
    rw [placeAll_element, List.flatMap_cons, List.flatMap_append, ofNodes, hostedAll_append,
      hostedAll_ofNode_element, ihcs, ihns, hlength, snd_ofNode_element, snd_ofNodes,
      Builder.next_addAll, Builder.next_addItem, List.append_assoc, Nat.add_assoc]
    rfl
  | text t ns ih =>
    have hlength : (piecesAll (ofNode states b (.text t)).1).length =
        (Piece.ofItem states 0 (.text t)).length := by
      rw [ofNode, piecesAll_content]
      rfl
    have hnext : (ofNode states b (.text t)).2.next = b.next :=
      (Builder.addBinding_cases states b t.binding).1
    rw [placeAll_text, List.flatMap_cons, ofNodes, hostedAll_append, ih, hlength, hnext]
    congr 1
    have h := hostedAll_content states (Place.nearest? above) index t.text t.binding []
    rw [List.append_nil, hostedAll_nil, List.append_nil] at h
    exact h
  | comment ns ih =>
    rw [placeAll_comment, List.flatMap_cons, ofNodes, hostedAll_append, ih]
    rfl

/-! ### Documents that show something -/

theorem escape_eq_nil_iff {s : Bytes} : escape s = [] ↔ s = [] := by
  have hoctet (b : UInt8) : escapeOctet b ≠ [] := by
    rw [escapeOctet]
    split_ifs <;> exact List.cons_ne_nil _ _
  constructor
  · intro h
    rw [escape, List.flatMap_eq_nil_iff] at h
    exact List.eq_nil_iff_forall_not_mem.mpr fun b hb => hoctet b (h b hb)
  · rintro rfl
    rfl

/-- What is written of a tree is empty only if the tree is an empty text. -/
theorem text_renderIn_ne_nil {m : Markup} (h : m.Writable) (htext : m ≠ .text []) :
    (renderIn false m).text ≠ [] := by
  cases m with
  | text s =>
    intro hs
    obtain rfl : s = [] := escape_eq_nil_iff.mp hs
    exact htext rfl
  | element name as cs =>
    obtain ⟨hplain, hempty, hcs⟩ := h
    by_cases hvoid : name ∈ voidTags
    · obtain rfl := hempty hvoid
      rw [renderIn_void false as hvoid]
      exact List.cons_ne_nil _ _
    · rw [renderIn_element false as hvoid hplain (ending_renderAll _ hcs)]
      exact List.cons_ne_nil _ _

theorem text_renderAll_eq_nil_iff {ms : List Markup} (h : AllWritable ms)
    (htext : Piece.text [] ∉ piecesAll ms) : (renderAll false ms).text = [] ↔ ms = [] := by
  constructor
  · intro hnil
    cases ms with
    | nil => rfl
    | cons m ms =>
      have hm : m ≠ .text [] := by
        rintro rfl
        exact htext (by simp)
      rw [renderAll, Written.append_of_complete (ending_renderIn false h.1)] at hnil
      exact absurd (List.append_eq_nil_iff.mp hnil).1 (text_renderIn_ne_nil h.1 hm)
  · rintro rfl
    rfl

theorem piecesAll_eq_nil_iff {ms : List Markup} : piecesAll ms = [] ↔ ms = [] := by
  constructor
  · intro h
    cases ms with
    | nil => rfl
    | cons m ms => cases m <;> exact absurd h (List.cons_ne_nil _ _)
  · rintro rfl
    rfl

theorem ofItem_eq_nil_iff (states : StateTable) (number : Nat) (i : Item) :
    Piece.ofItem states number i = [] ↔
      i.element? = none ∧ i.literal = [] ∧ i.binding? = none := by
  rw [Piece.ofItem, Piece.content, Piece.own?]
  simp

/-- No empty text goes into a document: an empty literal is left out, and names are not empty. -/
theorem text_nil_notMem_ofItem (states : StateTable) (number : Nat) {i : Item}
    (h : ∀ x, i.binding? = some x → x ≠ []) : Piece.text [] ∉ Piece.ofItem states number i := by
  intro hmem
  rw [Piece.ofItem, Piece.content, Piece.own?, List.mem_append, List.mem_append] at hmem
  rcases hmem with hmem | hmem | hmem
  · obtain ⟨e, -, he⟩ := Option.map_eq_some_iff.mp (Option.mem_toList.mp hmem)
    exact absurd he (by simp)
  · rw [List.mem_ite_nil_left, List.mem_singleton] at hmem
    obtain ⟨hne, heq⟩ := hmem
    rw [← Piece.text.inj heq] at hne
    exact hne rfl
  · obtain ⟨x, hx, heq⟩ := Option.map_eq_some_iff.mp (Option.mem_toList.mp hmem)
    split at heq
    · exact absurd heq (by simp [Piece.placeholder])
    · exact h x hx (Piece.text.inj heq)

/-- A document has a script exactly if there is a state or a handler for it. -/
theorem text_script_eq_nil_iff (states : StateTable) (ws : List Wiring) :
    (renderAll false (script states ws)).text = [] ↔ states.declarations = [] ∧ ws = [] := by
  have hscript : Script.text? states.declarations ws = none ↔
      states.declarations = [] ∧ ws = [] := by
    rw [Script.text?]
    simp
  rw [← hscript, text_renderAll_script]
  cases Script.text? states.declarations ws with
  | none => exact ⟨fun _ => rfl, fun _ => rfl⟩
  | some s =>
    constructor
    · intro h
      exact absurd (List.append_eq_nil_iff.mp h).2 (by decide)
    · intro h
      exact absurd h (by simp)

/-- The markup of a source is empty if none of its nodes is an element or has a text or a binding.
-/
theorem text_markup_eq_nil_iff (src : Bytes) :
    let t := SourceTree.ofSource src
    (renderAll false (elements t.states t.nodes).1).text = [] ↔
      ∀ i ∈ items t.nodes, i.element? = none ∧ i.literal = [] ∧ i.binding? = none := by
  intro t
  have hnodes : AllWritable (elements t.states t.nodes).1 :=
    (allWritable_append.mp (allWritable_body src)).1
  have htext : Piece.text [] ∉ piecesAll (elements t.states t.nodes).1 := by
    rw [elements, piecesAll_ofNodes, List.mem_flatMap]
    rintro ⟨y, hy, hmem⟩
    have hi : y.2 ∈ items t.nodes := by
      rw [← Item.map_snd_numbered 0 (items t.nodes)]
      exact List.mem_map_of_mem hy
    refine text_nil_notMem_ofItem t.states y.1 (fun x hx => ?_) hmem
    exact ne_nil_of_isWord (Layout.isBinding_of_mem_items hi hx)
  rw [text_renderAll_eq_nil_iff hnodes htext, ← piecesAll_eq_nil_iff, elements,
    piecesAll_ofNodes, List.flatMap_eq_nil_iff]
  conv => rhs; rw [← Item.map_snd_numbered 0 (items t.nodes)]
  simp only [ofItem_eq_nil_iff, List.forall_mem_map]

/-- A document is the empty one if there is nothing between its opening and its closing. -/
theorem compile_eq_empty_iff_text (src : Bytes) :
    let t := SourceTree.ofSource src
    compile src = empty ↔ (renderAll false (elements t.states t.nodes).1).text = [] ∧
      (renderAll false (script t.states (elements t.states t.nodes).2.wirings)).text = [] := by
  intro t
  have hcompile : compile src = opening ++
      (renderAll false (elements t.states t.nodes).1).text ++
      (renderAll false (script t.states (elements t.states t.nodes).2.wirings)).text ++ closing :=
    compile_eq src
  rw [hcompile, show empty = opening ++ closing from rfl]
  constructor
  · intro h
    have hlength := congrArg List.length h
    simp only [List.length_append] at hlength
    exact ⟨List.eq_nil_of_length_eq_zero (by omega), List.eq_nil_of_length_eq_zero (by omega)⟩
  · rintro ⟨hmarkup, hscript⟩
    rw [hmarkup, hscript, List.append_nil, List.append_nil]

/-- **A source whose document is empty has nothing to show**: no element, no text, no binding and no
state. -/
theorem compile_eq_empty_iff (src : Bytes) :
    let t := SourceTree.ofSource src
    compile src = empty ↔ t.states.declarations = [] ∧
      ∀ i ∈ items t.nodes, i.element? = none ∧ i.literal = [] ∧ i.binding? = none := by
  intro t
  have hparts := and_congr (text_markup_eq_nil_iff src)
    (text_script_eq_nil_iff t.states (elements t.states t.nodes).2.wirings)
  refine ((compile_eq_empty_iff_text src).trans hparts).trans ?_
  constructor
  · rintro ⟨hall, hstates, -⟩
    exact ⟨hstates, hall⟩
  · rintro ⟨hstates, hall⟩
    refine ⟨hall, hstates, ?_⟩
    -- Without elements there are no handlers.
    have helements : Node.elements t.nodes = [] := by
      refine List.eq_nil_iff_forall_not_mem.mpr fun e he => ?_
      exact absurd (hall _ (mem_elements_iff.mp he)).1 (by simp [Item.element?])
    rw [wirings_elements, Wiring.ofNodes, helements]
    rfl

/-! ### Complete documents -/

/-- **Nothing is lost on the way to the document.** Whatever the source is, no element that cannot
have content has children in the markup of the document and none is the plain-text element, so all
of it is written; the document is empty only if there is nothing to show. The pieces of the markup
in pre-order are those of the nodes of the source, each an element followed by its text and its
binding, where the plain-text element is shown as preformatted text; and a piece is in the nearest
ancestor of its node that can have content. -/
theorem generation_loses_nothing (src : Bytes) :
    let t := SourceTree.ofSource src
    let markup := (elements t.states t.nodes).1
    let document := shell (markup ++ script t.states (elements t.states t.nodes).2.wirings)
    let places := placeAll t.states [] 0 0 t.nodes
    document.Writable ∧ document.render.ending = .complete ∧
    compile src = doctype ++ document.render.text ∧
    (compile src = empty ↔ t.states.declarations = [] ∧
      ∀ i ∈ items t.nodes, i.element? = none ∧ i.literal = [] ∧ i.binding? = none) ∧
    (∀ e ∈ Node.elements t.nodes,
      shownTag e = if e.tag = utf8 "plaintext" then utf8 "pre" else e.tag) ∧
    (Item.numbered 0 (items t.nodes)).map Prod.snd =
      (preorderAll 0 t.nodes).map (fun y => y.2.item) ∧
    piecesAll markup = (Item.numbered 0 (items t.nodes)).flatMap (fun y =>
      (y.2.element?.map fun e => Piece.element (shownTag e) (attributes y.1 e)).toList ++
        ((if y.2.literal.isEmpty then [] else [Piece.text y.2.literal]) ++
          (y.2.binding?.map fun x =>
            if t.states.has x then Piece.placeholder x else Piece.text x).toList)) ∧
    places.map (fun y => (y.ancestors.head?.map Prod.snd, y.item)) = parentedAll none t.nodes ∧
    (∀ y ∈ places, ∀ (k : Nat) (e : Element) (rest : List (Nat × Element)),
      y.ancestors = (k, e) :: rest →
        ∃ z ∈ places, z.index = k ∧ z.item = .element e ∧ z.ancestors = rest) ∧
    (∀ y ∈ places, ∀ e : Element, y.item = .element e →
      (hostedAll none 0 markup)[y.index]? =
        some ((y.ancestors.find? fun a => !a.2.isVoid).map Prod.fst,
          Piece.element (shownTag e) (attributes y.number e))) ∧
    hostedAll none 0 markup = places.flatMap (Place.hosted t.states) := by
  intro t markup document places
  have hbody : AllWritable (markup ++ script t.states (elements t.states t.nodes).2.wirings) :=
    allWritable_body src
  have hhosted : hostedAll none 0 markup = places.flatMap (Place.hosted t.states) :=
    hostedAll_ofNodes t.states [] {} 0 t.nodes
  refine ⟨writable_shell hbody, ?_, ?_, compile_eq_empty_iff src, ?_, ?_,
    piecesAll_ofNodes t.states {} t.nodes, map_parent_placeAll t.states [] 0 0 t.nodes, ?_, ?_,
    hhosted⟩
  · rw [render_shell hbody]
    rfl
  · have hcompile : compile src = generate t.states t.nodes := rfl
    rw [hcompile, generate, body, render_shell hbody]
    rfl
  · intro e he
    have hstandard := (Layout.spelt_of_mem_elements he).standard
    rw [shownTag, Element.isPlaintext, hstandard, Bool.true_and]
    simp [plaintextTag]
  · rw [Item.map_snd_numbered, map_item_preorderAll]
  · intro y hy k e rest hancestors
    rcases ancestors_of_mem_placeAll t.states hy with hnil | ⟨z, hz, e', he', hcons⟩
    · rw [hnil] at hancestors
      exact absurd hancestors (by simp)
    · rw [hancestors, List.cons.injEq, Prod.mk.injEq] at hcons
      obtain ⟨⟨rfl, rfl⟩, rfl⟩ := hcons
      exact ⟨z, hz, rfl, he', rfl⟩
  · intro y hy e he
    have hindexed := indexedFrom_placeAll t.states [] 0 0 t.nodes
    have hown : y.hosted t.states = (y.host?, .element (shownTag e) (attributes y.number e)) ::
        (Piece.content t.states e.text e.binding).map (y.inner?, ·) := by
      rw [Place.hosted, he]
      rfl
    have hget := Place.getElem?_of_indexedFrom hindexed hy hown
    rw [Nat.sub_zero] at hget
    rw [hhosted, hget]
    rfl

/-- A paragraph below two elements without content goes into the element around them. -/
theorem generation_loses_nothing_nested :
    let t := SourceTree.ofSource (utf8 "div\n br\n  hr\n   p")
    ∃ y ∈ placeAll t.states [] 0 0 t.nodes, ∃ e : Element, y.item = .element e ∧
      y.ancestors.map (fun a => a.2.tag) = [utf8 "hr", utf8 "br", utf8 "div"] ∧
      (hostedAll none 0 (elements t.states t.nodes).1)[y.index]? =
        some (some 0, Piece.element (utf8 "p") []) := by
  intro t
  let div : Element := { tag := utf8 "div", position := ⟨1, 1⟩ }
  let br : Element := { tag := utf8 "br", position := ⟨2, 2⟩ }
  let hr : Element := { tag := utf8 "hr", position := ⟨3, 3⟩ }
  let p : Element := { tag := utf8 "p", position := ⟨4, 4⟩ }
  have hplaces : placeAll t.states [] 0 0 t.nodes =
      [⟨0, 0, [], .element div⟩, ⟨0, 1, [(0, div)], .element br⟩,
        ⟨0, 2, [(1, br), (0, div)], .element hr⟩,
        ⟨0, 3, [(2, hr), (1, br), (0, div)], .element p⟩] := by decide +kernel
  have hmem : (⟨0, 3, [(2, hr), (1, br), (0, div)], .element p⟩ : Place) ∈
      placeAll t.states [] 0 0 t.nodes := by simp [hplaces]
  obtain ⟨-, -, -, -, -, -, -, -, -, hhosted, -⟩ :=
    generation_loses_nothing (utf8 "div\n br\n  hr\n   p")
  exact ⟨_, hmem, p, rfl, rfl, hhosted _ hmem p rfl⟩

end Document

end LiveMarkup
