import LiveMarkup.Proofs.Style.Declaration
import LiveMarkup.Proofs.Text.Splitting
import LiveMarkup.Proofs.Tree.Regular

/-!
# Reading an inline style back

The style of an element is written as its declarations, joined by semicolons. Whoever reads it cuts
it at the semicolons outside quotations and brackets. No value has a semicolon, so the reader finds
no more declarations than there are. But a value is written without the quotes around it, and may
have a quote or a parenthesis of its own that is not closed; then the semicolon behind it does not
count, and the declaration after it is swallowed.

`LiveMarkup.Nesting.isClosed` says of a text that a reader is at top level after it. Where a closing
bracket came without its opening one is remembered by the reader, but does not matter to the cuts
(`LiveMarkup.Nesting.splitFrom_congr`). So it is enough to look at each declaration alone, and
the style is read back exactly if all values but the last are closed
(`LiveMarkup.Layout.styles_read_back`).
-/

namespace LiveMarkup

namespace Nesting

/-! ### Joined texts -/

section Joined

variable {sep : UInt8}

theorem passesOver_of_notMem {s : Bytes} (h : sep ∉ s) (n : Nesting) :
    passesOver (stopsAt sep) n s := by
  induction s generalizing n with
  | nil => rfl
  | cons b s ih =>
    rw [List.mem_cons, not_or] at h
    rw [passesOver, ih h.2, stopsAt]
    simp [Ne.symm h.1]

/-- A text without separators is one part, or the start of the first. -/
theorem length_splitFrom_append {d : Bytes} (hd : sep ∉ d) (n : Nesting) (r : Bytes) :
    (splitFrom sep n (d ++ r)).length = (splitFrom sep (d.foldl step n) r).length := by
  obtain ⟨w, ws, hr⟩ := List.exists_cons_of_ne_nil (splitFrom_ne_nil sep (d.foldl step n) r)
  rw [splitFrom_append (passesOver_of_notMem hd n) hr, hr]
  rfl

/-- **A closed text is cut off** at the separator behind it. -/
theorem split_append_cons {d : Bytes} (hd : sep ∉ d) (hclosed : isClosed d) (r : Bytes) :
    split sep (d ++ sep :: r) = d :: split sep r := by
  have hrest : splitFrom sep (d.foldl step {}) (sep :: r) = [] :: split sep r := by
    rw [splitFrom, if_pos ⟨rfl, hclosed⟩, splitFrom_congr (bare_foldl_of_isClosed hclosed)]
    rfl
  rw [split, splitFrom_append (passesOver_of_notMem hd {}) hrest, List.append_nil]

theorem intercalate_cons_cons_sep (d e : Bytes) (ds : List Bytes) :
    List.intercalate [sep, octet ' '] (d :: e :: ds) =
      d ++ sep :: ([octet ' '] ++ List.intercalate [sep, octet ' '] (e :: ds)) := by
  rw [List.intercalate_cons_cons, List.append_assoc]
  rfl

variable (hspace : sep ∉ [octet ' '])

include hspace

/-- **One separator of a joined list** adds a part if it is at top level. What follows it is read
from some nesting in any case. -/
theorem exists_length_splitFrom_intercalate {d : Bytes} (hd : sep ∉ d) (e : Bytes) (ds : List Bytes)
    (n : Nesting) :
    ∃ m, (splitFrom sep n (List.intercalate [sep, octet ' '] (d :: e :: ds))).length =
      (splitFrom sep m (List.intercalate [sep, octet ' '] (e :: ds))).length +
        if (d.foldl step n).isTop then 1 else 0 := by
  rw [intercalate_cons_cons_sep, length_splitFrom_append hd, splitFrom]
  by_cases htop : (d.foldl step n).isTop
  · rw [if_pos ⟨rfl, htop⟩, if_pos htop, List.length_cons, length_splitFrom_append hspace]
    exact ⟨_, rfl⟩
  · rw [if_neg fun h => htop h.2, if_neg htop, List.length_modifyHead,
      length_splitFrom_append hspace]
    exact ⟨_, rfl⟩

variable {d : Bytes} {ds : List Bytes} (h : ∀ e ∈ d :: ds, sep ∉ e)

include h

/-- **A joined list has no more parts than texts**, if none of them has a separator. -/
theorem length_splitFrom_intercalate_le (n : Nesting) :
    (splitFrom sep n (List.intercalate [sep, octet ' '] (d :: ds))).length ≤ ds.length + 1 := by
  induction ds generalizing d n with
  | nil =>
    rw [List.intercalate_singleton, ← List.append_nil d,
      length_splitFrom_append (h d List.mem_cons_self)]
    exact Nat.le_refl 1
  | cons e ds ih =>
    rw [List.forall_mem_cons] at h
    obtain ⟨m, hm⟩ := exists_length_splitFrom_intercalate hspace h.1 e ds n
    have hrest := ih h.2 m
    rw [hm, List.length_cons]
    split <;> omega

/-- **A joined list is cut where it was joined**, if all texts but the last are closed. -/
theorem split_intercalate_of_isClosed (hclosed : ∀ e ∈ (d :: ds).dropLast, isClosed e) :
    split sep (List.intercalate [sep, octet ' '] (d :: ds)) = d :: ds.map (octet ' ' :: ·) := by
  induction ds generalizing d with
  | nil =>
    have hlast : splitFrom sep {} (d ++ []) = [d ++ []] :=
      splitFrom_append (passesOver_of_notMem (h d List.mem_cons_self) {}) rfl
    rw [List.append_nil] at hlast
    rwa [List.intercalate_singleton]
  | cons e ds ih =>
    rw [List.forall_mem_cons] at h
    rw [List.dropLast_cons_cons, List.forall_mem_cons] at hclosed
    have hrest : split sep ([octet ' '] ++ List.intercalate [sep, octet ' '] (e :: ds)) =
        (octet ' ' :: e) :: ds.map (octet ' ' :: ·) :=
      splitFrom_append (passesOver_of_notMem hspace {}) (ih h.2 hclosed.2)
    rw [intercalate_cons_cons_sep, split_append_cons h.1 hclosed.1, hrest]
    rfl

/-- A separator is lost if it is behind a text that is not closed. -/
theorem length_split_intercalate_iff :
    (split sep (List.intercalate [sep, octet ' '] (d :: ds))).length = ds.length + 1 ↔
      ∀ e ∈ (d :: ds).dropLast, isClosed e := by
  constructor
  · intro hlength
    induction ds generalizing d with
    | nil => simp
    | cons e ds ih =>
      rw [List.forall_mem_cons] at h
      by_cases hd : isClosed d
      · rw [intercalate_cons_cons_sep, split_append_cons h.1 hd, List.length_cons, split,
          length_splitFrom_append hspace] at hlength
        rw [List.dropLast_cons_cons, List.forall_mem_cons]
        exact ⟨hd, ih h.2 (Nat.succ.inj hlength)⟩
      · -- The separator behind the first text is passed over, and the others do not make up for it.
        obtain ⟨m, hm⟩ := exists_length_splitFrom_intercalate hspace h.1 e ds {}
        have hrest := length_splitFrom_intercalate_le hspace h.2 m
        rw [if_neg (show ¬(d.foldl step {}).isTop from hd)] at hm
        rw [split, hm, List.length_cons] at hlength
        omega
  · intro hclosed
    rw [split_intercalate_of_isClosed hspace h hclosed, List.length_cons, List.length_map]

end Joined

end Nesting

/-! ### Declarations -/

namespace Style

/-- A property as it is written. -/
def declaration (p : StyleProperty) : Bytes := p.name ++ utf8 ": " ++ p.value

/-- **The octets of a stored name** are small letters, digits and dashes. -/
theorem isTagOctet_of_mem_propertyName {name : Bytes} (h : ∀ b ∈ name, isNameOctet b) :
    ∀ b ∈ propertyName name, isTagOctet b := by
  have hwords {ws : List Bytes} (hws : ∀ w ∈ ws, isPlain w) :
      ∀ b ∈ List.intercalate (utf8 "-") ws, isTagOctet b := by
    have hword {w : Bytes} (hw : isPlain w) : ∀ b ∈ w, isTagOctet b := by
      intro b hb
      rcases stored_of_isPlain hw b hb with hb | hb <;> simp [isTagOctet, hb]
    exact Bytes.intercalate_induction (P := fun s => ∀ b ∈ s, isTagOctet b) (by simp)
      (fun hs ht => List.forall_mem_append.mpr ⟨hs, ht⟩) (List.forall_mem_singleton.mpr rfl)
      fun w hw => hword (hws w hw)
  rw [propertyName_eq, List.forall_mem_append]
  refine ⟨fun b hb => ?_, hwords (isPlain_of_mem_nameWords h)⟩
  rw [List.eq_of_mem_replicate hb]
  rfl

/-- What holds of every declared property: nothing in it can end its declaration. -/
theorem semicolon_notMem_declaration {p : StyleProperty} (hname : ∀ b ∈ p.name, isTagOctet b)
    (hvalue : isStorable p.value) : octet ';' ∉ declaration p := by
  have hfree : octet ';' ∉ p.name := fun hmem => absurd (hname _ hmem) (by decide)
  have hstored : octet ';' ∉ p.value := fun hmem =>
    (isStorable_iff.mp hvalue).2 _ hmem List.mem_cons_self
  exact List.not_mem_append (List.not_mem_append hfree (by decide)) hstored

/-- A declaration is closed if its value is. -/
theorem isClosed_declaration {p : StyleProperty} (hname : ∀ b ∈ p.name, isTagOctet b) :
    Nesting.isClosed (declaration p) = Nesting.isClosed p.value := by
  have hhead : avoids Nesting.marks (p.name ++ utf8 ": ") := by
    rw [avoids_append, avoids_of_all (p := isTagOctet) (by decide) (List.all_eq_true.mpr hname)]
    rfl
  rw [Nesting.isClosed, Nesting.isClosed, declaration, List.foldl_append,
    Nesting.foldl_step_of_avoids hhead]

/-- What a reader finds between the semicolons of a style, without the white space around it. -/
def readParts (ps : List StyleProperty) : List Bytes :=
  (Nesting.split (octet ';') (text ps)).map Bytes.trim

/-- **A style is read back** part by part exactly if all values but the last are closed. It is never
read as more declarations than it has. -/
theorem readParts_iff {ps : List StyleProperty} (hne : ps ≠ [])
    (hname : ∀ p ∈ ps, ∀ b ∈ p.name, isTagOctet b) (hvalue : ∀ p ∈ ps, isStorable p.value) :
    (readParts ps).length ≤ ps.length ∧
    ((readParts ps).length = ps.length ↔ ∀ p ∈ ps.dropLast, Nesting.isClosed p.value) ∧
    (readParts ps = ps.map (fun p => (declaration p).trim) ↔
      ∀ p ∈ ps.dropLast, Nesting.isClosed p.value) := by
  rcases ps with - | ⟨p, ps⟩
  · exact absurd rfl hne
  have hspace : octet ';' ∉ [octet ' '] := by decide
  have hfree : ∀ e ∈ declaration p :: ps.map declaration, octet ';' ∉ e := by
    intro e he
    rw [← List.map_cons] at he
    obtain ⟨q, hq, rfl⟩ := List.mem_map.mp he
    exact semicolon_notMem_declaration (hname q hq) (hvalue q hq)
  -- Names have no marks, so that only the values can be open.
  have hclosed : (∀ e ∈ (declaration p :: ps.map declaration).dropLast, Nesting.isClosed e) ↔
      ∀ q ∈ (p :: ps).dropLast, Nesting.isClosed q.value := by
    rw [← List.map_cons, ← List.map_dropLast, List.forall_mem_map]
    refine forall₂_congr fun q hq => ?_
    rw [isClosed_declaration (hname q (List.dropLast_subset _ hq))]
  have htext : text (p :: ps) = List.intercalate [octet ';', octet ' ']
      (declaration p :: ps.map declaration) := rfl
  have hlength : (readParts (p :: ps)).length = (p :: ps).length ↔
      ∀ q ∈ (p :: ps).dropLast, Nesting.isClosed q.value := by
    rw [readParts, List.length_map, htext, ← hclosed,
      ← Nesting.length_split_intercalate_iff hspace hfree, List.length_map, List.length_cons]
  refine ⟨?_, hlength, fun hparts => ?_, fun hall => ?_⟩
  · rw [readParts, List.length_map, htext, List.length_cons, ← ps.length_map declaration]
    exact Nesting.length_splitFrom_intercalate_le hspace hfree {}
  · rw [← hlength, hparts, List.length_map]
  · rw [readParts, htext, Nesting.split_intercalate_of_isClosed hspace hfree (hclosed.mpr hall)]
    rw [List.map_cons, List.map_map, List.map_map, List.map_cons]
    refine congrArg _ (List.map_congr_left fun q _ => ?_)
    exact Bytes.trim_replicate_append 1 (declaration q)

end Style

/-! ### The styles of a source -/

/-- Whether a property is one of those that some list declares. -/
def Style.IsDeclared (p : StyleProperty) : Prop := ∃ s, p ∈ (parseList s).1

/-- **Nothing in a declared property can end its declaration** or hide its colon. -/
theorem Style.IsDeclared.form {p : StyleProperty} (h : IsDeclared p) :
    (∀ b ∈ p.name, isTagOctet b) ∧ isStorable p.value := by
  obtain ⟨s, hs⟩ := h
  obtain ⟨d, -, hd⟩ := exists_parse?_of_mem_parseList hs
  obtain ⟨hwritten, hname, -⟩ := name_of_parse? hd
  rw [hname]
  exact ⟨isTagOctet_of_mem_propertyName (isNameOctet_of_isWrittenName hwritten),
    isStorable_of_mem_parseList hs⟩

/-- An attribute list adds declared properties only. -/
theorem Attributed.isDeclared_addList (position : Position) {e : Element}
    (he : ∀ p ∈ e.style, Style.IsDeclared p) (list : Bytes) :
    ∀ p ∈ (addList position e list).element.style, Style.IsDeclared p := by
  refine addList_induction position list
    (P := fun a => ∀ p ∈ a.element.style, Style.IsDeclared p) he (fun _ _ _ ha => ha) ?_ ?_
    (fun _ _ _ _ ha => ha) fun _ _ _ _ _ _ ha => ha
  · intro a value c _ ha
    dsimp only
    rw [Element.addClass]
    split <;> exact ha
  · intro a value ha
    exact Style.forall_mem_setAll (fun p hp => ⟨value, hp⟩) ha

theorem Reading.isDeclared_elementOf (l : Line) (t : TagLine) :
    ∀ p ∈ (elementOf l t).element.style, Style.IsDeclared p := by
  have hhead : ∀ p ∈ (headOf l t).style, Style.IsDeclared p := by
    obtain ⟨classes, attributes, hframe, -⟩ := headOf_frame l t
    rw [hframe]
    simp
  rw [elementOf_eq]
  rcases t.attributes with - | list
  · exact hhead
  · exact Attributed.isDeclared_addList _ hhead list.text

theorem Row.isDeclared_of_mem_declarations {x : Row} {p : StyleProperty}
    (h : p ∈ x.declarations) : Style.IsDeclared p := by
  rw [declarations] at h
  split at h
  · split at h
    · cases h
    · exact ⟨_, h⟩
  · exact ⟨_, h⟩
  · cases h

namespace Layout

/-- **The style of an element of a source is declared.** -/
theorem isDeclared_of_mem_style {src : Bytes} {e : Element}
    (h : e ∈ Node.elements (SourceTree.ofSource src).nodes) :
    ∀ p ∈ e.style, Style.IsDeclared p := by
  rw [elements_nodes, List.mem_filterMap] at h
  obtain ⟨x, -, hx⟩ := h
  obtain ⟨t, ht, rfl⟩ := Option.map_eq_some_iff.mp hx
  refine Style.forall_mem_setAll (fun p hp => ?_) (Reading.isDeclared_elementOf x.line t)
  obtain ⟨⟨before, y⟩, -, hy⟩ := List.mem_flatMap.mp hp
  dsimp only at hy
  split at hy
  · exact Row.isDeclared_of_mem_declarations hy
  · cases hy

/-- **Inline styles are read back** as they are declared exactly if every value but the last of the
element is closed. A reader then finds the declarations of the element, one by one; otherwise it
finds fewer, because some are swallowed by a value in front of them. It never finds more. Values
without quotes and brackets are closed. -/
theorem styles_read_back {src : Bytes} {e : Element}
    (h : e ∈ Node.elements (SourceTree.ofSource src).nodes) (hne : e.style ≠ []) :
    (Style.readParts e.style).length ≤ e.style.length ∧
    ((Style.readParts e.style).length = e.style.length ↔
      ∀ p ∈ e.style.dropLast, Nesting.isClosed p.value) ∧
    (Style.readParts e.style = e.style.map (fun p => (Style.declaration p).trim) ↔
      ∀ p ∈ e.style.dropLast, Nesting.isClosed p.value) ∧
    ∀ p ∈ e.style, avoids Nesting.marks p.value → Nesting.isClosed p.value := by
  have hdeclared := isDeclared_of_mem_style h
  obtain ⟨hle, hlength, hparts⟩ := Style.readParts_iff hne
    (fun p hp => (hdeclared p hp).form.1) fun p hp => (hdeclared p hp).form.2
  exact ⟨hle, hlength, hparts, fun p _ => Nesting.isClosed_of_avoids⟩

/-- A value with parentheses in an attribute list, and a declaration behind it in a block. -/
theorem styles_read_back_closed : ∃ e ∈ Node.elements (SourceTree.ofSource
      (utf8 "p(style: 'a: b(1)')\n style \x7b\n  c: d")).nodes,
    e.style ≠ [] ∧ e.style = [⟨utf8 "a", utf8 "b(1)"⟩, ⟨utf8 "c", utf8 "d"⟩] ∧
    Style.readParts e.style = e.style.map fun p => (Style.declaration p).trim := by
  have hstyles : (Node.elements (SourceTree.ofSource
      (utf8 "p(style: 'a: b(1)')\n style \x7b\n  c: d")).nodes).map Element.style =
        [[⟨utf8 "a", utf8 "b(1)"⟩, ⟨utf8 "c", utf8 "d"⟩]] := by decide +kernel
  obtain ⟨e, he, hstyle⟩ := List.mem_map.mp (hstyles ▸ List.mem_singleton_self _)
  have hne : e.style ≠ [] := by
    rw [hstyle]
    exact List.cons_ne_nil _ _
  have hclosed : ∀ p ∈ e.style.dropLast, Nesting.isClosed p.value := by
    rw [hstyle]
    exact List.forall_mem_singleton.mpr (by decide)
  exact ⟨e, he, hne, hstyle, (styles_read_back he hne).2.2.1.mpr hclosed⟩

/-- **An apostrophe swallows the declaration behind it.** -/
theorem styles_not_read_back : ∃ e ∈ Node.elements (SourceTree.ofSource
      (utf8 "p\n style \x7bcontent: \"it's\"; color: red\x7d")).nodes,
    e.style = [⟨utf8 "content", utf8 "it's"⟩, ⟨utf8 "color", utf8 "red"⟩] ∧
    Style.readParts e.style = [utf8 "content: it's; color: red"] := by
  have hstyles : (Node.elements (SourceTree.ofSource
      (utf8 "p\n style \x7bcontent: \"it's\"; color: red\x7d")).nodes).map Element.style =
        [[⟨utf8 "content", utf8 "it's"⟩, ⟨utf8 "color", utf8 "red"⟩]] := by decide +kernel
  obtain ⟨e, he, hstyle⟩ := List.mem_map.mp (hstyles ▸ List.mem_singleton_self _)
  refine ⟨e, he, hstyle, ?_⟩
  rw [hstyle]
  decide +kernel

end Layout

end LiveMarkup
