import LiveMarkup.Proofs.Source.Columns
import LiveMarkup.Proofs.Text.Contents
import LiveMarkup.Proofs.Tree.Regular
import LiveMarkup.Proofs.Tree.Reports

/-!
# Sources with well-formed texts

A document copies texts from the tree of its source: texts of elements and text lines, classes, the
values of attributes and styles, statements that are left to the browser. All of them are parts of a
line, or contents of literals in it. So they are well-formed if the source is and has no escape
sequence that gives a character by its number (`LiveMarkup.Layout.wellFormed_of_mem_elements`,
`LiveMarkup.Layout.isValid_of_mem_items`).

What a script copies are initializers, which are parts of lines
(`LiveMarkup.SourceTree.isValid_of_mem_declarations`), so there a well-formed source is enough.
-/

namespace LiveMarkup

open Quoted (IsDirect)

/-- **The texts that an element brings into a document are well-formed.** -/
structure Element.WellFormed (e : Element) : Prop where
  text : Utf8.isValid e.text
  classes : ∀ c ∈ e.classes, Utf8.isValid c
  attributes : ∀ a ∈ e.attributes, Utf8.isValid a.value
  style : ∀ p ∈ e.style, Utf8.isValid p.name ∧ Utf8.isValid p.value
  statements : ∀ h ∈ e.handlers, Utf8.isValid h.statement.text

theorem isValid_of_isName {s : Bytes} (h : isName s) : Utf8.isValid s :=
  Utf8.isValid_of_ascii (List.all_eq_true.mpr fun b hb =>
    decide_eq_true (toNat_lt_of_isNameOctet (List.all_eq_true.mp h b hb)))

/-! ### Styles -/

namespace Style

/-- **The name of a property is well-formed**, whatever it is made of. -/
theorem isValid_propertyName (name : Bytes) : Utf8.isValid (propertyName name) := by
  have hwords (ws : List (List Char)) :
      Utf8.isValid (List.intercalate (utf8 "-") (ws.map lowered)) :=
    Utf8.isValid_intercalate (Utf8.isValid_utf8 "-")
      (List.forall_mem_map.mpr fun w _ => Utf8.isValid_iff.mpr ⟨_, rfl⟩)
  rw [propertyName]
  split
  · rw [Utf8.isValid_cons (by decide)]
    exact hwords _
  · exact hwords _

/-- The declarations of a direct text are well-formed. -/
theorem isValid_of_mem_parseList {s : Bytes} (h : IsDirect s) {p : StyleProperty}
    (hp : p ∈ (parseList s).1) : Utf8.isValid p.name ∧ Utf8.isValid p.value := by
  obtain ⟨-, name, w, hw, -, rfl⟩ := eq_of_mem_parseList hp
  exact ⟨isValid_propertyName name, (h.part hw).value.valid⟩

end Style

/-! ### Elements -/

namespace Element.WellFormed

variable {e : Element} (h : e.WellFormed)

include h

theorem addClass {c : Bytes} (hc : Utf8.isValid c) : (e.addClass c).WellFormed := by
  rw [Element.addClass]
  split
  · exact h
  · exact { h with
      classes := List.forall_mem_append.mpr ⟨h.classes, List.forall_mem_singleton.mpr hc⟩ }

theorem foldl_addClass {cs : List Bytes} (hcs : ∀ c ∈ cs, Utf8.isValid c) :
    (cs.foldl Element.addClass e).WellFormed :=
  List.foldlRecOn _ _ h fun _ hb c hc => hb.addClass (hcs c hc)

theorem addStyle {ps : List StyleProperty}
    (hps : ∀ p ∈ ps, Utf8.isValid p.name ∧ Utf8.isValid p.value) : (e.addStyle ps).WellFormed :=
  { h with style := Style.forall_mem_setAll hps h.style }

theorem setAttribute {value : Bytes} (hvalue : Utf8.isValid value) (key : Bytes) :
    (e.setAttribute key value).WellFormed :=
  { h with
    attributes := Attribute.forall_mem_set (P := fun a => Utf8.isValid a.value) hvalue
      h.attributes }

theorem addHandler {a : Handler} (ha : Utf8.isValid a.statement.text) :
    (e.addHandler a).WellFormed :=
  { h with
    statements := List.forall_mem_append.mpr ⟨h.statements, List.forall_mem_singleton.mpr ha⟩ }

/-- **A direct attribute list keeps an element well-formed.** -/
theorem addList (position : Position) {list : Bytes} (hlist : IsDirect list) :
    (Attributed.addList position e list).element.WellFormed := by
  have hdirect {value : Bytes} (hvalue : Attributed.IsValueOf value list) : IsDirect value :=
    hlist.part (Attributed.isPart_of_isValueOf hvalue)
  refine Attributed.addList_induction_of position list (P := fun a => a.element.WellFormed) h
    (fun _ _ _ ha => ha) ?_ ?_ ?_ ?_
  · intro a value c hvalue hc ha
    exact ha.addClass ((hdirect hvalue).value.part (Bytes.isPart_of_mem_words hc)).valid
  · -- The declarations are in the content of the value, and each of their values is read again.
    intro a value hvalue ha
    exact ha.addStyle fun p hp => Style.isValid_of_mem_parseList (hdirect hvalue).value hp
  · intro a value v hvalue hv ha
    exact ha.addHandler ((hdirect hvalue).part
      ((Statement.isPart_ofBody v.body).trans (EventValue.isPart_of_parse? hv))).valid
  · intro a key value hvalue _ _ _ ha
    exact ha.setAttribute (hdirect hvalue).value.valid key

end Element.WellFormed

/-- **The element of a direct tag line is well-formed.** -/
theorem Reading.wellFormed_elementOf {l : Line} {t : TagLine} (hl : IsDirect l.text)
    (h : TagLine.parse? l.text = some t) : (elementOf l t).element.WellFormed := by
  have hempty : Utf8.isValid [] := Utf8.isValid_utf8 ""
  have hbare : ({ tag := t.tag, position := l.position } : Element).WellFormed := by
    constructor <;> simp [hempty]
  have hclasses : (t.classes.foldl Element.addClass
      { tag := t.tag, position := l.position }).WellFormed :=
    hbare.foldl_addClass fun c hc => isValid_of_isName (TagLine.isName_of_mem_classes h c hc).2
  have hhead : (headOf l t).WellFormed := by
    rw [headOf]
    cases hid : t.identifier? with
    | none => exact hclasses
    | some x =>
      exact hclasses.setAttribute (isValid_of_isName (TagLine.isName_of_identifier? h hid)) _
  have htext : Utf8.isValid (t.text.getD []) := by
    cases htext : t.text with
    | none => exact hempty
    | some x =>
      obtain ⟨literal, hpart, rfl⟩ := (TagLine.isPart_of_parse? h).2 x htext
      exact (hl.part hpart).content.valid
  rw [elementOf_eq]
  cases hlist : t.attributes with
  | none => exact { hhead with text := htext }
  | some list =>
    have hlisted := hhead.addList (l.position.advance t.headLength)
      (hl.part ((TagLine.isPart_of_parse? h).1 list hlist))
    exact { hlisted with text := htext }

/-! ### Lines of a source -/

/-- A text line starts with a quote. -/
theorem LineKind.isQuote_of_ofText {s : Bytes} {t : TextLine} (h : ofText s = .text t) :
    s.head?.any Quoted.isQuote := by
  rw [ofText] at h
  split at h
  · exact absurd h (by simp)
  split at h
  · rw [ofState] at h
    split at h
    · exact absurd h (by simp)
    · split at h <;> exact absurd h (by simp)
  split at h
  · exact absurd h (by simp)
  split at h
  · assumption
  · split at h <;> exact absurd h (by simp)

namespace Row

/-- The text of a text row is the content of a part of its line. -/
theorem isPart_of_text? {x : Row} {t : TextLine} (h : x.text? = some t) :
    ∃ l, Bytes.IsPart l x.line.text ∧ t.text = Quoted.content l := by
  obtain ⟨k, hk, hkt⟩ := Option.bind_eq_some_iff.mp h
  refine TextLine.isPart_of_parse? ?_ (parse?_of_text? h)
  cases k with
  | text t' =>
    rw [kind?] at hk
    split at hk
    · exact absurd hk (by simp)
    · exact LineKind.isQuote_of_ofText (Option.some.inj hk)
  | _ => exact absurd hkt (by simp [LineKind.text?])

/-- The declarations on a direct row are well-formed. -/
theorem isValid_of_mem_declarations {x : Row} (hx : IsDirect x.line.text) {p : StyleProperty}
    (h : p ∈ x.declarations) : Utf8.isValid p.name ∧ Utf8.isValid p.value := by
  rw [declarations] at h
  split at h
  · split at h
    · exact absurd h (by simp)
    · exact Style.isValid_of_mem_parseList hx h
  · rename_i d hd
    have hpart : Bytes.IsPart d x.line.text :=
      Style.Directive.isPart_of_parse? (accepts_of_kind? hd)
    exact Style.isValid_of_mem_parseList (hx.part hpart) h
  · exact absurd h (by simp)

end Row

namespace Layout

/-- The text of a row is a part of the source. -/
theorem isPart_of_mem_ofSource {src : Bytes} {x : Row} (h : x ∈ ofSource src) :
    Bytes.IsPart x.line.text src := by
  have hline : x.line ∈ Line.ofSource src := by
    rw [← map_line_ofLines (Line.ofSource src)]
    exact List.mem_map_of_mem h
  obtain ⟨i, raw, hraw, hl⟩ := Line.exists_raw_of_mem_ofSource hline
  exact (Line.isPart_of_ofRaw? hl).trans
    (Bytes.isPart_of_mem_splitOn (by decide) (List.mem_of_getElem? hraw))

section Direct

variable {src : Bytes} (hsrc : IsDirect src)

include hsrc

/-- **The elements of a direct source are well-formed.** -/
theorem wellFormed_of_mem_elements {e : Element}
    (h : e ∈ Node.elements (SourceTree.ofSource src).nodes) : e.WellFormed := by
  have hrow {x : Row} (hx : x ∈ ofSource src) : IsDirect x.line.text :=
    hsrc.part (isPart_of_mem_ofSource hx)
  rw [elements_nodes, List.mem_filterMap] at h
  obtain ⟨x, hx, he⟩ := h
  obtain ⟨t, ht, rfl⟩ := Option.map_eq_some_iff.mp he
  refine (Reading.wellFormed_elementOf (hrow hx) (Row.parse?_of_tag? ht)).addStyle fun p hp => ?_
  obtain ⟨⟨before, y⟩, hplaced, hp⟩ := List.mem_flatMap.mp hp
  have hy : y ∈ ofSource src := by
    rw [← map_snd_placed (ofSource src)]
    exact List.mem_map_of_mem hplaced
  dsimp only at hp
  split at hp
  · exact Row.isValid_of_mem_declarations (hrow hy) hp
  · exact absurd hp (by simp)

/-- **The text runs of a direct source are well-formed.** -/
theorem isValid_of_mem_items {t : TextRun}
    (h : .text t ∈ Node.items (SourceTree.ofSource src).nodes) : Utf8.isValid t.text := by
  rw [items_nodes, List.mem_filterMap] at h
  obtain ⟨x, hx, hi⟩ := h
  rw [item?, Option.or_eq_some_iff] at hi
  rcases hi with hi | ⟨-, hi⟩
  · obtain ⟨e, -, he⟩ := Option.map_eq_some_iff.mp hi
    exact absurd he (by simp)
  · obtain ⟨r, hr, heq⟩ := Option.map_eq_some_iff.mp hi
    obtain rfl := Item.text.inj heq
    obtain ⟨l, hl, rfl⟩ := Option.map_eq_some_iff.mp hr
    obtain ⟨w, hw, htext⟩ := Row.isPart_of_text? hl
    dsimp only
    rw [htext]
    exact (hsrc.part (hw.trans (isPart_of_mem_ofSource hx))).content.valid

end Direct

end Layout

/-- **The initializers of a well-formed source are well-formed**: they are copied as they are
written. -/
theorem SourceTree.isValid_of_mem_declarations {src : Bytes} (hsrc : Utf8.isValid src)
    {d : StateDeclaration} (h : d ∈ (ofSource src).states.declarations) :
    Utf8.isValid d.initializer := by
  obtain ⟨y, hy, hd⟩ := exists_row_of_mem_declarations h
  have hpart := (StateLine.isPart_of_parse? (Row.parse?_of_state? hd)).1
  exact (hpart.trans (Layout.isPart_of_mem_ofSource hy)).valid hsrc

end LiveMarkup
