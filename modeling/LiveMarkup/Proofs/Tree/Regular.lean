import LiveMarkup.Proofs.Document.Numbering
import LiveMarkup.Proofs.Source.Parts
import LiveMarkup.Proofs.Tree.Spelling

/-!
# The form of the elements of a source

What an element collects is kept in order: no class twice, one value for each attribute and for each
property of its style. `LiveMarkup.Element.Regular` is the invariant. Every elementary change of an
element keeps it, so the element of a tag line has it (`LiveMarkup.Reading.regular_elementOf`), and
the declarations of a style block, which come later, keep it too
(`LiveMarkup.Layout.regular_of_mem_elements`).

A handler refers to its element by the position at which the element stands. No two elements stand
at one position, so that the reference leads to one element only
(`LiveMarkup.Layout.filter_position_elements`).

The main statement is `LiveMarkup.Layout.elements_are_regular`, which adds what is known of the
spelling of the parts.
-/

namespace LiveMarkup

/-! ### Lists with one entry for each key -/

namespace Attribute

/-- Setting an attribute adds its key at the end, unless it is there. -/
theorem map_key_set (key value : Bytes) (as : List Attribute) :
    (set key value as).map Attribute.key =
      if key ∈ as.map Attribute.key then as.map Attribute.key
      else as.map Attribute.key ++ [key] := by
  induction as with
  | nil => rfl
  | cons a as ih =>
    rw [set]
    by_cases ha : a.key = key
    · simp [ha]
    · rw [if_neg ha, List.map_cons, ih, List.map_cons]
      simp only [List.mem_cons, Ne.symm ha, false_or]
      split <;> rfl

theorem nodup_set {as : List Attribute} (h : (as.map Attribute.key).Nodup) (key value : Bytes) :
    ((set key value as).map Attribute.key).Nodup := by
  rw [map_key_set]
  split
  · exact h
  · rename_i hnew
    exact List.nodup_append_comm.mp (List.nodup_cons.mpr ⟨hnew, h⟩)

end Attribute

namespace Style

/-- Setting a property adds its name at the end, unless it is there. -/
theorem map_name_set (p : StyleProperty) (qs : List StyleProperty) :
    (set p qs).map StyleProperty.name =
      if p.name ∈ qs.map StyleProperty.name then qs.map StyleProperty.name
      else qs.map StyleProperty.name ++ [p.name] := by
  induction qs with
  | nil => rfl
  | cons q qs ih =>
    rw [set]
    by_cases hq : q.name = p.name
    · simp [hq]
    · rw [if_neg hq, List.map_cons, ih, List.map_cons]
      simp only [List.mem_cons, Ne.symm hq, false_or]
      split <;> rfl

theorem nodup_setAll (ps : List StyleProperty) {qs : List StyleProperty}
    (h : (qs.map StyleProperty.name).Nodup) : ((setAll ps qs).map StyleProperty.name).Nodup := by
  refine List.foldlRecOn (motive := fun rs => (List.map StyleProperty.name rs).Nodup) _ _ h
    fun rs hrs p _ => ?_
  rw [map_name_set]
  split
  · exact hrs
  · rename_i hnew
    exact List.nodup_append_comm.mp (List.nodup_cons.mpr ⟨hnew, hrs⟩)

/-- What holds of the properties of two lists holds of those of the first set in the second. -/
theorem forall_mem_setAll {P : StyleProperty → Prop} {ps qs : List StyleProperty}
    (hps : ∀ p ∈ ps, P p) (hqs : ∀ q ∈ qs, P q) : ∀ q ∈ setAll ps qs, P q := by
  have hset (p : StyleProperty) (hp : P p) (rs : List StyleProperty)
      (hrs : ∀ r ∈ rs, P r) : ∀ r ∈ set p rs, P r := by
    induction rs with
    | nil => exact List.forall_mem_singleton.mpr hp
    | cons r rs ih =>
      rw [List.forall_mem_cons] at hrs
      rw [set]
      split
      · rename_i hr
        rw [hr]
        exact List.forall_mem_cons.mpr ⟨hp, hrs.2⟩
      · exact List.forall_mem_cons.mpr ⟨hrs.1, ih hrs.2⟩
  exact List.foldlRecOn _ _ hqs fun rs hrs p hp => hset p (hps p hp) rs hrs

theorem isStorable_of_mem_parseList {s : Bytes} {p : StyleProperty} (h : p ∈ (parseList s).1) :
    isStorable p.value := by
  obtain ⟨-, name, w, -, hstorable, rfl⟩ := eq_of_mem_parseList h
  exact hstorable

/-- A value can stand in a declaration if it is not empty and has neither a semicolon nor a brace.
-/
theorem isStorable_iff {v : Bytes} :
    isStorable v ↔ v ≠ [] ∧ ∀ b ∈ v, b ∉ [octet ';', 0x7b, 0x7d] := by
  simp [isStorable, and_assoc]

end Style

/-! ### Events -/

theorem isUpperOctet_lowerOctet (b : UInt8) : isUpperOctet (lowerOctet b) = false := by
  rw [lowerOctet]
  split
  · rename_i hb
    have hA : (octet 'A').toNat = 65 := rfl
    have hZ : (octet 'Z').toNat = 90 := rfl
    have h32 : (32 : UInt8).toNat = 32 := rfl
    simp only [isUpperOctet, Bool.and_eq_true, decide_eq_true_eq, UInt8.le_iff_toNat_le] at hb
    simp only [isUpperOctet, Bool.and_eq_false_iff, decide_eq_false_iff_not,
      UInt8.le_iff_toNat_le, UInt8.toNat_add]
    omega
  · rename_i hb
    simpa using hb

/-- **The event of a handler has no capital letters.** -/
theorem EventValue.all_isUpperOctet_of_parse? {s : Bytes} {v : EventValue} (h : parse? s = some v) :
    v.event ≠ [] ∧ v.event.all fun b => !isUpperOctet b := by
  rw [parse?] at h
  split at h
  · exact absurd h (by simp)
  split at h
  · split at h
    · exact absurd h (by simp)
    split at h
    · obtain rfl := Option.some.inj h
      refine ⟨by simp, ?_⟩
      rw [List.all_map, List.all_eq_true]
      intro b _
      simp [isUpperOctet_lowerOctet]
    · exact absurd h (by simp)
  · exact absurd h (by simp)

/-! ### Elements -/

/-- **An element is regular**: it has no class twice, one attribute for each key and one value for
each property, all of them of the right form, and its handlers refer to it. -/
structure Element.Regular (e : Element) : Prop where
  classes_nodup : e.classes.Nodup
  classes : ∀ c ∈ e.classes, Bytes.isPlainWord c
  keys_nodup : (e.attributes.map Attribute.key).Nodup
  keys : ∀ a ∈ e.attributes, a.key ∉ [utf8 "on", utf8 "class", utf8 "style"]
  style_nodup : (e.style.map StyleProperty.name).Nodup
  style : ∀ p ∈ e.style, Style.isStorable p.value
  events : ∀ h ∈ e.handlers, h.event ≠ [] ∧ h.event.all fun b => !isUpperOctet b
  references : ∀ h ∈ e.handlers, h.element = e.position

namespace Element.Regular

variable {e : Element} (h : e.Regular)

include h

theorem addClass {c : Bytes} (hc : Bytes.isPlainWord c) : (e.addClass c).Regular := by
  rw [Element.addClass]
  split
  · exact h
  · rename_i hnew
    refine { h with classes_nodup := ?_, classes := ?_ }
    · exact List.nodup_append_comm.mp (List.nodup_cons.mpr ⟨hnew, h.classes_nodup⟩)
    · intro d hd
      rcases List.mem_append.mp hd with hd | hd
      · exact h.classes d hd
      · rwa [List.mem_singleton.mp hd]

theorem addStyle {ps : List StyleProperty} (hps : ∀ p ∈ ps, Style.isStorable p.value) :
    (e.addStyle ps).Regular :=
  { h with
    style_nodup := Style.nodup_setAll ps h.style_nodup
    style := Style.forall_mem_setAll (P := fun p => Style.isStorable p.value) hps h.style }

theorem setAttribute {key : Bytes} (hkey : key ∉ [utf8 "on", utf8 "class", utf8 "style"])
    (value : Bytes) : (e.setAttribute key value).Regular :=
  { h with
    keys_nodup := Attribute.nodup_set h.keys_nodup key value
    keys := Attribute.forall_mem_set
      (P := fun a => a.key ∉ [utf8 "on", utf8 "class", utf8 "style"]) hkey h.keys }

theorem addHandler {a : Handler} (hevent : a.event ≠ [] ∧ a.event.all fun b => !isUpperOctet b)
    (hreference : a.element = e.position) : (e.addHandler a).Regular := by
  refine { h with events := ?_, references := ?_ }
  · intro b hb
    rcases List.mem_append.mp hb with hb | hb
    · exact h.events b hb
    · rwa [List.mem_singleton.mp hb]
  · intro b hb
    rcases List.mem_append.mp hb with hb | hb
    · exact h.references b hb
    · rwa [List.mem_singleton.mp hb]

theorem foldl_addClass {cs : List Bytes} (hcs : ∀ c ∈ cs, Bytes.isPlainWord c) :
    (cs.foldl Element.addClass e).Regular :=
  List.foldlRecOn _ _ h fun _ hb c hc => hb.addClass (hcs c hc)

/-- **An attribute list keeps an element regular.** -/
theorem addList (position : Position) (list : Bytes) :
    (Attributed.addList position e list).element.Regular := by
  refine Attributed.addList_induction position list (P := fun a => a.element.Regular)
    h (fun _ _ _ ha => ha) ?_ ?_ ?_ ?_
  · intro a value c hc ha
    exact ha.addClass (Bytes.isPlainWord_of_mem_words hc)
  · intro a value ha
    exact ha.addStyle fun _ => Style.isStorable_of_mem_parseList
  · intro a value v hv ha
    exact ha.addHandler (EventValue.all_isUpperOctet_of_parse? hv) rfl
  · intro a key value _ _ hkey ha
    exact ha.setAttribute hkey value

end Element.Regular

theorem Bytes.isPlainWord_of_isName {s : Bytes} (hne : s ≠ []) (h : isName s) :
    isPlainWord s := by
  have hsolid {b : UInt8} (hb : b ∈ s) : isSolid b :=
    Print.isSolid_of_isNameOctet (List.all_eq_true.mp h b hb)
  have hascii : ∀ b ∈ s, b.toNat < 0x80 := fun b hb => by
    have hb := hsolid hb
    rw [isSolid, Bool.and_eq_true, decide_eq_true_eq] at hb
    exact hb.1
  rw [isPlainWord, Utf8.chars_of_ascii hascii, List.all_map, Bool.and_eq_true, List.all_eq_true]
  refine ⟨by simpa using hne, fun b hb => ?_⟩
  simp [isBlank?, isBlank_of_isSolid (hsolid hb)]

namespace Reading

/-- **The element of a tag line is regular.** -/
theorem regular_elementOf {l : Line} {t : TagLine} (h : TagLine.parse? l.text = some t) :
    (elementOf l t).element.Regular := by
  have hbare : ({ tag := t.tag, position := l.position } : Element).Regular := by
    constructor <;> simp
  have hclasses : (t.classes.foldl Element.addClass
      { tag := t.tag, position := l.position }).Regular := by
    refine hbare.foldl_addClass fun c hc => ?_
    obtain ⟨hne, hname⟩ := TagLine.isName_of_mem_classes h c hc
    exact Bytes.isPlainWord_of_isName hne hname
  have hhead : (headOf l t).Regular := by
    rw [headOf]
    cases t.identifier? with
    | none => exact hclasses
    | some x => exact hclasses.setAttribute (by decide) x
  have hlisted : ∀ list : AttributeList, (Attributed.addList (l.position.advance t.headLength)
      (headOf l t) list.text).element.Regular := fun list => hhead.addList _ list.text
  rw [elementOf_eq]
  cases t.attributes with
  | none => exact { hhead with }
  | some list => exact { hlisted list with }

end Reading

theorem Row.isStorable_of_mem_declarations {x : Row} {p : StyleProperty}
    (h : p ∈ x.declarations) : Style.isStorable p.value := by
  rw [declarations] at h
  split at h
  · split at h
    · exact absurd h (by simp)
    · exact Style.isStorable_of_mem_parseList h
  · exact Style.isStorable_of_mem_parseList h
  · exact absurd h (by simp)

namespace Layout

/-- **Every element of a source is regular.** -/
theorem regular_of_mem_elements {src : Bytes} {e : Element}
    (h : e ∈ Node.elements (SourceTree.ofSource src).nodes) : e.Regular := by
  rw [elements_nodes, List.mem_filterMap] at h
  obtain ⟨x, -, hx⟩ := h
  obtain ⟨t, ht, rfl⟩ := Option.map_eq_some_iff.mp hx
  refine (Reading.regular_elementOf (Row.parse?_of_tag? ht)).addStyle fun p hp => ?_
  obtain ⟨⟨before, y⟩, -, hy⟩ := List.mem_flatMap.mp hp
  dsimp only at hy
  split at hy
  · exact Row.isStorable_of_mem_declarations hy
  · exact absurd hy (by simp)

/-! ### The element of a handler -/

/-- No two elements of a source stand at one position. -/
theorem nodup_position_elements (src : Bytes) :
    ((Node.elements (SourceTree.ofSource src).nodes).map Element.position).Nodup := by
  rw [elements_nodes, List.map_filterMap]
  refine List.Pairwise.filterMap _ ?_ (List.pairwise_map.mp (nodup_positions_ofSource src))
  intro x y hxy p hp q hq
  obtain ⟨e, he, rfl⟩ := Option.map_eq_some_iff.mp hp
  obtain ⟨f, hf, rfl⟩ := Option.map_eq_some_iff.mp hq
  rwa [position_of_element? he, position_of_element? hf]

/-- **A position leads to one element.** -/
theorem filter_position_elements {src : Bytes} {e : Element}
    (h : e ∈ Node.elements (SourceTree.ofSource src).nodes) :
    (Node.elements (SourceTree.ofSource src).nodes).filter
      (fun e' => e'.position = e.position) = [e] := by
  have hcount : ((Node.elements (SourceTree.ofSource src).nodes).map Element.position).count
      e.position = 1 :=
    List.count_eq_one_of_mem (nodup_position_elements src) (List.mem_map_of_mem h)
  rw [List.count, List.countP_map, List.countP_eq_length_filter] at hcount
  obtain ⟨f, hf⟩ := List.length_eq_one_iff.mp hcount
  have hmem : e ∈ (Node.elements (SourceTree.ofSource src).nodes).filter
      ((fun p => p == e.position) ∘ Element.position) := by simp [h]
  rw [hf, List.mem_singleton] at hmem
  subst hmem
  rw [← hf]
  exact List.filter_congr fun _ _ => (beq_eq_decide _ _).symm

end Layout

/-! ### The classes in a document -/

namespace Document

/-- **The classes are written once**, in front of all other attributes. -/
theorem filter_class_attributes {e : Element} (hkeys : ∀ a ∈ e.attributes, a.key ≠ utf8 "class")
    (id : Nat) : (attributes id e).filter (fun a => a.key = utf8 "class") =
      if e.classes.isEmpty then [] else
        [⟨utf8 "class", List.intercalate (utf8 " ") e.classes⟩] := by
  rw [attributes]
  generalize hclasses : (if e.classes.isEmpty then [] else
    [⟨utf8 "class", List.intercalate (utf8 " ") e.classes⟩] : List Attribute) = classes
  generalize hseen : (fun a : Attribute => decide (a.key = utf8 "class")) = seen
  -- Every later step sets an attribute under another key, so the filter does not see it.
  have hset {as : List Attribute} {key : Bytes} (hkey : key ≠ utf8 "class") (value : Bytes)
      (has : as.filter seen = classes) : (Attribute.set key value as).filter seen = classes := by
    rw [← hseen, Attribute.filter_set (p := fun k => k = utf8 "class"),
      if_neg (by simpa using hkey), hseen, has]
  have hown : (e.attributes.foldl (fun as a => Attribute.set a.key a.value as) classes).filter
      seen = classes := by
    refine List.foldlRecOn (motive := fun as => List.filter seen as = classes) _ _ ?_
      fun as has a ha => hset (hkeys a ha) a.value has
    rw [← hclasses, ← hseen]
    split <;> rfl
  refine List.foldlRecOn (motive := fun as => List.filter seen as = classes) _ _ ?_
    fun as has a _ => ?_
  · split
    · exact hown
    · exact hset (by decide) _ hown
  · rw [addHandler]
    split
    · exact hset (by decide) _ has
    · have hon : decide (utf8 "on" ++ a.event = utf8 "class") = false := rfl
      rw [← hseen, filter_appendScript (p := fun k => k = utf8 "class") hon, hseen, has]

/-- **Splitting the class attribute gives back the classes**; without classes there is none. -/
theorem map_words_class_attributes {e : Element} (h : e.Regular) (id : Nat) :
    (Attribute.get? (utf8 "class") (attributes id e)).map Bytes.words =
      if e.classes = [] then none else some e.classes := by
  have hkeys : ∀ a ∈ e.attributes, a.key ≠ utf8 "class" := fun a ha hkey =>
    h.keys a ha (by simp [hkey])
  have hfind : (attributes id e).find? (fun a => a.key = utf8 "class") =
      ((attributes id e).filter fun a => a.key = utf8 "class").head? := by
    rw [List.head?_filter]
  rw [Attribute.get?, hfind, filter_class_attributes hkeys]
  cases hc : e.classes with
  | nil => rfl
  | cons c cs =>
    have hwords : Bytes.words (List.intercalate (utf8 " ") (c :: cs)) = c :: cs :=
      Bytes.words_intercalate (hc ▸ h.classes)
    simp [hwords]

end Document

namespace Layout

/-- **The elements of a source are regular.** Their classes are not empty, have no white space and
are all different, so that they are found again by splitting the class attribute of the document;
the keys of their attributes are names, all different, and none of those that mean something else or
that the generator uses; the properties of their styles are all different, and their values are not
empty and end no declaration; their handlers refer to them, and to no other element, and are for
events in small letters; and their bindings are names. -/
theorem elements_are_regular {src : Bytes} {e : Element}
    (h : e ∈ Node.elements (SourceTree.ofSource src).nodes) :
    e.classes.Nodup ∧
    (∀ c ∈ e.classes, c ≠ [] ∧ ∀ x ∈ Utf8.chars c, Bytes.isBlank? x = false) ∧
    (∀ id, (Attribute.get? (utf8 "class") (Document.attributes id e)).map Bytes.words =
      if e.classes = [] then none else some e.classes) ∧
    (e.attributes.map Attribute.key).Nodup ∧
    (∀ a ∈ e.attributes, isKey a.key ∧ a.key ∉ [utf8 "on", utf8 "class", utf8 "style"] ∧
      sameFolded a.key (utf8 "data-on") = false ∧ sameFolded a.key (utf8 "data-bind") = false) ∧
    (e.style.map StyleProperty.name).Nodup ∧
    (∀ p ∈ e.style, p.value ≠ [] ∧ ∀ b ∈ p.value, b ∉ [octet ';', 0x7b, 0x7d]) ∧
    (∀ a ∈ e.handlers, a.element = e.position ∧
      (Node.elements (SourceTree.ofSource src).nodes).filter
        (fun e' => e'.position = a.element) = [e] ∧
      a.event ≠ [] ∧ isName a.event ∧ ∀ b ∈ a.event, isUpperOctet b = false) ∧
    ∀ x, e.binding = some x → isBinding x := by
  have hregular := regular_of_mem_elements h
  have hspelt := spelt_of_mem_elements h
  refine ⟨hregular.classes_nodup, fun c hc => ?_,
    fun id => Document.map_words_class_attributes hregular id, hregular.keys_nodup,
    fun a ha => ?_, hregular.style_nodup,
    fun p hp => Style.isStorable_iff.mp (hregular.style p hp), fun a ha => ?_, hspelt.binding⟩
  · simpa [Bytes.isPlainWord] using hregular.classes c hc
  · have hunreserved := Bool.or_eq_false_iff.mp (unreserved_of_mem_elements h a ha)
    exact ⟨hspelt.keys a ha, hregular.keys a ha, hunreserved.2, hunreserved.1⟩
  · obtain ⟨hne, hupper⟩ := hregular.events a ha
    have hreference := hregular.references a ha
    refine ⟨hreference, ?_, hne, hspelt.events a ha, by simpa using hupper⟩
    rw [hreference]
    exact filter_position_elements h

/-- A class that is given twice and a handler for an event in capitals. -/
theorem elements_are_regular_repeated : ∃ e, (Node.elements (SourceTree.ofSource (utf8
      "p\na.x(class: \"x z\", on: GO \x7b\x7d)")).nodes).getLast? = some e ∧
    e.classes = [utf8 "x", utf8 "z"] ∧
    (Attribute.get? (utf8 "class") (Document.attributes 0 e)).map Bytes.words =
      some [utf8 "x", utf8 "z"] ∧
    e.handlers.map Handler.event = [utf8 "go"] ∧
    ∀ a ∈ e.handlers, (Node.elements (SourceTree.ofSource (utf8
      "p\na.x(class: \"x z\", on: GO \x7b\x7d)")).nodes).filter
        (fun e' => e'.position = a.element) = [e] := by
  have hlast : (Node.elements (SourceTree.ofSource (utf8
      "p\na.x(class: \"x z\", on: GO \x7b\x7d)")).nodes).getLast? =
      some { tag := utf8 "a", classes := [utf8 "x", utf8 "z"], position := ⟨2, 1⟩,
             handlers := [⟨⟨2, 1⟩, utf8 "go", Statement.ofBody [], ⟨2, 4⟩⟩] } := by decide +kernel
  have hregular := elements_are_regular (List.mem_of_getLast? hlast)
  exact ⟨_, hlast, rfl, hregular.2.2.1 0, rfl, fun a ha => (hregular.2.2.2.2.2.2.2.1 a ha).2.1⟩

end Layout

end LiveMarkup
