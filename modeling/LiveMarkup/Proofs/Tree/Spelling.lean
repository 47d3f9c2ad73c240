import LiveMarkup.Proofs.Source.Words
import LiveMarkup.Proofs.Tree.SourceOrder

/-!
# How the elements of a source are spelt

Much of an element goes into a document as it is: its tag, the keys of its attributes, the events of
its handlers. That they can be written without escaping rests on their form alone, and the form is
decided where a line is read. `LiveMarkup.Element.Spelt` lists what is known about the parts of an
element, and `LiveMarkup.Layout.spelt_of_mem_elements` says that every element of a source is spelt
like this.

A handler is known by the statement it was compiled from, whatever its text was.
-/

namespace LiveMarkup

/-- Whether a text consists of the octets of names. -/
def isName (s : Bytes) : Bool := s.all isNameOctet

theorem isNameOctet_of_isTagOctet {b : UInt8} (h : isTagOctet b) : isNameOctet b := by
  rw [isTagOctet, Bool.or_eq_true, Bool.or_eq_true] at h
  rcases h with (h | h) | h <;> simp [isNameOctet, isIdentOctet, isAlphaOctet, h]

theorem isName_of_isTag {s : Bytes} (h : isTag s) : isName s := by
  rw [isName, List.all_eq_true]
  refine forall_mem_of_isWord (fun b hb => ?_) (fun b hb => isNameOctet_of_isTagOctet hb) h
  simp [isNameOctet, isIdentOctet, isAlphaOctet, hb]

theorem isName_of_isKey {s : Bytes} (h : isKey s) : isName s := by
  cases s with
  | nil => exact absurd h (by simp [isKey])
  | cons b r =>
    rw [isKey, Bool.and_eq_true, Bool.or_eq_true] at h
    rw [isName, List.all_cons, h.2, Bool.and_true, isNameOctet, isIdentOctet]
    rcases h.1 with hb | hb <;> simp [hb]

/-- **An element is spelt** as tag lines spell it. -/
structure Element.Spelt (e : Element) : Prop where
  standard : e.standard
  tag : isTag e.tag
  keys : ∀ a ∈ e.attributes, isKey a.key
  binding : ∀ x, e.binding = some x → isBinding x
  events : ∀ h ∈ e.handlers, isName h.event
  statements : ∀ h ∈ e.handlers, ∃ body, h.statement = Statement.ofBody body

/-! ### Events -/

theorem isLowerOctet_add_of_isUpperOctet {b : UInt8} (h : isUpperOctet b) :
    isLowerOctet (b + 32) := by
  have hA : (octet 'A').toNat = 65 := rfl
  have hZ : (octet 'Z').toNat = 90 := rfl
  have ha : (octet 'a').toNat = 97 := rfl
  have hz : (octet 'z').toNat = 122 := rfl
  have h32 : (32 : UInt8).toNat = 32 := rfl
  rw [isUpperOctet, Bool.and_eq_true, decide_eq_true_eq, decide_eq_true_eq, UInt8.le_iff_toNat_le,
    UInt8.le_iff_toNat_le] at h
  rw [isLowerOctet, Bool.and_eq_true, decide_eq_true_eq, decide_eq_true_eq, UInt8.le_iff_toNat_le,
    UInt8.le_iff_toNat_le, UInt8.toNat_add]
  omega

/-- The small letter of a name octet is a name octet. -/
theorem isNameOctet_lowerOctet {b : UInt8} (h : isNameOctet b) : isNameOctet (lowerOctet b) := by
  rw [lowerOctet]
  split
  · rename_i hupper
    simp [isNameOctet, isIdentOctet, isAlphaOctet, isLowerOctet_add_of_isUpperOctet hupper]
  · exact h

/-- **The event of a handler is a name.** -/
theorem EventValue.isName_of_parse? {s : Bytes} {v : EventValue} (h : parse? s = some v) :
    isName v.event := by
  rw [parse?] at h
  split at h
  · exact absurd h (by simp)
  rename_i b r _
  split at h
  · rename_i hb
    split at h
    · exact absurd h (by simp)
    split at h
    · obtain rfl := Option.some.inj h
      rw [isName, List.all_map, List.all_eq_true]
      intro c hc
      refine isNameOctet_lowerOctet ?_
      rcases List.mem_cons.mp hc with rfl | hc
      · simp [isNameOctet, isIdentOctet, hb]
      · exact List.all_eq_true.mp List.all_takeWhile c hc
    · exact absurd h (by simp)
  · exact absurd h (by simp)

/-! ### Elements -/

namespace Attributed

/-- **A list sets only keys**, and adds only handlers whose events are names. -/
theorem addList_spelt (position : Position) {e : Element} (list : Bytes)
    (hkeys : ∀ a ∈ e.attributes, isKey a.key) (hnone : e.handlers = []) :
    (∀ a ∈ (addList position e list).element.attributes, isKey a.key) ∧
    ∀ h ∈ (addList position e list).element.handlers,
      isName h.event ∧ ∃ body, h.statement = Statement.ofBody body := by
  refine addList_induction position list
    (P := fun b => (∀ a ∈ b.element.attributes, isKey a.key) ∧
      ∀ h ∈ b.element.handlers, isName h.event ∧ ∃ body, h.statement = Statement.ofBody body)
    ⟨hkeys, by simp [hnone]⟩ (fun _ _ _ hb => hb) ?_ (fun _ _ hb => hb) ?_ ?_
  · intro b _ c _ hb
    dsimp only
    rw [Element.addClass]
    split
    · exact hb
    · exact hb
  · rintro b _ v hv ⟨hb, hhandlers⟩
    refine ⟨hb, fun h hh => ?_⟩
    rw [Element.addHandler, List.mem_append, List.mem_singleton] at hh
    rcases hh with hh | rfl
    · exact hhandlers h hh
    · exact ⟨EventValue.isName_of_parse? hv, v.body, rfl⟩
  · rintro b key value hkey _ _ ⟨hb, hhandlers⟩
    exact ⟨Attribute.forall_mem_set (P := fun a => isKey a.key) hkey hb, hhandlers⟩

end Attributed

namespace Reading

theorem isKey_headOf (l : Line) (t : TagLine) :
    (∀ a ∈ (headOf l t).attributes, isKey a.key) ∧ (headOf l t).handlers = [] := by
  obtain ⟨classes, h⟩ := foldl_addClass t.classes { tag := t.tag, position := l.position }
  rw [headOf, h]
  cases t.identifier? with
  | none => exact ⟨by simp, rfl⟩
  | some x =>
    refine ⟨fun a ha => ?_, rfl⟩
    obtain rfl : a = ⟨utf8 "id", x⟩ := by simpa [Element.setAttribute, Attribute.set] using ha
    exact show isKey (utf8 "id") by decide

/-- **The element of a tag line is spelt.** -/
theorem spelt_elementOf {l : Line} {t : TagLine} (h : TagLine.parse? l.text = some t) :
    (elementOf l t).element.Spelt := by
  obtain ⟨_, _, _, _, hframe, -⟩ := elementOf_frame l t
  obtain ⟨hkeys, hnone⟩ := isKey_headOf l t
  have hparts : (∀ a ∈ (elementOf l t).element.attributes, isKey a.key) ∧
      ∀ h ∈ (elementOf l t).element.handlers,
        isName h.event ∧ ∃ body, h.statement = Statement.ofBody body := by
    rw [elementOf_eq]
    cases t.attributes with
    | none => exact ⟨hkeys, by simp [hnone]⟩
    | some list => exact Attributed.addList_spelt _ list.text hkeys hnone
  exact {
    standard := by rw [hframe]
    tag := by rw [elementOf_tag]; exact TagLine.isTag_of_parse? h
    keys := hparts.1
    binding := fun x hx => TagLine.isBinding_of_parse? h hx
    events := fun a ha => (hparts.2 a ha).1
    statements := fun a ha => (hparts.2 a ha).2 }

end Reading

theorem Element.Spelt.addStyle {e : Element} (h : e.Spelt) (ps : List StyleProperty) :
    (e.addStyle ps).Spelt :=
  { standard := h.standard, tag := h.tag, keys := h.keys, binding := h.binding,
    events := h.events, statements := h.statements }

namespace Row

theorem accepts_of_kind? {x : Row} {k : LineKind} (h : x.kind? = some k) :
    k.Accepts x.line.text := by
  rw [kind?] at h
  split at h
  · exact absurd h (by simp)
  · obtain rfl := Option.some.inj h
    exact LineKind.accepts_ofText x.line.text

/-- The tag line of a row is what the scan for tag lines finds on it. -/
theorem parse?_of_tag? {x : Row} {t : TagLine} (h : x.tag? = some t) :
    TagLine.parse? x.line.text = some t := by
  obtain ⟨k, hk, hkt⟩ := Option.bind_eq_some_iff.mp h
  have haccepts := accepts_of_kind? hk
  cases k with
  | tag t' =>
    obtain rfl := Option.some.inj hkt
    exact haccepts
  | _ => exact absurd hkt (by simp [LineKind.tag?])

theorem parse?_of_text? {x : Row} {t : TextLine} (h : x.text? = some t) :
    TextLine.parse? x.line.text = some t := by
  obtain ⟨k, hk, hkt⟩ := Option.bind_eq_some_iff.mp h
  have haccepts := accepts_of_kind? hk
  cases k with
  | text t' =>
    obtain rfl := Option.some.inj hkt
    exact haccepts
  | _ => exact absurd hkt (by simp [LineKind.text?])

end Row

namespace Layout

theorem spelt_of_element? {rows : List Row} {x : Row} {e : Element} (h : element? rows x = some e) :
    e.Spelt := by
  obtain ⟨t, ht, rfl⟩ := Option.map_eq_some_iff.mp h
  exact (Reading.spelt_elementOf (Row.parse?_of_tag? ht)).addStyle _

/-- A node of a source is the element of a tag line or the run of a text line. -/
theorem mem_items_cases {src : Bytes} {i : Item}
    (h : i ∈ Node.items (SourceTree.ofSource src).nodes) :
    (∃ e : Element, i = .element e ∧ e.Spelt) ∨
      ∃ (x : Row) (t : TextLine), TextLine.parse? x.line.text = some t ∧
        i = .text ⟨t.text, t.binding, x.line.position⟩ := by
  rw [items_nodes, List.mem_filterMap] at h
  obtain ⟨x, -, hi⟩ := h
  rw [item?, Option.or_eq_some_iff] at hi
  rcases hi with hi | ⟨-, hi⟩
  · obtain ⟨e, he, rfl⟩ := Option.map_eq_some_iff.mp hi
    exact Or.inl ⟨e, rfl, spelt_of_element? he⟩
  · obtain ⟨r, hr, rfl⟩ := Option.map_eq_some_iff.mp hi
    obtain ⟨t, ht, rfl⟩ := Option.map_eq_some_iff.mp hr
    exact Or.inr ⟨x, t, Row.parse?_of_text? ht, rfl⟩

/-- **Every element of a source is spelt.** -/
theorem spelt_of_mem_elements {src : Bytes} {e : Element}
    (h : e ∈ Node.elements (SourceTree.ofSource src).nodes) : e.Spelt := by
  rcases mem_items_cases (Node.mem_elements_iff.mp h) with ⟨e', he, hspelt⟩ | ⟨x, t, -, he⟩
  · obtain rfl := Item.element.inj he
    exact hspelt
  · exact absurd he (by simp)

/-- **Every binding of a source has the form of one.** -/
theorem isBinding_of_mem_items {src : Bytes} {i : Item}
    (h : i ∈ Node.items (SourceTree.ofSource src).nodes) {x : Bytes} (hx : i.binding? = some x) :
    isBinding x := by
  rcases mem_items_cases h with ⟨e, rfl, hspelt⟩ | ⟨y, t, ht, rfl⟩
  · exact hspelt.binding x hx
  · exact TextLine.isBinding_of_parse? ht hx

end Layout

end LiveMarkup
