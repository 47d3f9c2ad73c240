import LiveMarkup.Tree.Reading

/-!
# What an attribute list can do to an element

However an attribute list is written, all it does to its element is a sequence of elementary
changes: a class, a declaration list, a handler or an attribute is added, and problems are recorded.
`LiveMarkup.Attributed.addList_induction_of` says so once, as an induction principle: whatever the
elementary changes preserve holds of the element of a list. Each change comes from a value of the
list (`LiveMarkup.Attributed.IsValueOf`); where that does not matter,
`LiveMarkup.Attributed.addList_induction` leaves it out.

Three facts are drawn from it. The tag, the position, the text and the binding are not touched
(`LiveMarkup.Attributed.addList_frame`); no attribute gets a key that the generator uses itself
(`LiveMarkup.Attributed.addList_unreserved`); and the problems are all about entries of a list
(`LiveMarkup.Attributed.addList_problems`). The element of a tag line inherits them.
-/

namespace LiveMarkup

/-- Whether a problem is about an entry of an attribute list. -/
def Problem.isEntry : Problem → Bool
  | .malformedEntry _ _ | .unsupportedStatement _ _ | .malformedStyle _
  | .reservedAttribute _ => true
  | _ => false

namespace Attribute

/-- What holds of an attribute and of those of a list holds of the list with that attribute set. -/
theorem forall_mem_set {P : Attribute → Prop} {key value : Bytes} (hnew : P ⟨key, value⟩)
    {as : List Attribute} (h : ∀ a ∈ as, P a) : ∀ a ∈ set key value as, P a := by
  induction as with
  | nil => exact List.forall_mem_singleton.mpr hnew
  | cons b as ih =>
    rw [List.forall_mem_cons] at h
    rw [set]
    split
    · rename_i hb
      subst hb
      exact List.forall_mem_cons.mpr ⟨hnew, h.2⟩
    · exact List.forall_mem_cons.mpr ⟨h.1, ih h.2⟩

end Attribute

namespace Attributed

/-! ### Elementary changes -/

/-- A value of a list, as it is written behind the colon of an entry. -/
def IsValueOf (value list : Bytes) : Prop :=
  ∃ written ∈ Nesting.split (octet ',') list, ∃ before after,
    Nesting.cut? (octet ':') written.trim = some (before, after) ∧ value = after.trim

/-- A problem with an entry of a list. A statement that it repeats is one of the list. -/
structure IsProblemOf (p : Problem) (list : Bytes) : Prop where
  isEntry : p.isEntry
  statement : ∀ event body, p = .unsupportedStatement event body →
    ∃ value v, IsValueOf value list ∧ EventValue.parse? value = some v ∧ event = v.event ∧
      body = (Statement.ofBody v.body).text

theorem isProblemOf_of_ne {p : Problem} {list : Bytes} (h : p.isEntry)
    (hne : ∀ event body, p ≠ .unsupportedStatement event body) : IsProblemOf p list :=
  ⟨h, fun event body heq => absurd heq (hne event body)⟩

/-- An entry is left out, recorded as a problem, or applied under a key that is a name and is not
reserved, with the value behind the colon. -/
theorem addEntry_cases (position : Position) (a : Attributed) {list written : Bytes}
    (hwritten : written ∈ Nesting.split (octet ',') list) :
    a.addEntry position written = a ∨
    (∃ p : Problem, IsProblemOf p list ∧ a.addEntry position written = a.report p) ∨
    ∃ key value, isKey key ∧ isReserved key = false ∧ IsValueOf value list ∧
      a.addEntry position written = a.apply position key value := by
  rw [addEntry]
  split
  · exact Or.inl rfl
  split
  · exact Or.inr (Or.inl ⟨_, isProblemOf_of_ne rfl (by simp), rfl⟩)
  split
  · exact Or.inr (Or.inl ⟨_, isProblemOf_of_ne rfl (by simp), rfl⟩)
  rename_i before after hcut
  dsimp only
  split
  · exact Or.inr (Or.inl ⟨_, isProblemOf_of_ne rfl (by simp), rfl⟩)
  split
  · exact Or.inr (Or.inl ⟨_, isProblemOf_of_ne rfl (by simp), rfl⟩)
  rename_i hkey
  split
  · exact Or.inr (Or.inl ⟨_, isProblemOf_of_ne rfl (by simp), rfl⟩)
  rename_i hreserved
  exact Or.inr (Or.inr ⟨_, _, by simpa using hkey, by simpa using hreserved,
    ⟨written, hwritten, before, after, hcut, rfl⟩, rfl⟩)

/-- Problems recorded one by one. -/
theorem foldl_report (a : Attributed) (ps : List Problem) :
    ps.foldl report a = { a with problems := a.problems ++ ps } := by
  induction ps generalizing a with
  | nil => simp
  | cons p ps ih => simp [ih, report]

/-- **Induction on an attribute list**: what holds of the element alone and is preserved by every
elementary change that the list can make holds after the list. -/
theorem addList_induction_of {P : Attributed → Prop} (position : Position) (list : Bytes)
    {e : Element} (start : P { element := e })
    (problem : ∀ a p, IsProblemOf p list → P a → P (a.report p))
    (className : ∀ a value c, IsValueOf value list → c ∈ (Quoted.value value).words → P a →
      P { a with element := a.element.addClass c })
    (style : ∀ a value, IsValueOf value list → P a →
      P { a with element := a.element.addStyle (Style.parseList (Quoted.value value)).1 })
    (handler : ∀ a value v, IsValueOf value list → EventValue.parse? value = some v → P a →
      P { a with
        element := a.element.addHandler
          ⟨a.element.position, v.event, Statement.ofBody v.body, position⟩ })
    (keyed : ∀ a key value, IsValueOf value list → isKey key → isReserved key = false →
      key ∉ [utf8 "on", utf8 "class", utf8 "style"] → P a →
      P { a with element := a.element.setAttribute key (Quoted.value value) }) :
    P (addList position e list) := by
  refine List.foldlRecOn _ _ start fun a ha written hwritten => ?_
  rcases addEntry_cases position a hwritten with
    h | ⟨p, hp, h⟩ | ⟨key, value, hkey, hres, hvalue, h⟩
  · rwa [h]
  · rw [h]
    exact problem a p hp ha
  rw [h, apply]
  split
  · -- A handler, with a problem besides if the script does not carry it out.
    rw [addEvent]
    split
    · exact problem a _ (isProblemOf_of_ne rfl (by simp)) ha
    · rename_i v hv
      dsimp only
      split
      · exact handler a _ v hvalue hv ha
      · refine problem _ _ ⟨rfl, ?_⟩ (handler a _ v hvalue hv ha)
        intro event body heq
        obtain ⟨rfl, rfl⟩ := Problem.unsupportedStatement.inj heq
        exact ⟨value, v, hvalue, hv, rfl, rfl⟩
  split
  · -- Classes are added one by one.
    have hfold : ∀ (cs : List Bytes) (b : Attributed), (∀ c ∈ cs, c ∈ (Quoted.value value).words) →
        P b → P { b with element := cs.foldl Element.addClass b.element } := by
      intro cs
      induction cs with
      | nil => exact fun b _ hb => hb
      | cons c cs ih =>
        intro b hcs hb
        exact ih { b with element := b.element.addClass c }
          (fun c' hc' => hcs c' (List.mem_cons_of_mem c hc'))
          (className b _ c hvalue (hcs c List.mem_cons_self) hb)
    exact hfold _ a (fun _ hc => hc) ha
  split
  · rw [addStyle]
    have hstyled := style a value hvalue ha
    -- The properties are set at once, and the declarations that are none are reported after them.
    have hreported : ∀ (ps : List Problem) (b : Attributed), (∀ p ∈ ps, IsProblemOf p list) →
        P b → P (ps.foldl report b) := by
      intro ps b hps hb
      exact List.foldlRecOn _ _ hb fun b hb p hp => problem b p (hps p hp) hb
    have := hreported ((Style.parseList (Quoted.value value)).2.map Problem.malformedStyle) _
      (fun p hp => by
        obtain ⟨d, -, rfl⟩ := List.mem_map.mp hp
        exact isProblemOf_of_ne rfl (by simp)) hstyled
    rwa [foldl_report] at this
  · rename_i hon hclass hstyle
    exact keyed a key _ hvalue hkey hres (by simp [hon, hclass, hstyle]) ha

/-- The induction where it does not matter what is written in the list. -/
theorem addList_induction {P : Attributed → Prop} (position : Position) (list : Bytes) {e : Element}
    (start : P { element := e })
    (problem : ∀ a p, p.isEntry → P a → P (a.report p))
    (className : ∀ a value c, c ∈ Bytes.words value → P a →
      P { a with element := a.element.addClass c })
    (style : ∀ a value, P a →
      P { a with element := a.element.addStyle (Style.parseList value).1 })
    (handler : ∀ a value v, EventValue.parse? value = some v → P a →
      P { a with
        element := a.element.addHandler
          ⟨a.element.position, v.event, Statement.ofBody v.body, position⟩ })
    (keyed : ∀ a key value, isKey key → isReserved key = false →
      key ∉ [utf8 "on", utf8 "class", utf8 "style"] → P a →
      P { a with element := a.element.setAttribute key value }) :
    P (addList position e list) :=
  addList_induction_of position list start (fun a p hp => problem a p hp.isEntry)
    (fun a _ c _ hc => className a _ c hc) (fun a _ _ => style a _)
    (fun a value v _ hv => handler a value v hv) (fun a key _ _ => keyed a key _)

/-! ### What a list leaves alone -/

/-- A list changes the classes, the attributes, the style and the handlers, and nothing else. -/
theorem addList_frame (position : Position) (e : Element) (list : Bytes) :
    ∃ classes attributes style handlers, (addList position e list).element =
      { e with classes, attributes, style, handlers } := by
  refine addList_induction position list
    (P := fun a => ∃ classes attributes style handlers, a.element =
      { e with classes, attributes, style, handlers })
    ⟨_, _, _, _, rfl⟩ (fun _ _ _ ha => ha) ?_ ?_ ?_ ?_
  · rintro a _ c _ ⟨cs, as, st, hs, ha⟩
    dsimp only
    rw [Element.addClass]
    split
    · exact ⟨cs, as, st, hs, ha⟩
    · exact ⟨_, as, st, hs, by rw [ha]⟩
  · rintro a _ ⟨cs, as, st, hs, ha⟩
    exact ⟨cs, as, _, hs, by rw [Element.addStyle, ha]⟩
  · rintro a _ v _ ⟨cs, as, st, hs, ha⟩
    exact ⟨cs, as, st, _, by rw [Element.addHandler, ha]⟩
  · rintro a key value _ _ _ ⟨cs, as, st, hs, ha⟩
    exact ⟨cs, _, st, hs, by rw [Element.setAttribute, ha]⟩

/-- **No list sets a reserved attribute.** -/
theorem addList_unreserved (position : Position) {e : Element} (list : Bytes)
    (h : ∀ a ∈ e.attributes, isReserved a.key = false) :
    ∀ a ∈ (addList position e list).element.attributes, isReserved a.key = false := by
  refine addList_induction position list
    (P := fun b => ∀ a ∈ b.element.attributes, isReserved a.key = false)
    h (fun _ _ _ hb => hb) ?_ (fun _ _ hb => hb) (fun _ _ _ _ hb => hb) ?_
  · intro b _ c _ hb
    dsimp only
    rw [Element.addClass]
    split
    · exact hb
    · exact hb
  · intro b key value _ hkey _ hb
    exact Attribute.forall_mem_set (P := fun a => isReserved a.key = false) hkey hb

/-- **All problems of a list are about its entries.** -/
theorem addList_problems (position : Position) (e : Element) (list : Bytes) :
    ∀ p ∈ (addList position e list).problems, IsProblemOf p list := by
  refine addList_induction_of position list (P := fun b => ∀ p ∈ b.problems, IsProblemOf p list)
    (by simp) ?_ (fun _ _ _ _ _ hb => hb) (fun _ _ _ hb => hb) (fun _ _ _ _ _ hb => hb)
    (fun _ _ _ _ _ _ _ hb => hb)
  intro b p hp hb q hq
  rw [report, List.mem_append, List.mem_singleton] at hq
  rcases hq with hq | rfl
  · exact hb q hq
  · exact hp

/-- **All handlers of a list belong to its element and stand where the list starts**; they are read
from its values. -/
theorem addList_handlers (position : Position) {e : Element} (he : e.handlers = [])
    (list : Bytes) : ∀ h ∈ (addList position e list).element.handlers, ∃ value v,
      IsValueOf value list ∧ EventValue.parse? value = some v ∧
      h = ⟨e.position, v.event, Statement.ofBody v.body, position⟩ := by
  -- The element stays where it is, whatever the list adds to it.
  have hall : (addList position e list).element.position = e.position ∧
      ∀ h ∈ (addList position e list).element.handlers, ∃ value v,
        IsValueOf value list ∧ EventValue.parse? value = some v ∧
        h = ⟨e.position, v.event, Statement.ofBody v.body, position⟩ := by
    refine addList_induction_of position list
      (P := fun b => b.element.position = e.position ∧ ∀ h ∈ b.element.handlers, ∃ value v,
        IsValueOf value list ∧ EventValue.parse? value = some v ∧
        h = ⟨e.position, v.event, Statement.ofBody v.body, position⟩)
      ⟨rfl, by simp [he]⟩ (fun _ _ _ hb => hb) ?_ (fun _ _ _ hb => hb) ?_
      (fun _ _ _ _ _ _ _ hb => hb)
    · intro b value c _ _ hb
      dsimp only
      rw [Element.addClass]
      split
      · exact hb
      · exact hb
    · intro b value v hvalue hv hb
      refine ⟨hb.1, fun h hh => ?_⟩
      rcases List.mem_append.mp hh with hh | hh
      · exact hb.2 h hh
      · refine ⟨value, v, hvalue, hv, ?_⟩
        rw [List.mem_singleton.mp hh, hb.1]
  exact hall.2

end Attributed

/-! ### The element of a tag line -/

namespace Reading

/-- The element of a tag line before its attribute list. -/
def headOf (l : Line) (t : TagLine) : Element :=
  let named := t.classes.foldl Element.addClass { tag := t.tag, position := l.position }
  match t.identifier? with
  | some x => named.setAttribute (utf8 "id") x
  | none => named

theorem elementOf_eq (l : Line) (t : TagLine) :
    elementOf l t =
      let listed : Attributed :=
        match t.attributes with
        | some list => Attributed.addList (l.position.advance t.headLength) (headOf l t) list.text
        | none => { element := headOf l t }
      { listed with
        element := { listed.element with text := t.text.getD [], binding := t.binding } } := rfl

/-- Classes change nothing else. -/
theorem foldl_addClass (cs : List Bytes) (e : Element) :
    ∃ classes, cs.foldl Element.addClass e = { e with classes } := by
  induction cs generalizing e with
  | nil => exact ⟨e.classes, rfl⟩
  | cons c cs ih =>
    obtain ⟨classes, h⟩ := ih (e.addClass c)
    refine ⟨classes, ?_⟩
    rw [List.foldl_cons, h, Element.addClass]
    split <;> rfl

theorem headOf_frame (l : Line) (t : TagLine) :
    ∃ classes attributes, headOf l t =
        { tag := t.tag, position := l.position, classes, attributes } ∧
      ∀ a ∈ attributes, isReserved a.key = false := by
  obtain ⟨classes, h⟩ := foldl_addClass t.classes { tag := t.tag, position := l.position }
  rw [headOf, h]
  cases t.identifier? with
  | none => exact ⟨classes, [], rfl, by simp⟩
  | some x =>
    refine ⟨classes, [⟨utf8 "id", x⟩], rfl, ?_⟩
    intro a ha
    obtain rfl : a = ⟨utf8 "id", x⟩ := by simpa using ha
    exact show isReserved (utf8 "id") = false by decide

/-- **The element of a tag line** has the tag, the position, the text and the binding of the line,
and no reserved attribute. -/
theorem elementOf_frame (l : Line) (t : TagLine) :
    ∃ classes attributes style handlers, (elementOf l t).element =
        { tag := t.tag, position := l.position, text := t.text.getD [], binding := t.binding,
          classes, attributes, style, handlers } ∧
      ∀ a ∈ attributes, isReserved a.key = false := by
  obtain ⟨classes, attributes, hhead, hres⟩ := headOf_frame l t
  rw [elementOf_eq]
  cases t.attributes with
  | none => exact ⟨classes, attributes, [], [], by simp [hhead], hres⟩
  | some list =>
    obtain ⟨cs, as, st, hs, hlist⟩ :=
      Attributed.addList_frame (l.position.advance t.headLength) (headOf l t) list.text
    have hkeys := Attributed.addList_unreserved (l.position.advance t.headLength) list.text
      (e := headOf l t) (by rw [hhead]; exact hres)
    refine ⟨cs, as, st, hs, ?_, ?_⟩
    · dsimp only
      rw [hlist, hhead]
    · rwa [hlist] at hkeys

@[simp] theorem elementOf_position (l : Line) (t : TagLine) :
    (elementOf l t).element.position = l.position := by
  obtain ⟨_, _, _, _, h, -⟩ := elementOf_frame l t
  rw [h]

@[simp] theorem elementOf_tag (l : Line) (t : TagLine) : (elementOf l t).element.tag = t.tag := by
  obtain ⟨_, _, _, _, h, -⟩ := elementOf_frame l t
  rw [h]

@[simp] theorem elementOf_text (l : Line) (t : TagLine) :
    (elementOf l t).element.text = t.text.getD [] := rfl

@[simp] theorem elementOf_binding (l : Line) (t : TagLine) :
    (elementOf l t).element.binding = t.binding := rfl

theorem elementOf_unreserved (l : Line) (t : TagLine) :
    ∀ a ∈ (elementOf l t).element.attributes, isReserved a.key = false := by
  obtain ⟨_, _, _, _, h, hres⟩ := elementOf_frame l t
  rw [h]
  exact hres

theorem elementOf_problems (l : Line) (t : TagLine) : ∀ p ∈ (elementOf l t).problems,
    ∃ list ∈ t.attributes, Attributed.IsProblemOf p list.text := by
  rw [elementOf_eq]
  cases t.attributes with
  | none => simp
  | some list => exact fun p hp => ⟨list, rfl, Attributed.addList_problems _ _ _ p hp⟩

theorem elementOf_handlers (l : Line) (t : TagLine) : ∀ h ∈ (elementOf l t).element.handlers,
    ∃ list ∈ t.attributes, ∃ value v, Attributed.IsValueOf value list.text ∧
      EventValue.parse? value = some v ∧
      h = ⟨l.position, v.event, Statement.ofBody v.body, l.position.advance t.headLength⟩ := by
  obtain ⟨classes, attributes, hhead, -⟩ := headOf_frame l t
  have hnone : (headOf l t).handlers = [] := by rw [hhead]
  have hposition : (headOf l t).position = l.position := by rw [hhead]
  rw [elementOf_eq]
  cases t.attributes with
  | none => simp [hnone]
  | some list =>
    intro h hh
    have hread := Attributed.addList_handlers _ hnone _ h hh
    rw [hposition] at hread
    exact ⟨list, rfl, hread⟩

end Reading

end LiveMarkup
