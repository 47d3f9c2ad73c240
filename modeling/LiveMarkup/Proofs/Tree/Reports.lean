import LiveMarkup.Proofs.Source.Parts
import LiveMarkup.Text.Display

/-!
# What is reported about a row

Every diagnostic of a source belongs to one of its rows
(`LiveMarkup.SourceTree.exists_row_of_mem_diagnostics`), also one for a name that is not declared,
which is known only at the end. It stands where the line starts or, if it is about the attribute
list of a tag line, where the list starts.

Its wording is one line. Most of what it repeats of the source is shown between quotes, with escapes
for what is not printable (`LiveMarkup.feed_notMem_displayed`). The rest, which is
`LiveMarkup.Problem.repeated`, is repeated as it is; but that comes from a single line.
-/

namespace LiveMarkup

/-! ### Wordings -/

theorem Display.feed_notMem_char (c : Char) : octet '\n' ∉ char c := by
  have hhex (w n : Nat) : octet '\n' ∉ hexDigits w n :=
    feed_notMem_of_avoids (avoids_of_isCode (ScriptString.isCode_hexDigits w n))
  rw [char]
  split
  · rename_i hc
    rcases hc with rfl | rfl <;> decide
  · split
    · rename_i hprintable
      intro hmem
      obtain rfl := Utf8.eq_of_octet_mem_encode (by decide) hmem
      exact absurd hprintable (by decide +kernel)
    · split
      · rename_i l hl
        rw [controlLetter?] at hl
        split at hl <;> cases hl <;> decide
      · split_ifs
        all_goals exact List.not_mem_append (by decide) (hhex _ _)

/-- **What is shown between quotes has no line feed.** -/
theorem feed_notMem_displayed (s : Bytes) : octet '\n' ∉ displayed s := by
  have hhex (w n : Nat) : octet '\n' ∉ hexDigits w n :=
    feed_notMem_of_avoids (avoids_of_isCode (ScriptString.isCode_hexDigits w n))
  have hbody : octet '\n' ∉ Display.body s := by
    fun_induction Display.body s with
    | case1 => simp
    | case2 s c r _ ih => exact List.not_mem_append (Display.feed_notMem_char c) ih
    | case3 s r _ ih =>
      exact List.not_mem_append (List.not_mem_append (by decide) (hhex _ _)) ih
  exact List.not_mem_append (s := [octet '"']) (by decide) (List.not_mem_append hbody (by decide))

namespace Problem

/-- The texts that the wording of a problem repeats as they are. -/
def repeated : Problem → List Bytes
  | .unrecognizedLine t | .voidContent t | .obsoleteElement t | .duplicateState t
  | .stateName t => [t]
  | .unsupportedStatement event body => [event, body]
  | .undeclaredTarget _ event => [event]
  | .unmatchedClose | .malformedEntry _ _ | .undeclaredBinding _ | .orphanStyle
  | .malformedStyle _ | .unterminatedAttributes | .reservedAttribute _ => []

/-- **A wording is one line** if what it repeats is. -/
theorem feed_notMem_message {p : Problem} (h : ∀ w ∈ p.repeated, octet '\n' ∉ w) :
    octet '\n' ∉ p.message := by
  have hsummary : octet '\n' ∉ p.summary := by
    cases p <;> rw [summary] <;> decide
  refine List.not_mem_append hsummary ?_
  cases p with
  | unrecognizedLine t | duplicateState t | stateName t =>
    exact List.not_mem_append (by decide) (h t List.mem_cons_self)
  | voidContent t | obsoleteElement t =>
    exact List.not_mem_append (List.not_mem_append (by decide) (h t List.mem_cons_self))
      (by decide)
  | unmatchedClose | orphanStyle | unterminatedAttributes => exact List.not_mem_nil
  | malformedEntry e f =>
    have hflaw : octet '\n' ∉ f.text := by cases f <;> decide
    exact List.not_mem_append (List.not_mem_append (List.not_mem_append (by decide)
      (feed_notMem_displayed e)) (by decide)) hflaw
  | unsupportedStatement event body =>
    rw [repeated, List.forall_mem_cons, List.forall_mem_singleton] at h
    exact List.not_mem_append (List.not_mem_append (List.not_mem_append (List.not_mem_append
      (by decide) h.1) (by decide)) h.2) (by decide)
  | undeclaredBinding n =>
    exact List.not_mem_append (List.not_mem_append (by decide) (feed_notMem_displayed n))
      (by decide)
  | undeclaredTarget n event =>
    exact List.not_mem_append (List.not_mem_append (List.not_mem_append (List.not_mem_append
      (by decide) (feed_notMem_displayed n)) (by decide)) (h event List.mem_cons_self)) (by decide)
  | malformedStyle d => exact List.not_mem_append (by decide) (feed_notMem_displayed d)
  | reservedAttribute k => exact List.not_mem_append (by decide) (feed_notMem_displayed k)

end Problem

/-! ### Reports about a row -/

theorem feed_notMem_of_isName {x : Bytes} (h : isName x) : octet '\n' ∉ x :=
  fun hmem => absurd (List.all_eq_true.mp h _ hmem) (by decide)

theorem Attributed.isPart_of_isValueOf {value list : Bytes} (h : IsValueOf value list) :
    Bytes.IsPart value list := by
  obtain ⟨written, hwritten, before, after, hcut, rfl⟩ := h
  have hafter : Bytes.IsPart after written.trim := by
    rw [Nesting.eq_of_cutFrom? hcut]
    exact Bytes.isPart_after (by decide) before after
  exact (Bytes.isPart_trim after).trans (hafter.trans ((Bytes.isPart_trim written).trans
    (Nesting.isPart_of_mem_split (by decide) hwritten)))

/-- **A report about a row**: it stands at the start of the line or at the start of its attribute
list, and repeats nothing with a line feed. -/
structure Row.IsReport (x : Row) (d : Diagnostic) : Prop where
  place : d.position = x.line.position ∨ ∃ t list, x.tag? = some t ∧ t.attributes = some list ∧
    d.position = x.line.position.advance t.headLength
  repeated : ∀ w ∈ d.problem.repeated, octet '\n' ∉ w

namespace Reading

theorem isReport_of_mem_blockNotices {r : Reading} {x : Row} {d : Diagnostic}
    (h : d ∈ r.blockNotices x.line) : x.IsReport d := by
  rw [blockNotices, List.mem_ite_nil_left] at h
  obtain rfl := List.mem_singleton.mp h.2
  exact ⟨Or.inl rfl, by simp [Problem.repeated]⟩

theorem feed_notMem_of_isVoid {e : Element} (h : e.isVoid) : octet '\n' ∉ e.tag := by
  have hvoid : ∀ t ∈ voidTags, octet '\n' ∉ t := by decide
  rw [Element.isVoid, Bool.and_eq_true, decide_eq_true_eq] at h
  exact hvoid e.tag h.2

theorem isReport_of_mem_voidNotice {s : Scopes} {x : Row} {d : Diagnostic}
    (h : d ∈ s.voidNotice x.line.position) : x.IsReport d := by
  rw [Scopes.voidNotice] at h
  split at h
  · rename_i e _
    rw [List.mem_ite_nil_right] at h
    obtain rfl := List.mem_singleton.mp h.2
    exact ⟨Or.inl rfl, by simpa [Problem.repeated] using feed_notMem_of_isVoid h.1⟩
  · exact absurd h (by simp)

theorem isReport_of_mem_tagNotices {x : Row} (hline : octet '\n' ∉ x.line.text) {t : TagLine}
    (ht : x.tag? = some t) {d : Diagnostic} (h : d ∈ tagNotices x.line t) : x.IsReport d := by
  have hparse := Row.parse?_of_tag? ht
  have hvalue {list : AttributeList} (hlist : t.attributes = some list) {value : Bytes}
      (hvalue : Attributed.IsValueOf value list.text) : octet '\n' ∉ value :=
    ((Attributed.isPart_of_isValueOf hvalue).trans
      ((TagLine.isPart_of_parse? hparse).1 list hlist)).notMem hline
  simp only [tagNotices, List.mem_append, List.mem_map, List.mem_ite_nil_right,
    List.mem_singleton] at h
  rcases h with ((⟨hopen, rfl⟩ | ⟨p, hp, rfl⟩) | ⟨hplain, rfl⟩) | ⟨hvoid, rfl⟩
  · -- A list that is not closed.
    obtain ⟨list, hlist⟩ : ∃ list, t.attributes = some list := by
      cases hattributes : t.attributes with
      | none => exact absurd hopen (by simp [hattributes])
      | some list => exact ⟨list, rfl⟩
    exact ⟨Or.inr ⟨t, list, ht, hlist, rfl⟩, by simp [Problem.repeated]⟩
  · -- A problem with an entry. Of these only the statement of a handler is repeated as it is.
    obtain ⟨list, hlist, hentry⟩ := elementOf_problems x.line t p hp
    refine ⟨Or.inr ⟨t, list, ht, hlist, rfl⟩, ?_⟩
    cases p with
    | unsupportedStatement event body =>
      obtain ⟨value, v, hof, hv, rfl, rfl⟩ := hentry.statement event body rfl
      have hbody : octet '\n' ∉ (Statement.ofBody v.body).text :=
        ((Statement.isPart_ofBody v.body).trans (EventValue.isPart_of_parse? hv)).notMem
          (hvalue hlist hof)
      simpa [Problem.repeated] using
        ⟨feed_notMem_of_isName (EventValue.isName_of_parse? hv), hbody⟩
    | malformedEntry _ _ | malformedStyle _ | reservedAttribute _ => simp [Problem.repeated]
    | _ => exact absurd hentry.isEntry (by simp [Problem.isEntry])
  · -- An obsolete element.
    rw [Element.isPlaintext, elementOf_tag, Bool.and_eq_true, beq_iff_eq] at hplain
    refine ⟨Or.inl rfl, ?_⟩
    rw [Problem.repeated, List.forall_mem_singleton, hplain.2]
    decide
  · -- Content of an element that cannot have any.
    rw [Bool.and_eq_true] at hvoid
    refine ⟨Or.inl rfl, ?_⟩
    rw [Problem.repeated, List.forall_mem_singleton, ← elementOf_tag x.line t]
    exact feed_notMem_of_isVoid hvoid.1

/-- **What is reported when a row is read is a report about it.** The cases are those of
`LiveMarkup.Reading.notices`. -/
theorem isReport_of_mem_notices {r : Reading} {x : Row} (hline : octet '\n' ∉ x.line.text)
    {d : Diagnostic} (h : d ∈ r.notices x) : x.IsReport d := by
  rw [notices] at h
  cases hk : x.kind? with
  | none =>
    simp only [hk] at h
    split at h
    · exact isReport_of_mem_blockNotices h
    · obtain ⟨b, -, rfl⟩ := List.mem_map.mp h
      exact ⟨Or.inl rfl, by simp [Problem.repeated]⟩
  | some k =>
    have haccepts := Row.accepts_of_kind? hk
    cases k with
    | closing =>
      simp only [hk] at h
      exact isReport_of_mem_blockNotices h
    | unrecognized =>
      simp only [hk, List.mem_singleton] at h
      subst h
      exact ⟨Or.inl rfl, by simpa [Problem.repeated] using hline⟩
    | misnamed name =>
      simp only [hk, List.mem_singleton] at h
      subst h
      obtain ⟨e, he, rfl⟩ := haccepts
      refine ⟨Or.inl rfl, ?_⟩
      rw [Problem.repeated, List.forall_mem_singleton]
      exact fun hmem => hline ((StateLine.isPart_of_parse? he).2.subset hmem)
    | state e =>
      simp only [hk, List.mem_ite_nil_right, List.mem_singleton] at h
      obtain ⟨-, rfl⟩ := h
      have he : x.state? = some e := by simp [Row.state?, hk, LineKind.state?]
      refine ⟨Or.inl rfl, ?_⟩
      rw [Problem.repeated, List.forall_mem_singleton]
      exact fun hmem =>
        hline ((StateLine.isPart_of_parse? (Row.parse?_of_state? he)).2.subset hmem)
    | style e =>
      simp only [hk, List.mem_append, List.mem_ite_nil_right, List.mem_singleton,
        List.mem_map] at h
      rcases h with ⟨-, rfl⟩ | ⟨b, -, rfl⟩ <;> exact ⟨Or.inl rfl, by simp [Problem.repeated]⟩
    | text t =>
      simp only [hk] at h
      exact isReport_of_mem_voidNotice h
    | tag t =>
      simp only [hk, List.mem_append] at h
      rcases h with h | h
      · exact isReport_of_mem_tagNotices hline (by simp [Row.tag?, hk, LineKind.tag?]) h
      · exact isReport_of_mem_voidNotice h

end Reading

/-! ### Reports about a source -/

namespace SourceTree

/-- A handler stands where the list of its tag line starts. -/
theorem isReport_of_mem_undeclaredTargets {states : StateTable} {x : Row} {d : Diagnostic}
    (h : d ∈ undeclaredTargets states x.handlers) : x.IsReport d := by
  obtain ⟨a, ha, hd⟩ := List.mem_filterMap.mp h
  cases ht : x.tag? with
  | none => exact absurd ha (by simp [Row.handlers, ht])
  | some t =>
    have hmem : a ∈ (Reading.elementOf x.line t).element.handlers := by
      simpa [Row.handlers, ht] using ha
    obtain ⟨list, hlist, value, v, -, hv, rfl⟩ := Reading.elementOf_handlers x.line t a hmem
    split at hd
    · split at hd
      · exact absurd hd (by simp)
      · obtain rfl := Option.some.inj hd
        refine ⟨Or.inr ⟨t, list, ht, hlist, rfl⟩, ?_⟩
        rw [Problem.repeated, List.forall_mem_singleton]
        exact feed_notMem_of_isName (EventValue.isName_of_parse? hv)
    · exact absurd hd (by simp)

/-- **Every diagnostic of a source is a report about one of its rows.** -/
theorem exists_row_of_mem_diagnostics {src : Bytes} {d : Diagnostic}
    (hlines : ∀ l ∈ Line.ofSource src, octet '\n' ∉ l.text) (h : d ∈ (ofSource src).diagnostics) :
    ∃ x ∈ Layout.ofSource src, x.IsReport d := by
  have hline {x : Row} (hx : x ∈ Layout.ofSource src) : octet '\n' ∉ x.line.text := by
    refine hlines x.line ?_
    rw [← Layout.map_line_ofLines (Line.ofSource src)]
    exact List.mem_map_of_mem hx
  rw [ofSource, ofReading, List.mem_append, List.mem_append] at h
  -- A diagnostic comes from the reading, from a binding or from the target of a handler.
  rcases h with (h | h) | h
  · obtain ⟨before, x, after, hrows, hd⟩ := Reading.mem_diagnostics_ofLines.mp h
    have hx : x ∈ Layout.ofSource src := by
      rw [Layout.ofSource, hrows]
      exact List.mem_append_right before List.mem_cons_self
    exact ⟨x, hx, Reading.isReport_of_mem_notices (hline hx) hd⟩
  · obtain ⟨name, p, hmem, -, rfl⟩ := mem_undeclaredBindings.mp h
    have hitems : (name, p) ∈ Node.bindings (ofSource src).nodes := hmem
    rw [Node.bindings_eq_items, Layout.items_nodes, List.mem_filterMap] at hitems
    obtain ⟨i, hi, hbinding⟩ := hitems
    obtain ⟨x, hx, hitem⟩ := List.mem_filterMap.mp hi
    obtain ⟨name', -, heq⟩ := Option.map_eq_some_iff.mp hbinding
    obtain ⟨rfl, rfl⟩ := Prod.mk.inj heq
    exact ⟨x, hx, Or.inl (Layout.position_of_item? hitem), by simp [Problem.repeated]⟩
  · rw [Reading.handlers_ofLines, undeclaredTargets, List.filterMap_flatMap,
      List.mem_flatMap] at h
    obtain ⟨x, hx, hd⟩ := h
    exact ⟨x, hx, isReport_of_mem_undeclaredTargets hd⟩

end SourceTree

end LiveMarkup
