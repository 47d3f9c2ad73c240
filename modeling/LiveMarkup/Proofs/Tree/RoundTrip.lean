import LiveMarkup.Proofs.Tree.Nesting
import LiveMarkup.Proofs.Tree.Printing

/-!
# Reading what was printed

A printed forest is read again as it was, but for its positions.

* A printed line is a line of the source as it stands: it is well-formed, has no line feed and no
  white space at its ends (`LiveMarkup.Print.Tidy`), so that nothing is trimmed off
  (`LiveMarkup.Print.ofRaw?_indented`);
* the element of a printed line is the element that was printed
  (`LiveMarkup.Print.elementOf_parts`): every attribute is set once, and under a new key;
* reading the lines of a forest at some depth attaches the forest to what is open at that depth
  (`LiveMarkup.Print.reads_linesAll`). The induction is on the forest, for any reading that goes
  before; what is open below that depth is closed by the next line and does not matter.
-/

namespace LiveMarkup

namespace Print

/-! ### Printed lines in a source -/

section OneLiner

variable {s t : Bytes}

theorem isOneLiner_iff : isOneLiner s ↔ Utf8.isValid s ∧ octet '\n' ∉ s := by
  rw [isOneLiner, Bool.and_eq_true, decide_eq_true_eq]

theorem isOneLiner_append (hs : isOneLiner s) (ht : isOneLiner t) : isOneLiner (s ++ t) := by
  rw [isOneLiner_iff] at hs ht ⊢
  refine ⟨Utf8.isValid_append hs.1 ht.1, ?_⟩
  rw [List.mem_append, not_or]
  exact ⟨hs.2, ht.2⟩

theorem isOneLiner_of_ascii (hs : s.all fun b => b.toNat < 0x80 && b != octet '\n') :
    isOneLiner s := by
  have hoctet {b : UInt8} (hb : b ∈ s) := Bool.and_eq_true_iff.mp (List.all_eq_true.mp hs b hb)
  refine isOneLiner_iff.mpr ⟨?_, fun hmem => absurd (hoctet hmem).2 (by decide)⟩
  exact Utf8.isValid_of_ascii (List.all_eq_true.mpr fun b hb => (hoctet hb).1)

theorem isOneLiner_intercalate {sep : Bytes} (hsep : isOneLiner sep) {ws : List Bytes}
    (hws : ∀ w ∈ ws, isOneLiner w) : isOneLiner (List.intercalate sep ws) :=
  Bytes.intercalate_induction (isOneLiner_of_ascii rfl) isOneLiner_append hsep hws

/-- **A text that can end a line**: it is well-formed and on one line, and has no white space at its
end. -/
structure Tidy (s : Bytes) : Prop where
  oneLiner : isOneLiner s
  last : ∀ b, s.getLast? = some b → isSolid b

theorem tidy_nil : Tidy [] := ⟨isOneLiner_of_ascii rfl, by simp⟩

theorem Tidy.append_of_ne_nil (ht : Tidy t) (hs : isOneLiner s) (hne : t ≠ []) : Tidy (s ++ t) where
  oneLiner := isOneLiner_append hs ht.oneLiner
  last b hb := by
    rw [List.getLast?_append_of_ne_nil s hne] at hb
    exact ht.last b hb

theorem Tidy.append (hs : Tidy s) (ht : Tidy t) : Tidy (s ++ t) := by
  by_cases hne : t = []
  · rwa [hne, List.append_nil]
  · exact ht.append_of_ne_nil hs.oneLiner hne

theorem tidy_of_solid (hs : s.all isSolid) : Tidy s where
  oneLiner := by
    refine isOneLiner_of_ascii (List.all_eq_true.mpr fun b hb => ?_)
    have hsolid := List.all_eq_true.mp hs b hb
    have hfeed : b ≠ octet '\n' := by
      rintro rfl
      exact absurd hsolid (by decide)
    rw [isSolid, Bool.and_eq_true] at hsolid
    rw [hsolid.1, Bool.true_and, bne_iff_ne]
    exact hfeed
  last b hb := List.all_eq_true.mp hs b (List.mem_of_getLast? hb)

theorem tidy_of_isName (hs : isName s) : Tidy s :=
  tidy_of_solid (List.all_eq_true.mpr fun b hb =>
    isSolid_of_isNameOctet (List.all_eq_true.mp hs b hb))

theorem Tidy.trim {b : UInt8} (h : Tidy (b :: s)) (hb : isSolid b) :
    Bytes.trim (b :: s) = b :: s := by
  obtain ⟨c, hc⟩ : ∃ c, (b :: s).getLast? = some c := ⟨_, List.getLast?_cons⟩
  exact Bytes.trim_of_solid (isOneLiner_iff.mp h.oneLiner).1 rfl hb hc (h.last c hc)

theorem trim_of_isName (hs : isName s) (hne : s ≠ []) : Bytes.trim s = s := by
  obtain ⟨b, s, rfl⟩ := List.exists_cons_of_ne_nil hne
  exact (tidy_of_isName hs).trim
    (isSolid_of_isNameOctet (List.all_eq_true.mp hs b List.mem_cons_self))

theorem quote_ne_nil (t : Bytes) : quote t ≠ [] := List.cons_ne_nil _ _

theorem tidy_quote (ht : isOneLiner t) : Tidy (quote t) where
  oneLiner := by
    rw [isOneLiner_iff] at ht ⊢
    exact ⟨Quoted.isValid_literal ht.1, Quoted.notMem_literal (by decide) (by decide) ht.2⟩
  last b hb := by
    have hquote : (quote t).getLast? = some (octet '"') := by
      rw [quote, Quoted.literal, ← List.cons_append]
      exact List.getLast?_concat
    obtain rfl := Option.some.inj (hquote.symm.trans hb)
    decide

end OneLiner

theorem tidy_entry {a : Attribute} (hkey : isKey a.key) (hvalue : isOneLiner a.value) :
    Tidy (entry a) := by
  have hcolon : isOneLiner (utf8 ": ") := isOneLiner_of_ascii (by decide)
  have hname := (tidy_of_isName (isName_of_isKey hkey)).oneLiner
  exact (tidy_quote hvalue).append_of_ne_nil (isOneLiner_append hname hcolon)
    (quote_ne_nil a.value)

theorem tidy_binding {x : Option Bytes} (hx : ∀ y, x = some y → isBinding y) :
    Tidy (binding x) := by
  cases x with
  | none => exact tidy_nil
  | some y =>
    have hname := tidy_of_isName (isName_of_isBinding (hx y rfl))
    exact hname.append_of_ne_nil (isOneLiner_of_ascii (by decide)) (ne_nil_of_isWord (hx y rfl))

theorem tidy_classes {cs : List Bytes} (hcs : ∀ c ∈ cs, c ≠ [] ∧ isName c) :
    Tidy (classes cs) := by
  induction cs with
  | nil => exact tidy_nil
  | cons c cs ih =>
    rw [List.forall_mem_cons] at hcs
    have hdot : Tidy (utf8 ".") := tidy_of_solid (by decide)
    exact (hdot.append (tidy_of_isName hcs.1.2)).append (ih hcs.2)

/-- **The line of an element is tidy.** -/
theorem tidy_tagLine {e : Element} (h : e.Printable) : Tidy (tagLine e) := by
  have hlist : Tidy (list e.attributes) := by
    rw [list]
    split
    · exact tidy_nil
    · have hentries : isOneLiner (entries e.attributes) :=
        isOneLiner_intercalate (isOneLiner_of_ascii (by decide))
          (List.forall_mem_map.mpr fun a ha =>
            (tidy_entry (h.keys a ha).1 (h.values a ha)).oneLiner)
      exact (tidy_of_solid (by decide)).append_of_ne_nil
        (isOneLiner_append (isOneLiner_of_ascii (by decide)) hentries) (by decide)
  have htext : Tidy (text e.text) := by
    rw [text]
    split
    · exact tidy_nil
    · exact (tidy_quote h.text).append_of_ne_nil (isOneLiner_of_ascii (by decide))
        (quote_ne_nil e.text)
  have htag : Tidy e.tag := tidy_of_isName (isName_of_isTag h.tag)
  have hhead := htag.append (tidy_classes h.classes)
  exact ((hhead.append hlist).append htext).append (tidy_binding h.binding)

theorem tidy_textLine {t : TextRun} (h : t.Printable) : Tidy (textLine t) :=
  (tidy_quote h.text).append (tidy_binding h.binding)

/-- **A tidy line is a line of the source as it stands**, behind its indent. -/
theorem ofRaw?_indented {b : UInt8} {s : Bytes} (htidy : Tidy (b :: s)) (hb : isSolid b)
    (hslash : b ≠ octet '/') (number indent : Nat) :
    Line.ofRaw? number (List.replicate indent (octet ' ') ++ b :: s) =
      some ⟨number, indent, b :: s⟩ := by
  obtain ⟨c, hc⟩ : ∃ c, (b :: s).getLast? = some c := ⟨_, List.getLast?_cons⟩
  have hsolid := htidy.last c hc
  have hreturn : Bytes.dropReturn (List.replicate indent (octet ' ') ++ b :: s) =
      List.replicate indent (octet ' ') ++ b :: s := by
    rw [Bytes.dropReturn, List.getLast?_append_of_ne_nil _ (by simp), hc, if_neg]
    -- The carriage return that is dropped at the end of a line is white space.
    intro hreturn
    rw [Option.some.inj hreturn] at hsolid
    exact absurd hsolid (by decide)
  have htrim : Bytes.trim (List.replicate indent (octet ' ') ++ b :: s) = b :: s := by
    rw [Bytes.trim_replicate_append, htidy.trim hb]
  have hcomment : Bytes.after? Line.commentMark (b :: s) = none := by
    rw [show Line.commentMark = octet '/' :: [octet '/'] from rfl, Bytes.after?,
      if_neg (Ne.symm hslash)]
  rw [Line.ofRaw?, hreturn, htrim, Bytes.indentWidth_replicate_append indent hb, Line.isSignificant,
    hcomment]
  rfl

/-! ### Printed attributes -/

section Attributes

variable {a : Attribute}

theorem ne_nil_of_isKey {key : Bytes} (h : isKey key) : key ≠ [] := by
  rintro rfl
  exact absurd h (by simp [isKey])

theorem trim_quote {t : Bytes} (ht : isOneLiner t) : Bytes.trim (quote t) = quote t :=
  (tidy_quote ht).trim (by decide)

/-- The value of a printed text is the text. -/
theorem value_quote {t : Bytes} (ht : isOneLiner t) : Quoted.value (quote t) = t := by
  have htake := Quoted.take?_literal (q := octet '"') (by decide) t []
  rw [List.append_nil] at htake
  rw [Quoted.value, trim_quote ht, show Quoted.take? (quote t) = _ from htake]
  exact content_quote ht

theorem trim_entry (hkey : isKey a.key) (hvalue : isOneLiner a.value) :
    Bytes.trim (entry a) = entry a := by
  have htidy := tidy_entry hkey hvalue
  have hname := isName_of_isKey hkey
  rw [entry] at htidy ⊢
  obtain ⟨b, s, hs⟩ := List.exists_cons_of_ne_nil (ne_nil_of_isKey hkey)
  rw [hs] at htidy hname ⊢
  exact htidy.trim (isSolid_of_isNameOctet (List.all_eq_true.mp hname b List.mem_cons_self))

theorem isBalanced_entry (hkey : isKey a.key) : Nesting.isBalanced (entry a) = true := by
  have hcalm : Nesting.Calm (fun _ _ => false) 0 (entry a) :=
    calm_entry (fun _ _ => rfl) rfl (fun _ _ => rfl) hkey
  rw [Nesting.isBalanced, show (entry a).foldl Nesting.step {} = _ from hcalm.returns]
  rfl

/-- The colon of a printed attribute is the one after its key. -/
theorem cut?_entry (hkey : isKey a.key) :
    Nesting.cut? (octet ':') (entry a) = some (a.key, octet ' ' :: quote a.value) := by
  have hname := isName_of_isKey hkey
  have hcalm : Nesting.Calm (Nesting.stopsAt (octet ':')) 0 a.key := by
    refine Nesting.Calm.of_avoids (avoids_marks (avoids_listMarks_of_isName hname)) fun b hb => ?_
    have hcolon : b ≠ octet ':' := by
      rintro rfl
      exact absurd (List.all_eq_true.mp hname _ hb) (by decide)
    rw [Nesting.stopsAt, decide_eq_false hcolon, Bool.false_and]
  have hentry : entry a = a.key ++ octet ':' :: (octet ' ' :: quote a.value) := by
    rw [entry, List.append_assoc]
    rfl
  rw [hentry, Nesting.cut?_of_calm hcalm]

/-- **A printed attribute is set**, with or without a space in front. -/
theorem addEntry_entry (hkey : isKey a.key) (hreserved : isReserved a.key = false)
    (hother : a.key ∉ [utf8 "on", utf8 "class", utf8 "style"]) (hvalue : isOneLiner a.value)
    (position : Position) (spaces : Nat) (b : Attributed) :
    b.addEntry position (List.replicate spaces (octet ' ') ++ entry a) =
      { b with element := b.element.setAttribute a.key a.value } := by
  have hempty : (entry a).isEmpty = false := by
    simp [entry, ne_nil_of_isKey hkey]
  have hafter : Bytes.trim (octet ' ' :: quote a.value) = quote a.value := by
    have htrim := Bytes.trim_replicate_append 1 (quote a.value)
    rwa [trim_quote hvalue] at htrim
  simp only [List.mem_cons, List.not_mem_nil, or_false, not_or] at hother
  rw [Attributed.addEntry, Bytes.trim_replicate_append, trim_entry hkey hvalue]
  dsimp only
  rw [hempty, isBalanced_entry hkey, cut?_entry hkey]
  dsimp only
  rw [hafter, trim_of_isName (isName_of_isKey hkey) (ne_nil_of_isKey hkey), hkey, hreserved]
  have happly : b.apply position a.key (quote a.value) =
      { b with element := b.element.setAttribute a.key a.value } := by
    rw [Attributed.apply, if_neg hother.1, if_neg hother.2.1, if_neg hother.2.2, value_quote hvalue]
  exact happly

theorem set_of_new {key value : Bytes} {as : List Attribute} (h : ∀ a ∈ as, a.key ≠ key) :
    Attribute.set key value as = as ++ [⟨key, value⟩] := by
  induction as with
  | nil => rfl
  | cons a as ih =>
    rw [List.forall_mem_cons] at h
    rw [Attribute.set, if_neg h.1, ih h.2, List.cons_append]

/-- Attributes under new keys come after the others. -/
theorem foldl_set {as : List Attribute} {e : Element}
    (h : ((e.attributes ++ as).map Attribute.key).Nodup) :
    as.foldl (fun e a => e.setAttribute a.key a.value) e =
      { e with attributes := e.attributes ++ as } := by
  induction as generalizing e with
  | nil => rw [List.foldl_nil, List.append_nil]
  | cons a as ih =>
    have hnew : ∀ b ∈ e.attributes, b.key ≠ a.key := by
      rw [List.map_append] at h
      intro b hb
      exact (List.nodup_append.mp h).2.2 b.key (List.mem_map_of_mem hb) a.key (by simp)
    rw [List.foldl_cons, Element.setAttribute, set_of_new hnew, ih (by simpa using h)]
    simp

/-- Printed attributes are told apart by the commas between them. -/
theorem split_entries {as : List Attribute} (hkeys : ∀ c ∈ a :: as, isKey c.key) :
    Nesting.split (octet ',') (entries (a :: as)) =
      entry a :: (as.map entry).map (octet ' ' :: ·) := by
  have hplain (b : UInt8) (hb : b ∉ listMarks) :
      Nesting.stopsAt (octet ',') (Nesting.level 0) b = false := by
    have hcomma : b ≠ octet ',' := fun hcomma => hb (hcomma ▸ List.mem_cons_self)
    rw [Nesting.stopsAt, decide_eq_false hcomma, Bool.false_and]
  have hspace : Nesting.Calm (Nesting.stopsAt (octet ',')) 0 [octet ' '] :=
    Nesting.Calm.of_avoids (by decide) (List.forall_mem_singleton.mpr (hplain _ (by decide)))
  have hentries : ∀ w ∈ (a :: as).map entry, Nesting.Calm (Nesting.stopsAt (octet ',')) 0 w :=
    List.forall_mem_map.mpr fun c hc =>
      calm_entry hplain rfl (fun _ _ => Bool.and_false _) (hkeys c hc)
  exact Nesting.splitFrom_intercalate hspace Nesting.Calm.nil hentries

/-- **Printed attributes are set one after another.** -/
theorem addList_entries {as : List Attribute} (hkeys : ∀ a ∈ as, isKey a.key ∧
      isReserved a.key = false ∧ a.key ∉ [utf8 "on", utf8 "class", utf8 "style"])
    (hvalues : ∀ a ∈ as, isOneLiner a.value) (hne : as ≠ []) (position : Position) (e : Element) :
    Attributed.addList position e (entries as) =
      { element := as.foldl (fun e a => e.setAttribute a.key a.value) e } := by
  obtain ⟨a, as, rfl⟩ := List.exists_cons_of_ne_nil hne
  have hfold (cs : List Attribute) (hcs : ∀ c ∈ cs, c ∈ a :: as) (b : Attributed) :
      ((cs.map entry).map (octet ' ' :: ·)).foldl (Attributed.addEntry position) b =
        { b with element := cs.foldl (fun e a => e.setAttribute a.key a.value) b.element } := by
    induction cs generalizing b with
    | nil => rfl
    | cons c cs ih =>
      rw [List.forall_mem_cons] at hcs
      obtain ⟨hkey, hreserved, hother⟩ := hkeys c hcs.1
      have hadd := addEntry_entry hkey hreserved hother (hvalues c hcs.1) position 1 b
      rw [List.map_cons, List.map_cons, List.foldl_cons,
        show b.addEntry position (octet ' ' :: entry c) = _ from hadd, ih hcs.2]
      rfl
  obtain ⟨hkey, hreserved, hother⟩ := hkeys a List.mem_cons_self
  have hadd := addEntry_entry hkey hreserved hother (hvalues a List.mem_cons_self) position 0
    { element := e }
  rw [Attributed.addList, split_entries fun c hc => (hkeys c hc).1, List.foldl_cons,
    show Attributed.addEntry position { element := e } (entry a) = _ from hadd,
    hfold as fun c hc => List.mem_cons_of_mem a hc]
  rfl

end Attributes

/-! ### Printed elements -/

theorem classes_parts (e : Element) : (parts e).classes = e.classes := by
  rw [TagLine.classes, parts, List.filterMap_map]
  exact List.filterMap_some

theorem identifier?_parts (e : Element) : (parts e).identifier? = none := by
  rw [TagLine.identifier?, parts, List.filterMap_map]
  exact congrArg List.getLast? (List.filterMap_eq_nil_iff.mpr fun c _ => rfl)

/-- Classes that are all new come after the others. -/
theorem foldl_addClass_of_nodup {cs : List Bytes} {e : Element} (h : (e.classes ++ cs).Nodup) :
    cs.foldl Element.addClass e = { e with classes := e.classes ++ cs } := by
  induction cs generalizing e with
  | nil => rw [List.foldl_nil, List.append_nil]
  | cons c cs ih =>
    have hnew : c ∉ e.classes := by
      intro hc
      exact (List.nodup_append.mp h).2.2 c hc c List.mem_cons_self rfl
    rw [List.foldl_cons, Element.addClass, if_neg hnew, ih (by simpa using h)]
    simp

/-- Of an element that can be printed nothing is left out on its line but its position. -/
theorem eq_of_printable {e : Element} (h : e.Printable) (position : Position) :
    ({ tag := e.tag, classes := e.classes, attributes := e.attributes, text := e.text,
       binding := e.binding, position } : Element) = { e with position } := by
  obtain ⟨tag, standard, classes, attributes, style, text, binding, _, handlers⟩ := e
  obtain rfl : standard = true := h.standard
  obtain rfl : style = [] := h.style
  obtain rfl : handlers = [] := h.handlers
  rfl

/-- **The element of a printed line is the element that was printed**, at the position of the line,
and nothing is wrong with it. -/
theorem elementOf_parts {e : Element} (h : e.Printable) (l : Line) :
    Reading.elementOf l (parts e) = { element := { e with position := l.position } } := by
  have hhead : Reading.headOf l (parts e) =
      { tag := e.tag, position := l.position, classes := e.classes } := by
    rw [Reading.headOf, classes_parts, identifier?_parts]
    exact foldl_addClass_of_nodup (e := { tag := e.tag, position := l.position })
      h.nodup_classes
  have htext : (parts e).text.getD [] = e.text := by
    rw [parts]
    cases e.text <;> rfl
  rw [Reading.elementOf_eq, hhead, htext, ← eq_of_printable h l.position]
  cases hattributes : e.attributes with
  | nil =>
    have hnone : (parts e).attributes = none := by
      rw [parts, hattributes]
      rfl
    rw [hnone]
    rfl
  | cons a as =>
    have hsome : (parts e).attributes = some ⟨entries (a :: as), true⟩ := by
      rw [parts, hattributes]
      rfl
    have hkeys := h.keys
    have hvalues := h.values
    have hnodup := h.nodup_keys
    rw [hattributes] at hkeys hvalues hnodup
    rw [hsome]
    dsimp only
    rw [addList_entries hkeys hvalues (List.cons_ne_nil a as), foldl_set hnodup]
    rfl

/-! ### Printed forests -/

end Print

namespace Scopes

/-- Adds the nodes of a forest below the innermost open element. -/
def attachAll (ns : List Node) (s : Scopes) : Scopes := ns.foldl (fun s n => s.attach n) s

theorem attachAll_nil (s : Scopes) : s.attachAll [] = s := rfl

theorem attachAll_cons (n : Node) (ns : List Node) (s : Scopes) :
    s.attachAll (n :: ns) = (s.attach n).attachAll ns := rfl

theorem attachAll_of_closed (ns nodes : List Node) :
    attachAll ns ⟨nodes, []⟩ = ⟨nodes ++ ns, []⟩ := by
  induction ns generalizing nodes with
  | nil => rw [attachAll_nil, List.append_nil]
  | cons n ns ih => rw [attachAll_cons, attach, ih, List.append_assoc, List.singleton_append]

theorem attachAll_of_open (ns nodes : List Node) (f : Frame) (fs : List Frame) :
    attachAll ns ⟨nodes, f :: fs⟩ = ⟨nodes, { f with children := f.children ++ ns } :: fs⟩ := by
  induction ns generalizing f with
  | nil => rw [attachAll_nil, List.append_nil]
  | cons n ns ih => rw [attachAll_cons, attach, ih, List.append_assoc, List.singleton_append]

/-- **An element that is opened, filled and closed** is attached with its children. -/
theorem close_attachAll_push (indent : Nat) (e : Element) (ns : List Node) (s : Scopes) :
    (((s.close indent).push indent e).attachAll ns).close indent =
      (s.close indent).attach (.element e ns) := by
  rw [push, attachAll_of_open, close_cons, if_pos (Nat.le_refl indent)]
  exact close_attach_close indent _ s

end Scopes

namespace Node

mutual

/-- A node without positions. -/
def unplaced : Node → Node
  | .element e cs => .element { e with position := ⟨0, 0⟩ } (unplacedAll cs)
  | .text t => .text { t with position := ⟨0, 0⟩ }
  | .comment => .comment

/-- A forest without positions. -/
def unplacedAll : List Node → List Node
  | [] => []
  | n :: ns => unplaced n :: unplacedAll ns

end

end Node

/-- **A node can be printed**, apart from what is below it. -/
def Item.Printable : Item → Prop
  | .element e => e.Printable
  | .text t => t.Printable
  | .comment => False

namespace Print

theorem ofRaw?_tagLine {e : Element} (h : e.Printable) (number indent : Nat) :
    Line.ofRaw? number (List.replicate indent (octet ' ') ++ tagLine e) =
      some ⟨number, indent, tagLine e⟩ := by
  have htidy := tidy_tagLine h
  obtain ⟨b, s, hs, hb⟩ := exists_tagLine_eq_cons h
  rw [hs] at htidy ⊢
  refine ofRaw?_indented htidy (isSolid_of_isNameOctet hb) ?_ number indent
  rintro rfl
  exact absurd hb (by decide)

theorem ofRaw?_textLine {t : TextRun} (h : t.Printable) (number indent : Nat) :
    Line.ofRaw? number (List.replicate indent (octet ' ') ++ textLine t) =
      some ⟨number, indent, textLine t⟩ :=
  ofRaw?_indented (tidy_textLine h) (by decide) (by decide) number indent

/-- **What reading a forest does to a reading**: the forest is attached to what is open at its
indent, and there is nothing else to it but warnings. -/
structure Reads (indent : Nat) (ns : List Node) (r r' : Reading) : Prop where
  scopes : r'.scopes.close indent = (r.scopes.close indent).attachAll ns
  style : r'.style = none
  states : r'.states = r.states
  handlers : r'.handlers = r.handlers
  errors : Diagnostic.anyError r'.diagnostics = Diagnostic.anyError r.diagnostics

section Reads

variable {r r' r'' : Reading} {indent : Nat}

theorem reads_nil (hstyle : r.style = none) : Reads indent [] r r :=
  ⟨rfl, hstyle, rfl, rfl, rfl⟩

theorem Reads.trans {n : Node} {ns : List Node} (h : Reads indent [n] r r')
    (h' : Reads indent ns r' r'') : Reads indent (n :: ns) r r'' where
  scopes := by rw [h'.scopes, h.scopes]; rfl
  style := h'.style
  states := h'.states.trans h.states
  handlers := h'.handlers.trans h.handlers
  errors := h'.errors.trans h.errors

/-- Warnings are no errors. -/
theorem anyError_append {ds ws : List Diagnostic} (h : ∀ w ∈ ws, w.severity = .warning) :
    Diagnostic.anyError (ds ++ ws) = Diagnostic.anyError ds := by
  have hnone : Diagnostic.anyError ws = false := by
    refine List.any_eq_false.mpr fun w hw => ?_
    rw [h w hw]
    decide
  rw [Diagnostic.anyError, List.any_append, ← Diagnostic.anyError, ← Diagnostic.anyError, hnone,
    Bool.or_false]

theorem severity_of_mem_voidNotice {s : Scopes} {position : Position} :
    ∀ w ∈ s.voidNotice position, w.severity = .warning := by
  intro w hw
  rw [Scopes.voidNotice] at hw
  split at hw
  · split at hw
    · rw [List.mem_singleton.mp hw]
      rfl
    · exact absurd hw List.not_mem_nil
  · exact absurd hw List.not_mem_nil

/-- **Nothing is wrong with a printed element** but that it may be obsolete or have content that it
cannot have. -/
theorem severity_of_mem_tagNotices {e : Element} (h : e.Printable) (l : Line) :
    ∀ w ∈ Reading.tagNotices l (parts e), w.severity = .warning := by
  have hclosed : ((parts e).attributes.any fun list => !list.closed) = false := by
    rw [parts]
    dsimp only
    split <;> rfl
  intro w hw
  rw [Reading.tagNotices, elementOf_parts h, hclosed, if_neg (by simp), List.map_nil,
    List.append_nil, List.nil_append] at hw
  rcases List.mem_append.mp hw with hw | hw
  · split at hw
    · rw [List.mem_singleton.mp hw]
      rfl
    · exact absurd hw List.not_mem_nil
  · split at hw
    · rw [List.mem_singleton.mp hw]
      rfl
    · exact absurd hw List.not_mem_nil

theorem not_inStyle (hstyle : r.style = none) (l : Line) : r.inStyle l = false := by
  rw [Reading.inStyle, hstyle]
  rfl

/-- **The line of a text run** is read. -/
theorem reads_textLine {t : TextRun} (h : t.Printable) (hstyle : r.style = none) {l : Line}
    (hl : l.text = textLine t) :
    Reads l.indent [.text { t with position := l.position }] r (r.step l) := by
  have hstep : r.step l = (r.close l.indent).addText l ⟨t.text, t.binding⟩ := by
    rw [Reading.step, not_inStyle hstyle, Reading.plainLine, hl, ofText_textLine h]
    rfl
  rw [hstep, Reading.addText, Reading.attach_eq]
  exact ⟨Scopes.close_attach_close _ _ _, rfl, rfl, rfl,
    anyError_append severity_of_mem_voidNotice⟩

/-- **The line of an element** is read, and after it what is below the element. The element is open
for what is indented deeper, and closed with it when something comes at its own indent. -/
theorem reads_tagLine {e : Element} (h : e.Printable) (hstyle : r.style = none) {l : Line}
    (hl : l.text = tagLine e) :
    (r.step l).style = none ∧
      ∀ {deeper : Nat} {cs : List Node} {r' : Reading}, l.indent < deeper →
        Reads deeper cs (r.step l) r' →
          Reads l.indent [.element { e with position := l.position } cs] r r' := by
  have hstep : r.step l = (r.close l.indent).addElement l (parts e) := by
    rw [Reading.step, not_inStyle hstyle, Reading.plainLine, hl, ofText_tagLine h]
    rfl
  rw [hstep, Reading.addElement_eq, elementOf_parts h]
  refine ⟨rfl, fun {deeper cs r'} hdeeper hcs => ?_⟩
  refine ⟨?_, hcs.style, hcs.states, hcs.handlers.trans ?_, hcs.errors.trans ?_⟩
  · -- Closing at the indent of the line first closes what is deeper, which is known.
    calc r'.scopes.close l.indent
        = (r'.scopes.close deeper).close l.indent :=
          (Scopes.close_close (Nat.le_of_lt hdeeper) _).symm
      _ = (((r.scopes.close l.indent).push l.indent { e with position := l.position }).attachAll
            cs).close l.indent := by
          rw [hcs.scopes, Scopes.close_push hdeeper]
          rfl
      _ = _ := Scopes.close_attachAll_push l.indent _ cs r.scopes
  · rw [h.handlers]
    exact List.append_nil _
  · exact anyError_append (List.forall_mem_append.mpr
      ⟨severity_of_mem_tagNotices h l, severity_of_mem_voidNotice⟩)

/-- **The lines of a forest** are read. The induction is on the forest, for every depth, since the
children of an element are one level deeper, and for every reading before them. -/
theorem reads_linesAll {ns : List Node} (h : ∀ i ∈ Node.items ns, i.Printable)
    (depth number : Nat) (hstyle : r.style = none) :
    ∃ ms, Node.unplacedAll ms = Node.unplacedAll ns ∧
      Reads (2 * depth) ms r
        ((Line.ofRaws number (linesAll depth ns)).foldl Reading.step r) := by
  induction ns using Node.forest_induction generalizing depth number r with
  | nil => exact ⟨[], rfl, reads_nil hstyle⟩
  | element e cs ns ihc ih =>
    rw [Node.items_element, List.forall_mem_cons, List.forall_mem_append] at h
    obtain ⟨he, hcs, hns⟩ := h
    have hlines : linesAll depth (.element e cs :: ns) =
        (List.replicate (2 * depth) (octet ' ') ++ tagLine e) ::
          (linesAll (depth + 1) cs ++ linesAll depth ns) := rfl
    rw [hlines, Line.ofRaws, ofRaw?_tagLine he]
    dsimp only
    rw [Line.ofRaws_append, List.foldl_cons, List.foldl_append]
    obtain ⟨hstep, hread⟩ := reads_tagLine he hstyle (l := ⟨number, 2 * depth, tagLine e⟩) rfl
    obtain ⟨cs', hcs', hreadc⟩ := ihc hcs (depth + 1) (number + 1) hstep
    have hreade := hread (show 2 * depth < 2 * (depth + 1) by omega) hreadc
    obtain ⟨ns', hns', hreadn⟩ := ih hns depth (number + 1 + (linesAll (depth + 1) cs).length)
      hreade.style
    refine ⟨.element _ cs' :: ns', ?_, hreade.trans hreadn⟩
    simp only [Node.unplacedAll, Node.unplaced, hcs', hns']
  | text t ns ih =>
    rw [Node.items_text, List.forall_mem_cons] at h
    obtain ⟨ht, hns⟩ := h
    have hlines : linesAll depth (.text t :: ns) =
        (List.replicate (2 * depth) (octet ' ') ++ textLine t) :: linesAll depth ns := rfl
    rw [hlines, Line.ofRaws, ofRaw?_textLine ht]
    dsimp only
    rw [List.foldl_cons]
    have hreadt := reads_textLine ht hstyle (l := ⟨number, 2 * depth, textLine t⟩) rfl
    obtain ⟨ns', hns', hreadn⟩ := ih hns depth (number + 1) hreadt.style
    refine ⟨.text _ :: ns', ?_, hreadt.trans hreadn⟩
    simp only [Node.unplacedAll, Node.unplaced, hns']
  | comment ns ih => exact (h .comment (by simp)).elim

end Reads

theorem feed_notMem_indented {s : Bytes} (hs : Tidy s) (indent : Nat) :
    octet '\n' ∉ List.replicate indent (octet ' ') ++ s := by
  rw [List.mem_append, List.mem_replicate, not_or, not_and]
  exact ⟨fun _ => by decide, (isOneLiner_iff.mp hs.oneLiner).2⟩

/-- The lines of a forest have no line feeds of their own. -/
theorem feed_notMem_linesAll {ns : List Node} (h : ∀ i ∈ Node.items ns, i.Printable) (depth : Nat) :
    ∀ l ∈ linesAll depth ns, octet '\n' ∉ l := by
  induction ns using Node.forest_induction generalizing depth with
  | nil => exact fun l hl => absurd hl List.not_mem_nil
  | element e cs ns ihc ih =>
    rw [Node.items_element, List.forall_mem_cons, List.forall_mem_append] at h
    refine List.forall_mem_cons.mpr ⟨feed_notMem_indented (tidy_tagLine h.1) (2 * depth), ?_⟩
    exact List.forall_mem_append.mpr ⟨ihc h.2.1 (depth + 1), ih h.2.2 depth⟩
  | text t ns ih =>
    rw [Node.items_text, List.forall_mem_cons] at h
    exact List.forall_mem_cons.mpr
      ⟨feed_notMem_indented (tidy_textLine h.1) (2 * depth), ih h.2 depth⟩
  | comment ns ih => exact (h .comment (by simp)).elim

end Print

namespace SourceTree

theorem severity_of_mem_undeclared {states : StateTable} {nodes : List Node}
    {handlers : List Handler} :
    ∀ w ∈ undeclaredBindings states nodes ++ undeclaredTargets states handlers,
      w.severity = .warning := by
  intro w hw
  rcases List.mem_append.mp hw with hw | hw
  · obtain ⟨x, p, -, -, rfl⟩ := mem_undeclaredBindings.mp hw
    rfl
  · obtain ⟨x, event, hproblem⟩ := problem_of_mem_undeclaredTargets hw
    rw [Diagnostic.severity, hproblem]
    rfl

/-- **Printing is undone by reading.** A forest that can be printed is the forest of its lines, but
for the positions; nothing is declared or handled, and nothing is wrong. -/
theorem printing_is_undone (ns : List Node) (h : ∀ i ∈ Node.items ns, i.Printable) :
    ∀ ending ∈ [[], utf8 "\n"],
      let t := ofSource (List.intercalate (utf8 "\n") (Print.linesAll 0 ns) ++ ending)
      Node.unplacedAll t.nodes = Node.unplacedAll ns ∧ t.states.declarations = [] ∧
        t.handlers = [] ∧ Diagnostic.anyError t.diagnostics = false := by
  intro ending hending t
  obtain ⟨ms, hms, hread⟩ := Print.reads_linesAll (r := {}) h 0 1 rfl
  have hlines := Line.ofSource_intercalate (Print.feed_notMem_linesAll h 0) hending
  have ht : t = ofReading ((Line.ofRaws 1 (Print.linesAll 0 ns)).foldl Reading.step {}) := by
    rw [← hlines]
    rfl
  -- Nothing is open at the start, so the forest is what is left at the end.
  have hscopes : Scopes.attachAll ms (Scopes.close 0 {}) = ⟨ms, []⟩ := by
    rw [Scopes.close_nil, Scopes.attachAll_of_closed, List.nil_append]
  have hnodes : t.nodes = ms := by
    rw [ht]
    exact congrArg Scopes.nodes (hread.scopes.trans hscopes)
  refine ⟨by rw [hnodes, hms], ?_, ?_, ?_⟩
  · rw [ht]
    exact congrArg StateTable.declarations hread.states
  · rw [ht]
    exact hread.handlers
  · rw [ht, ofReading]
    dsimp only
    rw [List.append_assoc, Print.anyError_append severity_of_mem_undeclared, hread.errors]
    rfl

/-- A forest whose texts look like markup: quotes, brackets, commas and colons in a value, a comment
mark in a text, an empty text, and an element whose tag is that of a style block. -/
def lookalikes : List Node :=
  [.element
      { tag := utf8 "div"
        classes := [utf8 "card", utf8 "on"]
        attributes := [⟨utf8 "title", utf8 "a, b: \")\\"⟩, ⟨utf8 "_x", []⟩]
        text := utf8 "Grüße \x7b"
        binding := some (utf8 "state") }
      [.text { text := utf8 "// \"none\"" },
        .element { tag := utf8 "style", binding := some (utf8 "x") } [.text { text := [] }]],
    .element { tag := utf8 "br" } []]

/-- The lines of that forest. -/
def lookalikeLines : List Bytes :=
  ["div.card.on(title: \"a, b: \\\")\\\\\", _x: \"\") \"Grüße \x7b\" state",
    "  \"// \\\"none\\\"\"",
    "  style x",
    "    \"\"",
    "br"].map utf8

theorem printing_is_undone_lookalikes :
    (∀ i ∈ Node.items lookalikes, i.Printable) ∧ Print.linesAll 0 lookalikes = lookalikeLines ∧
      Node.unplacedAll (ofSource (List.intercalate (utf8 "\n") lookalikeLines ++ utf8 "\n")).nodes =
        lookalikes := by
  have hempty : isOneLiner [] := Print.isOneLiner_of_ascii rfl
  have hgreeting : isOneLiner (utf8 "Grüße \x7b") :=
    Print.isOneLiner_iff.mpr
      ⟨Utf8.isValid_iff.mpr ⟨"Grüße \x7b".toList, by decide +kernel⟩, by decide +kernel⟩
  have hbare {tag : Bytes} {x : Option Bytes} (htag : isTag tag) (hstate : tag ≠ utf8 "state")
      (hx : ∀ y, x = some y → isBinding y) : ({ tag, binding := x } : Element).Printable :=
    ⟨rfl, htag, hstate, by simp, by simp, by simp, by simp, by simp, hempty, hx, rfl, rfl⟩
  have hprintable : ∀ i ∈ Node.items lookalikes, i.Printable := by
    refine List.forall_mem_cons.mpr ⟨?_, List.forall_mem_cons.mpr ⟨?_, List.forall_mem_cons.mpr
      ⟨?_, List.forall_mem_cons.mpr ⟨?_, List.forall_mem_cons.mpr ⟨?_, by simp⟩⟩⟩⟩⟩
    · exact {
        standard := rfl
        tag := by decide
        tag_ne_state := by decide
        classes := by decide +kernel
        nodup_classes := by decide
        keys := by decide +kernel
        nodup_keys := by decide
        values := by
          refine List.forall_mem_cons.mpr ⟨?_, List.forall_mem_singleton.mpr hempty⟩
          exact Print.isOneLiner_of_ascii (by decide +kernel)
        text := hgreeting
        binding := by
          rintro _ ⟨⟩
          decide
        style := rfl
        handlers := rfl }
    · exact ⟨Print.isOneLiner_of_ascii (by decide +kernel), by simp⟩
    · refine hbare (by decide) (by decide) ?_
      rintro _ ⟨⟩
      decide
    · exact ⟨hempty, by simp⟩
    · exact hbare (by decide) (by decide) (by simp)
  have hlines : Print.linesAll 0 lookalikes = lookalikeLines := by decide +kernel
  have hundone := (printing_is_undone lookalikes hprintable (utf8 "\n") (by simp)).1
  rw [hlines] at hundone
  exact ⟨hprintable, hlines, hundone⟩

end SourceTree

end LiveMarkup
