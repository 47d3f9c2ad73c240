import LiveMarkup.Proofs.Statement
import LiveMarkup.Proofs.Text.Blank
import LiveMarkup.Proofs.Text.Nesting
import LiveMarkup.Proofs.Text.Quoted
import LiveMarkup.Proofs.Tree.Spelling

/-!
# Printing a forest

Every node is printed on a line of its own, two spaces deeper than its parent: a tag with its
classes, its attributes in parentheses, its text in quotes and its binding, or a text in quotes and
its binding. `LiveMarkup.Print.linesAll` is the list of the lines.

A forest can be printed if its tags, classes, keys and bindings have the form that the language asks
for and its texts are well-formed and on one line (`LiveMarkup.Element.Printable`,
`LiveMarkup.TextRun.Printable`). This file is about one line: a printed line is taken for what was
printed (`LiveMarkup.Print.ofText_tagLine`, `LiveMarkup.Print.ofText_textLine`), and its parts are
those that were printed. The parts are taken off the front one by one, and what comes next always
starts with an octet that cannot go on with the part before it.
-/

namespace LiveMarkup

/-! ### What can be printed -/

/-- Whether a text is well-formed and on one line. -/
def isOneLiner (t : Bytes) : Bool := Utf8.isValid t && octet '\n' ∉ t

/-- **An element can be printed**: its parts have the form that the language asks for, it has no
style and no handlers, and it is taken for the standard element of its tag, as every element of a
source is. -/
structure Element.Printable (e : Element) : Prop where
  standard : e.standard
  tag : isTag e.tag
  tag_ne_state : e.tag ≠ utf8 "state"
  classes : ∀ c ∈ e.classes, c ≠ [] ∧ isName c
  nodup_classes : e.classes.Nodup
  keys : ∀ a ∈ e.attributes, isKey a.key ∧ isReserved a.key = false ∧
    a.key ∉ [utf8 "on", utf8 "class", utf8 "style"]
  nodup_keys : (e.attributes.map Attribute.key).Nodup
  values : ∀ a ∈ e.attributes, isOneLiner a.value
  text : isOneLiner e.text
  binding : ∀ x, e.binding = some x → isBinding x
  style : e.style = []
  handlers : e.handlers = []

/-- **A text run can be printed**, whatever its text is but for line feeds. -/
structure TextRun.Printable (t : TextRun) : Prop where
  text : isOneLiner t.text
  binding : ∀ x, t.binding = some x → isBinding x

namespace Print

/-! ### Lines -/

/-- A text in double quotes, with a backslash in front of quotes and backslashes. -/
def quote (t : Bytes) : Bytes := Quoted.literal (octet '"') t

/-- An attribute as it is printed. -/
def entry (a : Attribute) : Bytes := a.key ++ utf8 ": " ++ quote a.value

/-- The attributes between the parentheses. -/
def entries (as : List Attribute) : Bytes := List.intercalate (utf8 ", ") (as.map entry)

/-- The attributes, if there are any. -/
def list (as : List Attribute) : Bytes :=
  if as.isEmpty then [] else utf8 "(" ++ entries as ++ utf8 ")"

/-- The text of an element, if it has one. -/
def text (t : Bytes) : Bytes := if t.isEmpty then [] else utf8 " " ++ quote t

/-- A binding, if there is one. -/
def binding : Option Bytes → Bytes
  | none => []
  | some x => utf8 " " ++ x

/-- The classes of an element. -/
def classes (cs : List Bytes) : Bytes := cs.flatMap fun c => utf8 "." ++ c

/-- The line of an element. -/
def tagLine (e : Element) : Bytes :=
  e.tag ++ classes e.classes ++ list e.attributes ++ text e.text ++ binding e.binding

/-- The line of a text run. -/
def textLine (t : TextRun) : Bytes := quote t.text ++ binding t.binding

mutual

/-- The lines of a node at some depth. -/
def lines (depth : Nat) : Node → List Bytes
  | .element e cs =>
    (List.replicate (2 * depth) (octet ' ') ++ tagLine e) :: linesAll (depth + 1) cs
  | .text t => [List.replicate (2 * depth) (octet ' ') ++ textLine t]
  | .comment => []

/-- The lines of a forest at some depth. -/
def linesAll (depth : Nat) : List Node → List Bytes
  | [] => []
  | n :: ns => lines depth n ++ linesAll depth ns

end

/-- The parts of the line of an element. -/
def parts (e : Element) : TagLine where
  tag := e.tag
  shorthands := e.classes.map .className
  attributes := if e.attributes.isEmpty then none else some ⟨entries e.attributes, true⟩
  text := if e.text.isEmpty then none else some e.text
  binding := e.binding

/-! ### Names -/

theorem isName_of_isBinding {x : Bytes} (h : isBinding x) : isName x :=
  List.all_eq_true.mpr fun b hb => by
    rw [isNameOctet, forall_mem_isIdentOctet_of_isBinding h b hb, Bool.true_or]

section NameOctet

variable {b : UInt8}

/-- No octet of a name is one of some others. -/
theorem eq_false_of_isNameOctet {p : UInt8 → Bool} (bs : List UInt8) (hp : ∀ c, p c → c ∈ bs)
    (hbs : bs.all fun c => !isNameOctet c) (h : isNameOctet b) : p b = false := by
  refine Bool.eq_false_iff.mpr fun hb => ?_
  have hname := List.all_eq_true.mp hbs b (hp b hb)
  rw [h] at hname
  exact absurd hname (by decide)

theorem isGapOctet_of_isNameOctet (h : isNameOctet b) : isGapOctet b = false :=
  eq_false_of_isNameOctet [octet ' ', octet '\t', octet '\r', 0x0c, 0x0b]
    (by simp [isGapOctet, or_assoc]) (by decide) h

theorem isQuote_of_isNameOctet (h : isNameOctet b) : Quoted.isQuote b = false :=
  eq_false_of_isNameOctet [octet '"', octet '\''] (by simp [Quoted.isQuote]) (by decide) h

theorem isPatternBlank_of_isNameOctet (h : isNameOctet b) : isPatternBlank b = false :=
  eq_false_of_isNameOctet [octet ' ', octet '\t', octet '\n', octet '\r', 0x0c]
    (by simp [isPatternBlank, or_assoc]) (by decide) h

theorem toNat_of_isNameOctet (h : isNameOctet b) : 45 ≤ b.toNat ∧ b.toNat ≤ 122 := by
  rw [isNameOctet, Bool.or_eq_true] at h
  rcases h with hident | hdash
  · have hrange := toNat_of_isIdentOctet hident
    omega
  · obtain rfl := eq_of_beq hdash
    decide

theorem isSolid_of_isNameOctet (h : isNameOctet b) : isSolid b := by
  have hrange := toNat_of_isNameOctet h
  have hchar : (Char.ofNat b.toNat).toNat = b.toNat := Utf8.toNat_ofNat_of_lt (by omega)
  simp [isSolid, isBlank, inIntervals, blankIntervals, hchar]
  omega

end NameOctet

/-! ### Attribute lists -/

section Calm

variable {stop : Nesting → UInt8 → Bool} {parens : Nat}

/-- The octets that have a meaning in a list outside quotes. -/
def listMarks : List UInt8 := octet ',' :: Nesting.marks

theorem avoids_listMarks_of_isName {s : Bytes} (h : isName s) : avoids listMarks s :=
  avoids_of_all (by decide) h

theorem avoids_marks {s : Bytes} (h : avoids listMarks s) : avoids Nesting.marks s :=
  avoids_iff.mpr fun b hb hmem => avoids_iff.mp h b hb (List.mem_cons_of_mem _ hmem)

/-- **A printed attribute is calm** for a run that stops at commas and brackets only. -/
theorem calm_entry (hplain : ∀ b, b ∉ listMarks → stop (Nesting.level parens) b = false)
    (hquote : stop (Nesting.level parens) (octet '"') = false)
    (hinside : ∀ escaped b, stop (Nesting.quoted parens (octet '"') escaped) b = false)
    {a : Attribute} (ha : isKey a.key) : Nesting.Calm stop parens (entry a) := by
  have hcalm {s : Bytes} (hs : avoids listMarks s) : Nesting.Calm stop parens s :=
    Nesting.Calm.of_avoids (avoids_marks hs) fun b hb => hplain b (avoids_iff.mp hs b hb)
  have hkey := hcalm (avoids_listMarks_of_isName (isName_of_isKey ha))
  have hcolon : Nesting.Calm stop parens (utf8 ": ") := hcalm (by decide)
  exact (hkey.append hcolon).append
    (Nesting.Calm.literal (by decide) (by decide) hquote hinside a.value)

/-- Printed attributes do not close the list that they are in. -/
theorem calm_entries {as : List Attribute} (h : ∀ a ∈ as, isKey a.key) :
    Nesting.Calm Nesting.stopsClose 1 (entries as) := by
  have hsep : Nesting.Calm Nesting.stopsClose 1 (utf8 ", ") := by
    have havoids : avoids Nesting.marks (utf8 ", ") := by decide
    exact Nesting.Calm.of_avoids havoids fun b hb =>
      Nesting.stopsClose_of_notMem (avoids_iff.mp havoids b hb)
  refine Bytes.intercalate_induction Nesting.Calm.nil Nesting.Calm.append hsep
    (List.forall_mem_map.mpr fun a ha => ?_)
  refine calm_entry (fun b hb => ?_) (Nesting.stopsClose_quote (by decide))
    (Nesting.stopsClose_quoted (by decide)) (h a ha)
  exact Nesting.stopsClose_of_notMem fun hmem => hb (List.mem_cons_of_mem _ hmem)

end Calm

/-! ### The parts of a line -/

section Heads

variable {p : UInt8 → Bool}

theorem head?_tail (hspace : p (octet ' ') = false) (t : Bytes) (x : Option Bytes) :
    (text t ++ binding x).head?.any p = false := by
  rw [text]
  split
  · cases x with
    | none => rfl
    | some x => exact hspace
  · exact hspace

theorem head?_list_append (hparen : p (octet '(') = false) (hspace : p (octet ' ') = false)
    (as : List Attribute) (t : Bytes) (x : Option Bytes) :
    (list as ++ (text t ++ binding x)).head?.any p = false := by
  rw [list]
  split
  · exact head?_tail hspace t x
  · exact hparen

theorem head?_classes_append (hdot : p (octet '.') = false) {r : Bytes}
    (hr : r.head?.any p = false) (cs : List Bytes) : (classes cs ++ r).head?.any p = false := by
  cases cs with
  | nil => exact hr
  | cons c cs => exact hdot

end Heads

/-- **The classes of a line are taken off.** -/
theorem takeAll?_classes {cs : List Bytes} (hcs : ∀ c ∈ cs, c ≠ [] ∧ isName c) {r : Bytes}
    (hname : r.head?.any isNameOctet = false)
    (hmark : r.head?.any (fun b => b == octet '.' || b == octet '#') = false) :
    Shorthand.takeAll? (classes cs ++ r) = some (cs.map .className, r) := by
  induction cs with
  | nil =>
    rw [classes, List.flatMap_nil, List.nil_append, Shorthand.takeAll?.eq_def]
    cases r with
    | nil => rfl
    | cons b r =>
      have hb : b ≠ octet '.' ∧ b ≠ octet '#' := by simpa using hmark
      dsimp only
      rw [Shorthand.ofMark?, if_neg hb.1, if_neg hb.2]
      rfl
  | cons c cs ih =>
    rw [List.forall_mem_cons] at hcs
    -- The next class starts with a dot, which is no part of a name.
    have hrest : (classes cs ++ r).head?.any isNameOctet = false :=
      head?_classes_append (by decide) hname cs
    have hall := List.all_eq_true.mp hcs.1.2
    have hline : classes (c :: cs) ++ r = octet '.' :: (c ++ (classes cs ++ r)) := by
      simp [classes]
      rfl
    rw [hline, Shorthand.takeAll?.eq_def]
    dsimp only
    rw [takeWhile_append_of_boundary hall hrest, dropWhile_append_of_boundary hall hrest,
      Shorthand.ofMark?, if_pos rfl]
    dsimp only
    rw [if_neg (by simpa using hcs.1.1), ih hcs.2]
    rfl

/-- **The attributes of a line are taken off.** -/
theorem take_list {as : List Attribute} (h : ∀ a ∈ as, isKey a.key) (t : Bytes)
    (x : Option Bytes) : AttributeList.take (list as ++ (text t ++ binding x)) =
      (if as.isEmpty then none else some ⟨entries as, true⟩, text t ++ binding x) := by
  cases as with
  | nil =>
    -- What follows starts with a space, if it is anything.
    have hhead := head?_tail (p := (· == octet '(')) (by decide) t x
    rw [list, List.isEmpty_nil, if_pos rfl, List.nil_append]
    cases hrest : text t ++ binding x with
    | nil => rfl
    | cons b r =>
      have hb : b ≠ octet '(' := by simpa [hrest] using hhead
      rw [AttributeList.take, if_neg hb]
      rfl
  | cons a as =>
    have hline : list (a :: as) ++ (text t ++ binding x) =
        octet '(' :: (entries (a :: as) ++ octet ')' :: (text t ++ binding x)) := by
      simp [list]
      rfl
    rw [hline, AttributeList.take, if_pos rfl, Nesting.close?_of_calm (calm_entries h)]
    rfl

section Tail

variable {t : Bytes} {x : Option Bytes}

theorem content_quote (ht : isOneLiner t) : Quoted.content (quote t) = t := by
  rw [isOneLiner, Bool.and_eq_true, decide_eq_true_eq] at ht
  exact Quoted.content_literal (by decide) ht.1

/-- What is false of the octets of names is false of the first octet of a binding. -/
theorem head?_getD {p : UInt8 → Bool} (hp : ∀ b, isNameOctet b → p b = false)
    (hx : ∀ y, x = some y → isBinding y) : (x.getD []).head?.any p = false := by
  cases x with
  | none => rfl
  | some y =>
    cases y with
    | nil => rfl
    | cons b y =>
      exact hp b (List.all_eq_true.mp (isName_of_isBinding (hx _ rfl)) b List.mem_cons_self)

/-- The space in front of a binding is skipped. -/
theorem dropWhile_binding {p : UInt8 → Bool} (hspace : p (octet ' '))
    (hp : ∀ b, isNameOctet b → p b = false) (hx : ∀ y, x = some y → isBinding y) :
    (binding x).dropWhile p = x.getD [] := by
  cases x with
  | none => rfl
  | some y =>
    have hhead := head?_getD hp hx
    exact dropWhile_append_of_boundary (w := [octet ' ']) (List.forall_mem_singleton.mpr hspace)
      hhead

theorem skipGap_binding (hx : ∀ y, x = some y → isBinding y) :
    skipGap (binding x) = x.getD [] :=
  dropWhile_binding (by decide) (fun _ => isGapOctet_of_isNameOctet) hx

/-- **A binding is taken off.** -/
theorem takeBind_getD (hx : ∀ y, x = some y → isBinding y) : takeBind (x.getD []) = (x, []) := by
  cases x with
  | none => rfl
  | some y =>
    have hword : takeBinding y = (y, []) := by
      have htake := takeWord_append_of_isWord (s := []) (hx y rfl) rfl
      rwa [List.append_nil] at htake
    have hne : y.isEmpty = false := by simpa using ne_nil_of_isWord (hx y rfl)
    rw [Option.getD_some, takeBind, hword]
    dsimp only
    rw [if_neg (by simp [hne])]
    rfl

/-- **The text of an element is taken off.** -/
theorem takeText?_text (ht : isOneLiner t) (hx : ∀ y, x = some y → isBinding y) :
    takeText? (skipGap (text t ++ binding x)) =
      some (if t.isEmpty then none else some t, x.getD []) := by
  rw [text]
  split
  · have hhead := head?_getD (fun _ => isQuote_of_isNameOctet) hx
    rw [List.nil_append, skipGap_binding hx, takeText?, if_neg (by simp [hhead])]
  · have hgap : skipGap (utf8 " " ++ quote t ++ binding x) = quote t ++ binding x := rfl
    have htake := Quoted.take?_literal (q := octet '"') (by decide) t (binding x)
    have hhead : (quote t ++ binding x).head?.any Quoted.isQuote = true := rfl
    rw [hgap, takeText?, if_pos hhead, show Quoted.take? (quote t ++ binding x) = _ from htake]
    dsimp only
    rw [skipGap_binding hx, show Quoted.content (Quoted.literal _ t) = t from content_quote ht]

end Tail

section TagLine

variable {e : Element}

/-- What follows the tag on the line of an element. -/
def rest (e : Element) : Bytes :=
  classes e.classes ++ (list e.attributes ++ (text e.text ++ binding e.binding))

theorem tagLine_eq (e : Element) : tagLine e = e.tag ++ rest e := by
  simp [tagLine, rest]

theorem head?_rest {p : UInt8 → Bool} (hdot : p (octet '.') = false)
    (hparen : p (octet '(') = false) (hspace : p (octet ' ') = false) :
    (rest e).head?.any p = false :=
  head?_classes_append hdot (head?_list_append hparen hspace _ _ _) _

/-- The tag is taken off the line of an element. -/
theorem takeTag_tagLine (h : e.Printable) : takeTag (tagLine e) = (e.tag, rest e) := by
  rw [tagLine_eq]
  exact takeWord_append_of_isWord h.tag (head?_rest (by decide) (by decide) (by decide))

/-- **A printed element is taken apart into its parts.** -/
theorem parse?_tagLine (h : e.Printable) : TagLine.parse? (tagLine e) = some (parts e) := by
  have htag : e.tag.isEmpty = false := by simpa using ne_nil_of_isWord h.tag
  have hclasses : Shorthand.takeAll? (rest e) = some (e.classes.map .className, _) :=
    takeAll?_classes h.classes (head?_list_append (by decide) (by decide) _ _ _)
      (head?_list_append (by decide) (by decide) _ _ _)
  rw [TagLine.parse?, takeTag_tagLine h]
  dsimp only
  rw [if_neg (by simp [htag]), hclasses]
  dsimp only
  rw [take_list fun a ha => (h.keys a ha).1]
  dsimp only
  rw [takeText?_text h.text h.binding]
  dsimp only
  rw [takeBind_getD h.binding]
  rfl

end TagLine

/-- **A printed text run is taken apart into its parts.** -/
theorem parse?_textLine {t : TextRun} (h : t.Printable) :
    TextLine.parse? (textLine t) = some ⟨t.text, t.binding⟩ := by
  have htake := Quoted.take?_literal (q := octet '"') (by decide) t.text (binding t.binding)
  rw [TextLine.parse?, show Quoted.take? (textLine t) = _ from htake]
  dsimp only
  rw [skipGap_binding h.binding, takeBind_getD h.binding]
  have hcontent := content_quote h.text
  rw [quote] at hcontent
  rw [hcontent]
  rfl

/-! ### The kinds of printed lines -/

section Kinds

variable {e : Element}

/-- **No printed element starts like a state declaration**: the word in front would be its tag. -/
theorem isStateLine_tagLine (h : e.Printable) : LineKind.isStateLine (tagLine e) = false := by
  have hnone (gap : UInt8) (hgap : isTagOctet gap = false) {r : Bytes}
      (hr : tagLine e = utf8 "state" ++ (gap :: r)) : False := by
    have htake := takeTag_tagLine h
    have hstate : takeTag (utf8 "state" ++ (gap :: r)) = (utf8 "state", gap :: r) :=
      takeWord_append_of_isWord (by decide) (by simpa using hgap)
    rw [hr, hstate] at htake
    exact h.tag_ne_state (congrArg Prod.fst htake).symm
  rw [LineKind.isStateLine, Bool.or_eq_false_iff, Option.isSome_eq_false_iff,
    Option.isSome_eq_false_iff, Option.isNone_iff_eq_none, Option.isNone_iff_eq_none]
  constructor
  · refine Option.eq_none_iff_forall_not_mem.mpr fun r hr => ?_
    have hline : tagLine e = utf8 "state " ++ r := Bytes.eq_of_after? hr
    exact hnone (octet ' ') (by decide) hline
  · refine Option.eq_none_iff_forall_not_mem.mpr fun r hr => ?_
    have hline : tagLine e = utf8 "state\t" ++ r := Bytes.eq_of_after? hr
    exact hnone (octet '\t') (by decide) hline

/-- No brace is the first thing after the tag. -/
theorem head?_dropWhile_rest (h : e.Printable) :
    ((rest e).dropWhile isPatternBlank).head?.any (· == 0x7b) = false := by
  have hbrace (b : UInt8) (hb : isNameOctet b) : (b == 0x7b) = false :=
    eq_false_of_isNameOctet [0x7b] (p := (· == 0x7b)) (by simp) (by decide) hb
  rw [rest]
  cases e.classes with
  | cons c cs => rfl
  | nil =>
    cases e.attributes with
    | cons a as => rfl
    | nil =>
      rw [text]
      split
      · have hdrop := dropWhile_binding (p := isPatternBlank) (by decide)
          (fun _ => isPatternBlank_of_isNameOctet) h.binding
        exact (congrArg (fun s => s.head?.any (· == 0x7b)) hdrop).trans
          (head?_getD hbrace h.binding)
      · rfl

/-- **No printed element is a style directive**: the word in front would be its tag, and a brace
would follow. -/
theorem directive?_tagLine (h : e.Printable) : Style.Directive.parse? (tagLine e) = none := by
  rw [Style.Directive.parse?]
  split
  · rfl
  rename_i r hr
  split
  · rfl
  rename_i b t ht
  rw [if_neg]
  rintro rfl
  -- Neither a blank nor a brace goes on with a tag, so the tag ends after `style`.
  have hhead : r.head?.any isTagOctet = false := by
    cases r with
    | nil => rfl
    | cons c r =>
      refine Bool.eq_false_iff.mpr fun hc => ?_
      have hname := isNameOctet_of_isTagOctet hc
      rw [List.dropWhile_cons_of_neg (by simp [isPatternBlank_of_isNameOctet hname])] at ht
      obtain rfl := (List.cons.inj ht).1
      exact absurd hname (by decide)
  have htake := takeTag_tagLine h
  have hstyle : takeTag (utf8 "style" ++ r) = (utf8 "style", r) :=
    takeWord_append_of_isWord (by decide) hhead
  rw [Bytes.eq_of_after? hr, hstyle] at htake
  have hrest : r = rest e := congrArg Prod.snd htake
  have hbrace := head?_dropWhile_rest h
  rw [← hrest, ht] at hbrace
  exact absurd hbrace (by simp)

/-- The line of an element starts with an octet of a name. -/
theorem exists_tagLine_eq_cons (h : e.Printable) : ∃ b s, tagLine e = b :: s ∧ isNameOctet b := by
  obtain ⟨b, s, hs⟩ := List.exists_cons_of_ne_nil (ne_nil_of_isWord h.tag)
  have hname := List.all_eq_true.mp (isName_of_isTag h.tag) b (by simp [hs])
  exact ⟨b, s ++ rest e, by rw [tagLine_eq, hs, List.cons_append], hname⟩

/-- **A printed element is a tag line** with its parts. -/
theorem ofText_tagLine (h : e.Printable) : LineKind.ofText (tagLine e) = .tag (parts e) := by
  obtain ⟨b, s, hs, hb⟩ := exists_tagLine_eq_cons h
  have hclosing : LineKind.isClosing (tagLine e) = false := by
    have hbrace : b ≠ 0x7d := by
      rintro rfl
      exact absurd hb (by decide)
    rw [hs, LineKind.isClosing, List.all_cons, isGapOctet_of_isNameOctet hb, beq_false_of_ne hbrace]
    rfl
  have hquote : (tagLine e).head?.any Quoted.isQuote = false := by
    rw [hs]
    exact isQuote_of_isNameOctet hb
  rw [LineKind.ofText, hclosing, isStateLine_tagLine h, directive?_tagLine h, hquote,
    parse?_tagLine h]
  rfl

/-- **A printed text run is a text line** with its parts. -/
theorem ofText_textLine {t : TextRun} (h : t.Printable) :
    LineKind.ofText (textLine t) = .text ⟨t.text, t.binding⟩ := by
  rw [LineKind.ofText, show LineKind.isClosing (textLine t) = false from rfl,
    show LineKind.isStateLine (textLine t) = false from rfl,
    show Style.Directive.parse? (textLine t) = none from rfl,
    show (textLine t).head?.any Quoted.isQuote = true from rfl, parse?_textLine h]
  rfl

end Kinds

end Print

end LiveMarkup
