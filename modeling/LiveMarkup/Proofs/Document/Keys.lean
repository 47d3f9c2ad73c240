import LiveMarkup.Proofs.Document.Tags
import LiveMarkup.Proofs.Tree.Regular

/-!
# The names of attributes

A browser reads the name of an attribute in small letters, and of two attributes with one name it
drops the second. `LiveMarkup.Tag.names` are the names that are read in a start tag, and
`LiveMarkup.Tag.names_startText` says that these are the keys of the attributes, without their case.

The attributes of an element come from its classes, its list, its style and its handlers, and each
key is written where it is asked for first (`LiveMarkup.Document.map_key_attributes`). So the keys
in a start tag are all different, but the case of letters counts here. The names are different too
exactly if every element is as `LiveMarkup.Element.FoldsApart` says
(`LiveMarkup.Document.attribute_names`).

All keys but those of the list are in small letters. A clash thus has a key of the list in it, with
a capital letter, and a mark of the generator is never part of one, because the keys of a list are
compared with the marks without regard to case.
-/

namespace LiveMarkup

/-- A key in small letters. -/
def folded (key : Bytes) : Bytes := key.map lowerOctet

theorem ne_of_isNameOctet {b c : UInt8} (hb : isNameOctet b) (hc : isNameOctet c = false) :
    b ≠ c := by
  rintro rfl
  rw [hb] at hc
  cases hc

/-! ### Reading a start tag -/

theorem Markup.writeAttributes_cons (a : Attribute) (as : List Attribute) :
    writeAttributes (a :: as) = octet ' ' :: (a.key ++ octet '=' ::
      (octet '"' :: (escape a.value ++ octet '"' :: writeAttributes as))) := by
  simp [writeAttributes]
  rfl

theorem Markup.quote_notMem_escape (s : Bytes) : octet '"' ∉ escape s := by
  have hoctet (b : UInt8) : octet '"' ∉ escapeOctet b := by
    rw [escapeOctet]
    split_ifs with _ _ _ _ hquote
    any_goals decide
    simpa using Ne.symm hquote
  intro h
  obtain ⟨b, -, hb⟩ := List.mem_flatMap.mp h
  exact hoctet b hb

namespace Tag

/-- Where a reader of a start tag is: between two attributes, in a name of which it has read a part,
behind the sign after a name, or in a value that ends with an octet. -/
inductive Place
  | between
  | name (read : Bytes)
  | sign
  | value (stop : UInt8)

/-- The names of attributes in a start tag, from a place in it on. A value goes up to a second quote
or, without quotes, up to a space. -/
def namesFrom : Place → Bytes → List Bytes
  | .name read, [] => [read]
  | _, [] => []
  | .between, b :: r =>
    if b = octet ' ' ∨ b = octet '/' then namesFrom .between r
    else namesFrom (.name [lowerOctet b]) r
  | .name read, b :: r =>
    if b = octet '=' then read :: namesFrom .sign r
    else if b = octet ' ' ∨ b = octet '/' then read :: namesFrom .between r
    else namesFrom (.name (read ++ [lowerOctet b])) r
  | .sign, b :: r => namesFrom (.value (if Quoted.isQuote b then b else octet ' ')) r
  | .value stop, b :: r => namesFrom (if b = stop then .between else .value stop) r

/-- The names of the attributes in a start tag, which begin at the first space. -/
def names (s : Bytes) : List Bytes := namesFrom .between (s.dropWhile fun b => b != octet ' ')

theorem not_isGap_of_isNameOctet {b : UInt8} (h : isNameOctet b) :
    ¬(b = octet ' ' ∨ b = octet '/') :=
  not_or.mpr ⟨ne_of_isNameOctet h (by decide), ne_of_isNameOctet h (by decide)⟩

theorem namesFrom_name {key : Bytes} (h : isName key) (read r : Bytes) :
    namesFrom (.name read) (key ++ octet '=' :: r) =
      (read ++ folded key) :: namesFrom .sign r := by
  induction key generalizing read with
  | nil => rw [List.nil_append, namesFrom, if_pos rfl, folded, List.map_nil, List.append_nil]
  | cons b key ih =>
    rw [isName, List.all_cons, Bool.and_eq_true] at h
    rw [List.cons_append, namesFrom, if_neg (ne_of_isNameOctet h.1 (by decide)),
      if_neg (not_isGap_of_isNameOctet h.1), ih h.2, List.append_assoc]
    rfl

theorem namesFrom_value {stop : UInt8} {v : Bytes} (h : stop ∉ v) (r : Bytes) :
    namesFrom (.value stop) (v ++ stop :: r) = namesFrom .between r := by
  induction v with
  | nil => rw [List.nil_append, namesFrom, if_pos rfl]
  | cons b v ih =>
    rw [List.mem_cons, not_or] at h
    rw [List.cons_append, namesFrom, if_neg (Ne.symm h.1), ih h.2]

/-- **The names that are read are those that were written**, in small letters. -/
theorem namesFrom_writeAttributes {as : List Attribute}
    (h : ∀ a ∈ as, a.key ≠ [] ∧ isName a.key) :
    namesFrom .between (Markup.writeAttributes as) = as.map fun a => folded a.key := by
  induction as with
  | nil => rfl
  | cons a as ih =>
    rw [List.forall_mem_cons] at h
    obtain ⟨⟨hne, hname⟩, has⟩ := h
    obtain ⟨b, key, hkey⟩ := List.exists_cons_of_ne_nil hne
    have hfirst : isNameOctet b := by
      rw [hkey, isName, List.all_cons, Bool.and_eq_true] at hname
      exact hname.1
    -- The first octet of a key begins a name, so that the key is read as a whole.
    have hstart (r : Bytes) : namesFrom .between (a.key ++ r) =
        namesFrom (.name []) (a.key ++ r) := by
      have hgap := not_isGap_of_isNameOctet hfirst
      rw [hkey, List.cons_append, namesFrom, if_neg hgap, namesFrom,
        if_neg (ne_of_isNameOctet hfirst (by decide)), if_neg hgap]
      rfl
    rw [Markup.writeAttributes_cons, namesFrom, if_pos (Or.inl rfl), hstart, namesFrom_name hname,
      List.nil_append, namesFrom, if_pos (by decide),
      namesFrom_value (Markup.quote_notMem_escape a.value), ih has, List.map_cons]

theorem names_startText {name : Bytes} {as : List Attribute} (hname : isName name)
    (h : ∀ a ∈ as, a.key ≠ [] ∧ isName a.key) :
    names (Markup.startText name as) = as.map fun a => folded a.key := by
  have hfront : ∀ b ∈ utf8 "<" ++ name, (b != octet ' ') = true := by
    refine List.forall_mem_append.mpr ⟨List.forall_mem_singleton.mpr (by decide), fun b hb => ?_⟩
    have hb := List.all_eq_true.mp hname b hb
    refine bne_iff_ne.mpr ?_
    rintro rfl
    exact absurd hb (by decide)
  have hspace : (Markup.writeAttributes as).head?.any (fun b => b != octet ' ') = false := by
    cases as with
    | nil => rfl
    | cons a as =>
      rw [Markup.writeAttributes_cons, List.head?_cons, Option.any_some, bne_self_eq_false]
  rw [names, Markup.startText, dropWhile_append_of_boundary hfront hspace,
    namesFrom_writeAttributes h]

end Tag

/-! ### The keys of an element -/

/-- **Keys can be told apart by their names**: no two keys of the list have one name, none has the
name of the classes or of the style if there are any, and one that has the name for a statement of
the browser is that name, so that the statement goes into the same attribute. -/
structure Element.FoldsApart (e : Element) : Prop where
  own : (e.attributes.map fun a => folded a.key).Nodup
  classes : e.classes ≠ [] → ∀ a ∈ e.attributes, folded a.key ≠ utf8 "class"
  style : e.style ≠ [] → ∀ a ∈ e.attributes, folded a.key ≠ utf8 "style"
  scripts : ∀ h ∈ e.handlers, ¬h.isCompiled → ∀ a ∈ e.attributes,
    folded a.key = utf8 "on" ++ h.event → a.key = utf8 "on" ++ h.event

/-- Keys in small letters are their own names. -/
theorem Element.Regular.foldsApart {e : Element} (h : e.Regular)
    (hlower : ∀ a ∈ e.attributes, folded a.key = a.key) : e.FoldsApart := by
  have hkey {a : Attribute} (ha : a ∈ e.attributes) {k : Bytes} (hfold : folded a.key = k) :
      a.key = k := (hlower a ha).symm.trans hfold
  refine ⟨?_, fun _ a ha hfold => ?_, fun _ a ha hfold => ?_, fun c _ _ a ha => hkey ha⟩
  · rw [List.map_congr_left hlower]
    exact h.keys_nodup
  · exact h.keys a ha (by simp [hkey ha hfold])
  · exact h.keys a ha (by simp [hkey ha hfold])

namespace Document

open Markup Node

theorem map_key_appendScript (key value : Bytes) (as : List Attribute) :
    (appendScript key value as).map Attribute.key =
      if key ∈ as.map Attribute.key then as.map Attribute.key
      else as.map Attribute.key ++ [key] := by
  induction as with
  | nil => rfl
  | cons a as ih =>
    rw [appendScript]
    by_cases ha : a.key = key
    · simp [ha]
    · rw [if_neg ha, List.map_cons, ih, List.map_cons]
      simp only [List.mem_cons, Ne.symm ha, false_or]
      split <;> rfl

/-- The key under which a handler is written. -/
def handlerKey (h : Handler) : Bytes :=
  if h.isCompiled then handlerMark else utf8 "on" ++ h.event

/-- The key that is asked for in front of those of the list. -/
def classKeys (e : Element) : List Bytes := if e.classes.isEmpty then [] else [utf8 "class"]

/-- The keys that are asked for behind those of the list. -/
def laterKeys (e : Element) : List Bytes :=
  (if e.style.isEmpty then [] else [utf8 "style"]) ++ e.handlers.map handlerKey

section Keys

variable {as : List Attribute} {ks : List Bytes} (h : as.map Attribute.key = ks.eraseDups)

include h

theorem map_key_set_of_eq (key value : Bytes) :
    (Attribute.set key value as).map Attribute.key = (ks ++ [key]).eraseDups := by
  rw [Attribute.map_key_set, h, eraseDups_concat]
  simp only [List.mem_eraseDups]

theorem map_key_addHandler_of_eq (id : Nat) (a : Handler) :
    (addHandler id as a).map Attribute.key = (ks ++ [handlerKey a]).eraseDups := by
  rw [addHandler, handlerKey]
  split
  · exact map_key_set_of_eq h _ _
  · rw [map_key_appendScript, h, eraseDups_concat]
    simp only [List.mem_eraseDups]

/-- One step after another, where each step asks for one key. -/
theorem map_key_foldl_of_eq {α : Type} {f : List Attribute → α → List Attribute} {g : α → Bytes}
    (hstep : ∀ {as ks}, as.map Attribute.key = ks.eraseDups →
      ∀ x, (f as x).map Attribute.key = (ks ++ [g x]).eraseDups) (xs : List α) :
    (xs.foldl f as).map Attribute.key = (ks ++ xs.map g).eraseDups := by
  induction xs generalizing as ks with
  | nil => rw [List.foldl_nil, h, List.map_nil, List.append_nil]
  | cons x xs ih =>
    rw [List.foldl_cons, ih (hstep h x), List.append_assoc]
    rfl

end Keys

/-- **Each key is written once**, where it is asked for first. -/
theorem map_key_attributes (id : Nat) (e : Element) :
    (attributes id e).map Attribute.key =
      (classKeys e ++ (e.attributes.map Attribute.key ++ laterKeys e)).eraseDups := by
  have hclasses : (if e.classes.isEmpty then [] else
      [⟨utf8 "class", List.intercalate (utf8 " ") e.classes⟩] : List Attribute).map Attribute.key =
        (classKeys e).eraseDups := by
    rw [classKeys]
    split <;> rfl
  have hstyle {as : List Attribute} {ks : List Bytes} (h : as.map Attribute.key = ks.eraseDups) :
      (if e.style.isEmpty then as else
        Attribute.set (utf8 "style") (Style.text e.style) as).map Attribute.key =
          (ks ++ if e.style.isEmpty then [] else [utf8 "style"]).eraseDups := by
    split
    · rw [List.append_nil]
      exact h
    · exact map_key_set_of_eq h _ _
  have hown := map_key_foldl_of_eq hclasses (g := Attribute.key)
    (fun h a => map_key_set_of_eq h a.key a.value) e.attributes
  have hhandlers := map_key_foldl_of_eq (hstyle hown)
    (fun h a => map_key_addHandler_of_eq h id a) e.handlers
  rw [List.append_assoc, List.append_assoc] at hhandlers
  exact hhandlers

/-! ### Keys without their case -/

theorem mem_classKeys_iff {e : Element} {k : Bytes} :
    k ∈ classKeys e ↔ e.classes ≠ [] ∧ k = utf8 "class" := by
  rw [classKeys]
  split
  · rename_i hempty
    simp [List.isEmpty_iff.mp hempty]
  · rename_i hempty
    simp [mt List.isEmpty_iff.mpr hempty]

theorem mem_laterKeys_iff {e : Element} {k : Bytes} :
    k ∈ laterKeys e ↔ (e.style ≠ [] ∧ k = utf8 "style") ∨ ∃ h ∈ e.handlers, handlerKey h = k := by
  rw [laterKeys, List.mem_append, List.mem_map]
  split
  · rename_i hempty
    simp [List.isEmpty_iff.mp hempty]
  · rename_i hempty
    simp [mt List.isEmpty_iff.mpr hempty]

/-- **What the generator asks for is in small letters.** -/
theorem folded_of_mem {e : Element} (h : e.Regular) {k : Bytes}
    (hk : k ∈ classKeys e ∨ k ∈ laterKeys e) : folded k = k := by
  rw [mem_classKeys_iff, mem_laterKeys_iff] at hk
  rcases hk with ⟨-, rfl⟩ | ⟨-, rfl⟩ | ⟨a, ha, rfl⟩
  · decide
  · decide
  · rw [handlerKey]
    split
    · decide
    · have hevent : folded a.event = a.event := by
        refine (List.map_congr_left fun b hb => ?_).trans (List.map_id _)
        have hupper := List.all_eq_true.mp (h.events a ha).2 b hb
        exact if_neg (by simpa using hupper)
      have hon : folded (utf8 "on") = utf8 "on" := by decide
      rw [folded, List.map_append]
      exact congrArg₂ _ hon hevent

/-- A list of different keys with keys in small letters added to it: what it takes for all of them
to be different in small letters. -/
theorem inj_folded_iff {own added : List Bytes} (hown : own.Nodup)
    (hadded : ∀ k ∈ added, folded k = k) :
    (∀ x, x ∈ own ∨ x ∈ added → ∀ y, y ∈ own ∨ y ∈ added → folded x = folded y → x = y) ↔
      (own.map folded).Nodup ∧ ∀ x ∈ own, ∀ k ∈ added, folded x = k → x = k := by
  rw [List.nodup_map_iff_inj_on hown]
  constructor
  · intro h
    refine ⟨fun x hx y hy => h x (Or.inl hx) y (Or.inl hy), fun x hx k hk hfold => ?_⟩
    exact h x (Or.inl hx) k (Or.inr hk) (hfold.trans (hadded k hk).symm)
  · rintro ⟨hinj, hapart⟩ x (hx | hx) y (hy | hy) hfold
    · exact hinj x hx y hy hfold
    · exact hapart x hx y hy (hfold.trans (hadded y hy))
    · exact (hapart y hy x hx (hfold.symm.trans (hadded x hx))).symm
    · rwa [hadded x hx, hadded y hy] at hfold

/-- **The names of an element are different exactly if its keys are told apart by them.** -/
theorem nodup_folded_attributes_iff {e : Element} (h : e.Regular)
    (hfree : ∀ a ∈ e.attributes, isReserved a.key = false) (id : Nat) :
    ((attributes id e).map fun a => folded a.key).Nodup ↔ e.FoldsApart := by
  have hnames : (attributes id e).map (fun a => folded a.key) =
      (classKeys e ++ (e.attributes.map Attribute.key ++ laterKeys e)).eraseDups.map folded := by
    rw [← map_key_attributes id e, List.map_map]
    rfl
  have hmem (x : Bytes) : x ∈ classKeys e ++ (e.attributes.map Attribute.key ++ laterKeys e) ↔
      x ∈ e.attributes.map Attribute.key ∨ x ∈ classKeys e ++ laterKeys e := by
    simp only [List.mem_append]
    tauto
  have hadded : ∀ k ∈ classKeys e ++ laterKeys e, folded k = k := fun k hk =>
    folded_of_mem h (List.mem_append.mp hk)
  rw [hnames, List.nodup_map_iff_inj_on (nodup_eraseDups _)]
  simp only [List.mem_eraseDups, hmem]
  rw [inj_folded_iff h.keys_nodup hadded, List.map_map]
  constructor
  · rintro ⟨hown, hapart⟩
    have heq {a : Attribute} (ha : a ∈ e.attributes) {k : Bytes}
        (hk : k ∈ classKeys e ∨ k ∈ laterKeys e) : folded a.key = k → a.key = k :=
      hapart a.key (List.mem_map_of_mem ha) k (List.mem_append.mpr hk)
    refine ⟨hown, fun hclasses a ha hfold => ?_, fun hstyle a ha hfold => ?_,
      fun c hc hraw a ha => ?_⟩
    · have hkey := heq ha (Or.inl (mem_classKeys_iff.mpr ⟨hclasses, rfl⟩)) hfold
      exact h.keys a ha (by simp [hkey])
    · have hkey := heq ha (Or.inr (mem_laterKeys_iff.mpr (Or.inl ⟨hstyle, rfl⟩))) hfold
      exact h.keys a ha (by simp [hkey])
    · exact heq ha (Or.inr (mem_laterKeys_iff.mpr (Or.inr ⟨c, hc, if_neg hraw⟩)))
  · intro hfolds
    refine ⟨hfolds.own, fun x hx k hk hfold => ?_⟩
    obtain ⟨a, ha, rfl⟩ := List.mem_map.mp hx
    rw [List.mem_append, mem_classKeys_iff, mem_laterKeys_iff] at hk
    rcases hk with ⟨hclasses, rfl⟩ | ⟨hstyle, rfl⟩ | ⟨c, hc, rfl⟩
    · exact absurd hfold (hfolds.classes hclasses a ha)
    · exact absurd hfold (hfolds.style hstyle a ha)
    · rw [handlerKey] at hfold ⊢
      split at hfold
      · -- A key that is the number of the element but for its case is refused in a list.
        have hsame : sameFolded a.key handlerMark = true := beq_iff_eq.mpr (hfold.trans (by decide))
        have hreserved := hfree a ha
        rw [isReserved, hsame, Bool.or_true] at hreserved
        cases hreserved
      · rename_i hraw
        rw [if_neg hraw]
        exact hfolds.scripts c hc hraw a ha hfold

/-! ### The start tags of a document -/

theorem cases_of_mem_piecesAll_body {states : StateTable} {ns : List Node} {name : Bytes}
    {as : List Attribute} (h : Piece.element name as ∈ piecesAll (body states ns)) :
    (∃ e ∈ Node.elements ns, ∃ k, name = shownTag e ∧ as = attributes k e) ∨
      (name = utf8 "span" ∧ ∃ x, as = [⟨bindingMark, x⟩]) ∨ (name = utf8 "script" ∧ as = []) := by
  rw [body, piecesAll_append, List.mem_append] at h
  rcases h with h | h
  · rcases mem_piecesAll_ofNodes h with ⟨e, he, k, heq⟩ | ⟨i, -, h⟩
    · obtain ⟨rfl, rfl⟩ := Piece.element.inj heq
      exact Or.inl ⟨e, he, k, rfl, rfl⟩
    · rcases Piece.mem_content_cases h with heq | ⟨x, -, heq | heq⟩
      · cases heq
      · obtain ⟨rfl, rfl⟩ := Piece.element.inj heq
        exact Or.inr (Or.inl ⟨rfl, x, rfl⟩)
      · cases heq
  · rw [script] at h
    split at h
    · simp only [piecesAll_element, piecesAll_text, piecesAll_nil, List.append_nil,
        List.mem_cons, List.not_mem_nil, or_false, reduceCtorEq] at h
      obtain ⟨rfl, rfl⟩ := Piece.element.inj h
      exact Or.inr (Or.inr ⟨rfl, rfl⟩)
    · exact absurd h (by simp)

/-- Every element has a start tag. -/
theorem exists_mem_piecesAll_body (states : StateTable) {ns : List Node} {e : Element}
    (he : e ∈ Node.elements ns) :
    ∃ k, Piece.element (shownTag e) (attributes k e) ∈ piecesAll (body states ns) := by
  rw [elements_eq_items, List.mem_filterMap] at he
  obtain ⟨i, hi, he⟩ := he
  rw [← Item.map_snd_numbered 0 (items ns)] at hi
  obtain ⟨⟨k, i⟩, hy, rfl⟩ := List.mem_map.mp hi
  refine ⟨k, ?_⟩
  rw [body, elements, piecesAll_append, piecesAll_ofNodes]
  refine List.mem_append_left _ (List.mem_flatMap.mpr ⟨_, hy, List.mem_append_left _ ?_⟩)
  rw [Piece.own?, he]
  exact List.mem_singleton_self _

end Document

/-- **The start tag of a piece is part of what is written.** -/
theorem Markup.startText_infix_renderAll (raw : Bool) {ms : List Markup} (h : AllWritable ms)
    {name : Bytes} {as : List Attribute} (hp : Piece.element name as ∈ piecesAll ms) :
    startText name as <:+: (renderAll raw ms).text := by
  induction ms using forest_induction generalizing raw with
  | nil => exact absurd hp (by simp)
  | element tag bs cs ms ihcs ihms =>
    obtain ⟨⟨hplain, hempty, hcs⟩, hms⟩ := allWritable_element.mp h
    -- What an element is written as starts with its start tag, and has what is below it inside.
    obtain ⟨s, hs, hstart, hbelow⟩ : ∃ s, renderIn raw (.element tag bs cs) = .done s ∧
        startText tag bs <:+: s ∧
        (Piece.element name as ∈ piecesAll cs → startText name as <:+: s) := by
      by_cases hvoid : tag ∈ voidTags
      · obtain rfl := hempty hvoid
        refine ⟨_, renderIn_void raw bs hvoid, (List.prefix_append _ _).isInfix, fun hp => ?_⟩
        exact absurd hp (by simp)
      · refine ⟨_, renderIn_element raw bs hvoid hplain (ending_renderAll _ hcs), ?_, fun hp => ?_⟩
        · simp only [List.append_assoc]
          exact (List.prefix_append _ _).isInfix
        · exact (ihcs _ hcs hp).trans (List.infix_append _ _ _)
    rw [renderAll_cons_of_done raw ms hs]
    rw [piecesAll_element, List.mem_cons, List.mem_append] at hp
    rcases hp with heq | hp | hp
    · obtain ⟨rfl, rfl⟩ := Piece.element.inj heq
      exact hstart.trans (List.prefix_append _ _).isInfix
    · exact (hbelow hp).trans (List.prefix_append _ _).isInfix
    · exact (ihms raw hms hp).trans (List.suffix_append _ _).isInfix
  | text s ms ih =>
    have hp : Piece.element name as ∈ piecesAll ms := by simpa using hp
    rw [renderAll_cons_of_done raw ms rfl]
    exact (ih raw (allWritable_text.mp h) hp).trans (List.suffix_append _ _).isInfix

namespace Document

open Markup Node

/-- The names and the keys in the body of a document are spelt as names are, and no key is there
twice in one tag. -/
theorem spelling_of_mem_piecesAll_body {src : Bytes} {name : Bytes} {as : List Attribute}
    (h : Piece.element name as ∈
      piecesAll (body (SourceTree.ofSource src).states (SourceTree.ofSource src).nodes)) :
    isName name ∧ (∀ a ∈ as, a.key ≠ [] ∧ isName a.key) ∧ (as.map Attribute.key).Nodup := by
  rcases cases_of_mem_piecesAll_body h with ⟨e, he, k, rfl, rfl⟩ | ⟨rfl, x, rfl⟩ | ⟨rfl, rfl⟩
  · have hspelt := Layout.spelt_of_mem_elements he
    refine ⟨?_, fun a ha => ⟨?_, isName_of_mem_attributes hspelt k a ha⟩, ?_⟩
    · rw [shownTag]
      split
      · decide
      · exact isName_of_isTag hspelt.tag
    · refine forall_mem_attributes (P := fun a => a.key ≠ []) (show utf8 "class" ≠ [] by decide)
        (show utf8 "style" ≠ [] by decide) (show handlerMark ≠ [] by decide)
        (fun a ha hkey => ?_) (fun a _ => ?_) (fun _ _ _ ha => ha) a ha
      · have hspelling := hspelt.keys a ha
        rw [hkey] at hspelling
        cases hspelling
      · exact List.append_ne_nil_of_left_ne_nil (by decide) _
    · rw [map_key_attributes]
      exact nodup_eraseDups _
  · have hmark : bindingMark ≠ [] ∧ isName bindingMark := by decide
    exact ⟨by decide, List.forall_mem_singleton.mpr hmark, List.nodup_singleton _⟩
  · exact ⟨by decide, by simp, List.nodup_nil⟩

theorem startText_infix_compile {src : Bytes} {name : Bytes} {as : List Attribute}
    (h : Piece.element name as ∈
      piecesAll (body (SourceTree.ofSource src).states (SourceTree.ofSource src).nodes)) :
    startText name as <:+: compile src := by
  have hbody := allWritable_body src
  have hpart := startText_infix_renderAll false hbody h
  have hcompile := compile_eq src
  rw [body, text_renderAll_append false (allWritable_append.mp hbody).1] at hpart
  dsimp only at hcompile
  rw [List.append_assoc opening] at hcompile
  rw [hcompile]
  exact hpart.trans (List.infix_append _ _ _)

/-- **The names of attributes.** A start tag of the body of a document never has a key twice. A
browser reads the keys in small letters, so that two of them may be one name; it reads no name twice
in any tag exactly if the keys of every element of the source are told apart by their names, as they
are if the keys of the list are in small letters. -/
theorem attribute_names (src : Bytes) :
    let t := SourceTree.ofSource src
    (∀ name as, Piece.element name as ∈ piecesAll (body t.states t.nodes) →
      startText name as <:+: compile src ∧ (as.map Attribute.key).Nodup ∧
        Tag.names (startText name as) = as.map fun a => folded a.key) ∧
    ((∀ name as, Piece.element name as ∈ piecesAll (body t.states t.nodes) →
      (Tag.names (startText name as)).Nodup) ↔ ∀ e ∈ Node.elements t.nodes, e.FoldsApart) ∧
    ∀ e ∈ Node.elements t.nodes, (∀ a ∈ e.attributes, folded a.key = a.key) → e.FoldsApart := by
  intro t
  have hread {name : Bytes} {as : List Attribute}
      (h : Piece.element name as ∈ piecesAll (body t.states t.nodes)) :
      Tag.names (startText name as) = as.map fun a => folded a.key :=
    Tag.names_startText (spelling_of_mem_piecesAll_body h).1 (spelling_of_mem_piecesAll_body h).2.1
  have hfolds {e : Element} (he : e ∈ Node.elements t.nodes) (id : Nat) :
      ((attributes id e).map fun a => folded a.key).Nodup ↔ e.FoldsApart :=
    nodup_folded_attributes_iff (Layout.regular_of_mem_elements he)
      (Layout.unreserved_of_mem_elements he) id
  refine ⟨fun name as h => ⟨startText_infix_compile h, (spelling_of_mem_piecesAll_body h).2.2,
    hread h⟩, ⟨fun hnames e he => ?_, fun hapart name as h => ?_⟩,
    fun e he => (Layout.regular_of_mem_elements he).foldsApart⟩
  · obtain ⟨k, h⟩ := exists_mem_piecesAll_body t.states he
    have hnodup := hnames _ _ h
    rw [hread h] at hnodup
    exact (hfolds he k).mp hnodup
  · rw [hread h]
    rcases cases_of_mem_piecesAll_body h with ⟨e, he, k, rfl, rfl⟩ | ⟨-, x, rfl⟩ | ⟨-, rfl⟩
    · exact (hfolds he k).mpr (hapart e he)
    · exact List.nodup_singleton _
    · exact List.nodup_nil

/-- A statement of the browser that goes into an attribute of the list, and a key with a capital
letter. -/
theorem attribute_names_merged :
    utf8 "<p class=\"x\" onclick=\"f; g\" A=\"1\"" <:+:
      compile (utf8 "p.x(onclick: f, A: 1, on: click \x7bg\x7d)") ∧
    Tag.names (utf8 "<p class=\"x\" onclick=\"f; g\" A=\"1\"") =
      [utf8 "class", utf8 "onclick", utf8 "a"] := by
  have hpieces : (fun t : SourceTree => piecesAll (body t.states t.nodes)) (SourceTree.ofSource
      (utf8 "p.x(onclick: f, A: 1, on: click \x7bg\x7d)")) =
        [.element (utf8 "p") [⟨utf8 "class", utf8 "x"⟩, ⟨utf8 "onclick", utf8 "f; g"⟩,
          ⟨utf8 "A", utf8 "1"⟩]] := by decide +kernel
  obtain ⟨hpart, -, hnames⟩ := (attribute_names
    (utf8 "p.x(onclick: f, A: 1, on: click \x7bg\x7d)")).1 (utf8 "p") _
      (hpieces ▸ List.mem_singleton_self _)
  exact ⟨hpart, hnames⟩

/-- **Two attributes with one name**: the second of them is never seen. -/
theorem attribute_names_of_capital :
    utf8 "<p a=\"1\" A=\"2\"" <:+: compile (utf8 "p(a: 1, A: 2)") ∧
      Tag.names (utf8 "<p a=\"1\" A=\"2\"") = [utf8 "a", utf8 "a"] := by
  have hpieces : (fun t : SourceTree => piecesAll (body t.states t.nodes)) (SourceTree.ofSource
      (utf8 "p(a: 1, A: 2)")) =
        [.element (utf8 "p") [⟨utf8 "a", utf8 "1"⟩, ⟨utf8 "A", utf8 "2"⟩]] := by decide +kernel
  have hpart := startText_infix_compile (hpieces ▸ List.mem_singleton_self _)
  exact ⟨hpart, by decide +kernel⟩

end Document

end LiveMarkup
