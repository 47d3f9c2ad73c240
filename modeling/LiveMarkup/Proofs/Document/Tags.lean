import LiveMarkup.Proofs.Document.Rendering
import LiveMarkup.Proofs.Tree.Nesting

/-!
# The tags in the text of a document

A reader of a document looks for angle brackets: what is between two of them is a tag, and a bracket
that is part of a text or of a value would be taken for the start or the end of one.
`LiveMarkup.Tag.scan?` reads a text in this way, without any knowledge of the tree that was written,
and fails on a bracket that is out of place. `LiveMarkup.Tag.balanced` then reads the tags with a
stack of the elements that are open.

The main statement is `LiveMarkup.Document.markup_is_balanced`: if no element of a source has its
text written as it is, then the tags of the markup are those of the elements of the document, and
they are nested as elements are, whatever the texts, values and statements of the source hold. What
is written without escaping (`LiveMarkup.Document.isPlain_ofNodes`) is spelt in a way that leaves no
room for brackets.
-/

namespace LiveMarkup

/-! ### Texts without brackets -/

/-- The octets that a tag starts and ends with. -/
def brackets : List UInt8 := [octet '<', octet '>']

theorem avoids_brackets_of_isName {s : Bytes} (h : isName s) : avoids brackets s :=
  avoids_of_all (by decide) h

theorem avoids_brackets_cons {b : UInt8} {s : Bytes} (h : avoids brackets (b :: s)) :
    b ≠ octet '<' ∧ b ≠ octet '>' ∧ avoids brackets s := by
  rw [avoids, List.all_cons, Bool.and_eq_true] at h
  refine ⟨?_, ?_, h.2⟩
  · rintro rfl
    exact absurd h.1 (by decide)
  · rintro rfl
    exact absurd h.1 (by decide)

namespace Markup

/-- **What is escaped has no brackets.** -/
theorem avoids_brackets_escape (s : Bytes) : avoids brackets (escape s) := by
  have hoctet (b : UInt8) : avoids brackets (escapeOctet b) := by
    rw [escapeOctet]
    split_ifs with _ _ hlt hgt
    any_goals decide
    simp [avoids, brackets, hlt, hgt]
  induction s with
  | nil => rfl
  | cons b s ih =>
    rw [escape, List.flatMap_cons, avoids_append, hoctet, Bool.true_and]
    exact ih

theorem avoids_brackets_writeAttributes {as : List Attribute}
    (h : ∀ a ∈ as, avoids brackets a.key) : avoids brackets (writeAttributes as) := by
  induction as with
  | nil => rfl
  | cons a as ih =>
    have hspace : avoids brackets (utf8 " ") = true := rfl
    have hequals : avoids brackets (utf8 "=\"") = true := rfl
    have hquote : avoids brackets (utf8 "\"") = true := rfl
    have htail := ih fun b hb => h b (List.mem_cons_of_mem a hb)
    rw [writeAttributes, List.flatMap_cons, avoids_append, ← writeAttributes, htail]
    simp [hspace, hequals, hquote, h a List.mem_cons_self, avoids_brackets_escape]

theorem avoids_brackets_guardFeed (name : Bytes) (cs : List Markup) :
    avoids brackets (guardFeed name cs) := by
  rw [guardFeed.eq_def]
  split
  · split <;> rfl
  · rfl

end Markup

/-! ### Reading tags -/

/-- A tag of a text. -/
inductive Tag
  | start (name : Bytes)
  | finish (name : Bytes)
  /-- A start tag with a slash at its end. -/
  | single (name : Bytes)
  deriving DecidableEq, Repr

namespace Tag

/-- The name at the start of a tag: it ends at a space or a slash. -/
def nameOf (s : Bytes) : Bytes := s.takeWhile fun b => b != octet ' ' && b != octet '/'

/-- The tag with a text between its brackets. -/
def ofText (s : Bytes) : Tag :=
  if s.head? = some (octet '/') then .finish s.tail
  else if s.getLast? = some (octet '/') then .single (nameOf s)
  else .start (nameOf s)

/-- The tags of a text. Within a tag, `inside?` is what was read of it. It fails on a bracket that
is not one end of a tag, and on a tag without its end. -/
def scan? (inside? : Option Bytes) : Bytes → Option (List Tag)
  | [] => if inside?.isSome then none else some []
  | b :: r =>
    match inside? with
    | none =>
      if b = octet '<' then scan? (some []) r
      else if b = octet '>' then none
      else scan? none r
    | some s =>
      if b = octet '<' then none
      else if b = octet '>' then (scan? none r).map (ofText s :: ·)
      else scan? (some (s ++ [b])) r

/-- Whether the tags close what they open, the last opened element first. An element is opened and
closed by one tag exactly if it cannot have content; `stack` has the elements that are open. -/
def balanced (stack : List Bytes) : List Tag → Bool
  | [] => stack.isEmpty
  | .start name :: ts => name ∉ voidTags && balanced (name :: stack) ts
  | .finish name :: ts => stack.head? = some name && balanced stack.tail ts
  | .single name :: ts => name ∈ voidTags && balanced stack ts

/-- The name of the element that a tag is the first tag of. -/
def opened? : Tag → Option Bytes
  | .start name | .single name => some name
  | .finish _ => none

/-- A text without brackets has no tags. -/
theorem scan?_append {s : Bytes} (h : avoids brackets s) (r : Bytes) :
    scan? none (s ++ r) = scan? none r := by
  induction s with
  | nil => rfl
  | cons b s ih =>
    obtain ⟨hlt, hgt, hs⟩ := avoids_brackets_cons h
    rw [List.cons_append, scan?]
    rw [if_neg hlt, if_neg hgt]
    exact ih hs

/-- Within a tag, what is not a bracket is part of the tag. -/
theorem scan?_inside {s : Bytes} (h : avoids brackets s) (read r : Bytes) :
    scan? (some read) (s ++ (octet '>' :: r)) = (scan? none r).map (ofText (read ++ s) :: ·) := by
  induction s generalizing read with
  | nil =>
    rw [List.nil_append, scan?]
    rw [if_neg (by decide), if_pos rfl, List.append_nil]
  | cons b s ih =>
    obtain ⟨hlt, hgt, hs⟩ := avoids_brackets_cons h
    rw [List.cons_append, scan?]
    rw [if_neg hlt, if_neg hgt, ih hs, List.append_assoc, List.singleton_append]

/-- **A text in brackets is one tag.** -/
theorem scan?_tag {s : Bytes} (h : avoids brackets s) (r : Bytes) :
    scan? none (octet '<' :: (s ++ (octet '>' :: r))) = (scan? none r).map (ofText s :: ·) := by
  rw [scan?]
  rw [if_pos rfl, scan?_inside h, List.nil_append]

end Tag

/-! ### The tags of a tree -/

namespace Piece

/-- The name of a piece that is an element. -/
def name? : Piece → Option Bytes
  | .element name _ => some name
  | .text _ => none

/-- **A piece is plain**: it is a text, or an element whose text is escaped and whose name and keys
can be written as they are. -/
def IsPlain : Piece → Prop
  | .element name as => isTag name ∧ name ∉ Markup.rawTextTags ∧ ∀ a ∈ as, avoids brackets a.key
  | .text _ => True

end Piece

namespace Markup

mutual

/-- The tags of a tree. -/
def tags : Markup → List Tag
  | .element name _ cs =>
    if name ∈ voidTags then [.single name] else .start name :: (tagsAll cs ++ [.finish name])
  | .text _ => []

/-- The tags of a list of trees. -/
def tagsAll : List Markup → List Tag
  | [] => []
  | m :: ms => tags m ++ tagsAll ms

end

section Tags

variable {name : Bytes} {as : List Attribute}

/-- The name of a start tag is found again in front of its attributes. -/
theorem nameOf_append (h : isTag name) {rest : Bytes}
    (hrest : rest.head?.any (fun b => b != octet ' ' && b != octet '/') = false) :
    Tag.nameOf (name ++ rest) = name := by
  refine takeWhile_append_of_boundary (fun b hb => ?_) hrest
  have hoctet := List.all_eq_true.mp (isName_of_isTag h) b hb
  rw [Bool.and_eq_true, bne_iff_ne, bne_iff_ne]
  constructor
  · rintro rfl
    exact absurd hoctet (by decide)
  · rintro rfl
    exact absurd hoctet (by decide)

theorem head?_append_of_isTag (h : isTag name) (rest : Bytes) :
    (name ++ rest).head? ≠ some (octet '/') := by
  cases name with
  | nil => exact absurd h (by decide)
  | cons b r =>
    rw [isTag, isWord, Bool.and_eq_true] at h
    intro hb
    obtain rfl := Option.some.inj hb
    exact absurd h.1 (by decide)

/-- A start tag does not end in a slash: it ends in its name or in a quotation mark. -/
theorem getLast?_startText (h : isTag name) (as : List Attribute) :
    (name ++ writeAttributes as).getLast? ≠ some (octet '/') := by
  induction as using List.reverseRecOn with
  | nil =>
    intro hlast
    -- Without attributes the last octet is one of the name.
    have hmem : octet '/' ∈ name := by
      refine List.mem_of_getLast? ?_
      simpa [writeAttributes] using hlast
    exact absurd (List.all_eq_true.mp (isName_of_isTag h) _ hmem) (by decide)
  | append_singleton as a _ =>
    have hwritten : name ++ writeAttributes (as ++ [a]) =
        name ++ writeAttributes as ++ utf8 " " ++ a.key ++ utf8 "=\"" ++ escape a.value ++
          [octet '"'] := by
      simp [writeAttributes]
      rfl
    rw [hwritten, List.getLast?_concat]
    simp only [ne_eq, Option.some.injEq]
    decide

/-- **The tag that starts an element** is read as such. -/
theorem ofText_startText (h : isTag name) (as : List Attribute) :
    Tag.ofText (name ++ writeAttributes as) = .start name := by
  rw [Tag.ofText, if_neg (head?_append_of_isTag h _), if_neg (getLast?_startText h as),
    nameOf_append h]
  cases as <;> rfl

theorem ofText_single (h : isTag name) (as : List Attribute) :
    Tag.ofText (name ++ writeAttributes as ++ utf8 "/") = .single name := by
  rw [List.append_assoc, Tag.ofText, if_neg (head?_append_of_isTag h _), if_pos, nameOf_append h]
  · cases as <;> rfl
  · rw [← List.append_assoc, List.getLast?_append]
    rfl

theorem ofText_finish (name : Bytes) : Tag.ofText (utf8 "/" ++ name) = .finish name := rfl

end Tags

/-- **The tags in the text of trees are those of the trees.** -/
theorem scan?_renderAll {ms : List Markup} (h : AllWritable ms)
    (hplain : ∀ p ∈ piecesAll ms, p.IsPlain) (r : Bytes) :
    Tag.scan? none ((renderAll false ms).text ++ r) =
      (Tag.scan? none r).map (tagsAll ms ++ ·) := by
  induction ms using forest_induction generalizing r with
  | nil =>
    rw [tagsAll]
    exact (Option.map_id' (x := Tag.scan? none r)).symm
  | element name as cs ms ihcs ihms =>
    obtain ⟨⟨hplaintext, hempty, hcs⟩, hms⟩ := allWritable_element.mp h
    rw [piecesAll_element] at hplain
    obtain ⟨htag, hraw, hkeys⟩ := hplain _ List.mem_cons_self
    have hbare : avoids brackets (name ++ writeAttributes as) = true := by
      rw [avoids_append, avoids_brackets_of_isName (isName_of_isTag htag),
        avoids_brackets_writeAttributes hkeys, Bool.and_self]
    have ihms' := ihms hms fun p hp => hplain p (by simp [hp])
    by_cases hvoid : name ∈ voidTags
    · -- An element without content is one tag, with a slash at its end.
      obtain rfl := hempty hvoid
      have hwritten : startText name as ++ utf8 "/>" ++ (renderAll false ms).text ++ r =
          octet '<' :: (name ++ writeAttributes as ++ utf8 "/" ++
            (octet '>' :: ((renderAll false ms).text ++ r))) := by
        simp [startText]
        rfl
      have hslash : avoids brackets (name ++ writeAttributes as ++ utf8 "/") = true := by
        rw [avoids_append, hbare]
        rfl
      rw [renderAll_cons_of_done false ms (renderIn_void false as hvoid), hwritten,
        Tag.scan?_tag hslash, ihms', ofText_single htag, tagsAll, tags, if_pos hvoid]
      simp [Function.comp_def]
    · -- The text of the children is escaped too, since the element is not one of raw text.
      have hescaped : decide (name ∈ rawTextTags) = false := decide_eq_false hraw
      have ihcs' := ihcs hcs fun p hp => hplain p (by simp [hp])
      have hfinish : avoids brackets (utf8 "/" ++ name) = true := by
        rw [avoids_append, avoids_brackets_of_isName (isName_of_isTag htag)]
        rfl
      have hwritten : startText name as ++ utf8 ">" ++ guardFeed name cs ++
          (renderAll false cs).text ++ endText name ++ (renderAll false ms).text ++ r =
          octet '<' :: (name ++ writeAttributes as ++ (octet '>' :: (guardFeed name cs ++
            ((renderAll false cs).text ++ (octet '<' :: (utf8 "/" ++ name ++
              (octet '>' :: ((renderAll false ms).text ++ r)))))))) := by
        simp [startText, endText]
        rfl
      rw [renderAll_cons_of_done false ms (renderIn_element false as hvoid hplaintext
        (ending_renderAll _ hcs)), hescaped, hwritten, Tag.scan?_tag hbare,
        Tag.scan?_append (avoids_brackets_guardFeed name cs), ihcs', Tag.scan?_tag hfinish, ihms',
        ofText_startText htag, ofText_finish, tagsAll, tags, if_neg hvoid]
      simp [Function.comp_def]
  | text s ms ih =>
    have hwritten : (renderAll false (.text s :: ms)).text ++ r =
        escape s ++ ((renderAll false ms).text ++ r) := by
      rw [renderAll_cons_of_done false ms rfl, List.append_assoc]
      rfl
    rw [hwritten, Tag.scan?_append (avoids_brackets_escape s),
      ih (allWritable_text.mp h) fun p hp => hplain p (by simp [hp])]
    rfl

/-- **The tags of trees are nested**: they leave the elements open that were open before. -/
theorem balanced_tagsAll (ms : List Markup) (stack : List Bytes) (ts : List Tag) :
    Tag.balanced stack (tagsAll ms ++ ts) = Tag.balanced stack ts := by
  induction ms using forest_induction generalizing stack ts with
  | nil => rfl
  | element name as cs ms ihcs ihms =>
    rw [tagsAll, tags]
    by_cases hvoid : name ∈ voidTags
    · rw [if_pos hvoid]
      simp [Tag.balanced, hvoid, ihms]
    · rw [if_neg hvoid]
      simp [Tag.balanced, hvoid, ihcs, ihms]
  | text s ms ih => exact ih stack ts

/-- The tags that open elements are those of the elements in the order of the text. -/
theorem filterMap_opened?_tagsAll {ms : List Markup} (h : AllWritable ms) :
    (tagsAll ms).filterMap Tag.opened? = (piecesAll ms).filterMap Piece.name? := by
  induction ms using forest_induction with
  | nil => rfl
  | element name as cs ms ihcs ihms =>
    obtain ⟨⟨-, hempty, hcs⟩, hms⟩ := allWritable_element.mp h
    rw [tagsAll, tags, piecesAll_element]
    by_cases hvoid : name ∈ voidTags
    · obtain rfl := hempty hvoid
      rw [if_pos hvoid]
      simp [Tag.opened?, Piece.name?, ihms hms]
    · rw [if_neg hvoid]
      simp [List.filterMap_cons, Tag.opened?, Piece.name?, ihcs hcs, ihms hms]
  | text s ms ih => exact ih (allWritable_text.mp h)

end Markup

/-! ### The markup of a source -/

namespace Document

open Markup Node

theorem forall_mem_appendScript {P : Attribute → Prop} {key value : Bytes} (hnew : P ⟨key, value⟩)
    (hmore : ∀ a, P a → P { a with value := a.value ++ utf8 "; " ++ value })
    {as : List Attribute} (h : ∀ a ∈ as, P a) : ∀ a ∈ appendScript key value as, P a := by
  induction as with
  | nil => exact List.forall_mem_singleton.mpr hnew
  | cons b as ih =>
    rw [List.forall_mem_cons] at h
    rw [appendScript]
    split
    · exact List.forall_mem_cons.mpr ⟨hmore b h.1, h.2⟩
    · exact List.forall_mem_cons.mpr ⟨h.1, ih h.2⟩

/-- **The attributes of an element** are those of its source and those for its classes, its style
and its handlers. -/
theorem forall_mem_attributes {P : Attribute → Prop} {e : Element} {id : Nat}
    (hclass : P ⟨utf8 "class", List.intercalate (utf8 " ") e.classes⟩)
    (hstyle : P ⟨utf8 "style", Style.text e.style⟩) (hmark : P ⟨handlerMark, decimalNat id⟩)
    (hown : ∀ a ∈ e.attributes, P a)
    (hnew : ∀ h ∈ e.handlers, P ⟨utf8 "on" ++ h.event, h.statement.text⟩)
    (hmore : ∀ h ∈ e.handlers, ∀ a, P a →
      P { a with value := a.value ++ utf8 "; " ++ h.statement.text }) :
    ∀ a ∈ attributes id e, P a := by
  have hclasses : ∀ a ∈ (if e.classes.isEmpty then [] else
      [⟨utf8 "class", List.intercalate (utf8 " ") e.classes⟩] : List Attribute), P a := by
    split
    · exact fun a ha => absurd ha (by simp)
    · exact List.forall_mem_singleton.mpr hclass
  rw [attributes]
  generalize (if e.classes.isEmpty then [] else
    [⟨utf8 "class", List.intercalate (utf8 " ") e.classes⟩] : List Attribute) = classes at hclasses
  have hset : ∀ a ∈ e.attributes.foldl (fun as a => Attribute.set a.key a.value as) classes, P a :=
    List.foldlRecOn (motive := fun as : List Attribute => ∀ a ∈ as, P a) _ _ hclasses
      fun as has a ha => Attribute.forall_mem_set (hown a ha) has
  refine List.foldlRecOn (motive := fun as : List Attribute => ∀ a ∈ as, P a) _ _ ?_
    fun as has h hh => ?_
  · split
    · exact hset
    · exact Attribute.forall_mem_set hstyle hset
  · rw [addHandler]
    split
    · exact Attribute.forall_mem_set hmark has
    · exact forall_mem_appendScript (hnew h hh) (hmore h hh) has

/-- The keys of an element that is spelt as tag lines spell it are names. -/
theorem isName_of_mem_attributes {e : Element} (h : e.Spelt) (id : Nat) :
    ∀ a ∈ attributes id e, isName a.key := by
  refine forall_mem_attributes (P := fun a => isName a.key) (show isName (utf8 "class") by decide)
    (show isName (utf8 "style") by decide) (show isName handlerMark by decide)
    (fun a ha => isName_of_isKey (h.keys a ha)) (fun a ha => ?_) (fun _ _ _ ha => ha)
  exact List.all_append.trans (h.events a ha)

/-- An element that is spelt as tag lines spell it can be written as it is. -/
theorem isPlain_of_spelt {e : Element} (h : e.Spelt)
    (hraw : e.tag ∈ rawTextTags → e.tag = plaintextTag) (id : Nat) :
    (Piece.element (shownTag e) (attributes id e)).IsPlain := by
  refine ⟨?_, ?_, ?_⟩
  · rw [shownTag]
    split
    · decide
    · exact h.tag
  · intro hmem
    refine shownTag_ne_plaintextTag h.standard ?_
    rw [shownTag] at hmem ⊢
    split
    · rename_i hplain
      rw [if_pos hplain] at hmem
      exact absurd hmem (by decide)
    · rename_i hplain
      rw [if_neg hplain] at hmem
      exact hraw hmem
  · exact fun a ha => avoids_brackets_of_isName (isName_of_mem_attributes h id a ha)

theorem isPlain_of_mem_content {states : StateTable} {text : Bytes} {binding : Option Bytes}
    {p : Piece} (hp : p ∈ Piece.content states text binding) : p.IsPlain := by
  rcases Piece.mem_content_cases hp with rfl | ⟨x, -, rfl | rfl⟩
  · trivial
  · refine ⟨by decide, by decide, fun a ha => ?_⟩
    obtain rfl := List.mem_singleton.mp ha
    exact show avoids brackets bindingMark = true by decide
  · trivial

/-- A piece of the markup of a forest is one of its elements with a number, or part of the content
of one of its nodes. -/
theorem mem_piecesAll_ofNodes {states : StateTable} {b : Builder} {ns : List Node} {p : Piece}
    (hp : p ∈ piecesAll (ofNodes states b ns).1) :
    (∃ e ∈ Node.elements ns, ∃ k, p = .element (shownTag e) (attributes k e)) ∨
      ∃ i ∈ items ns, p ∈ Piece.content states i.literal i.binding? := by
  rw [piecesAll_ofNodes, List.mem_flatMap] at hp
  obtain ⟨y, hy, hp⟩ := hp
  have hi : y.2 ∈ items ns := by
    rw [← Item.map_snd_numbered b.next (items ns)]
    exact List.mem_map_of_mem hy
  rw [Piece.ofItem, List.mem_append, Piece.own?] at hp
  rcases hp with hp | hp
  · obtain ⟨e, he, rfl⟩ := Option.mem_map.mp (Option.mem_toList.mp hp)
    have hmem : e ∈ Node.elements ns := by
      rw [elements_eq_items, List.mem_filterMap]
      exact ⟨y.2, hi, he⟩
    exact Or.inl ⟨e, hmem, y.1, rfl⟩
  · exact Or.inr ⟨y.2, hi, hp⟩

/-- **What is not escaped has no room for brackets**: the names and the keys in the markup of a
source without raw texts. -/
theorem isPlain_ofNodes {src : Bytes} {states : StateTable} {b : Builder}
    (hraw : ∀ e ∈ Node.elements (SourceTree.ofSource src).nodes,
      e.tag ∈ rawTextTags → e.tag = plaintextTag) :
    ∀ p ∈ piecesAll (ofNodes states b (SourceTree.ofSource src).nodes).1, p.IsPlain := by
  intro p hp
  rcases mem_piecesAll_ofNodes hp with ⟨e, he, k, rfl⟩ | ⟨i, -, hp⟩
  · exact isPlain_of_spelt (Layout.spelt_of_mem_elements he) (hraw e he) k
  · exact isPlain_of_mem_content hp

/-- **The markup of a source is balanced**, if no element of it has its text written as it is. The
document is a frame around the markup and the script. In the markup, angle brackets are found only
at the ends of tags; these open the elements of the document in their order, close them innermost
first, and do both at once for an element that cannot have content. -/
theorem markup_is_balanced (src : Bytes)
    (hraw : ∀ e ∈ Node.elements (SourceTree.ofSource src).nodes,
      e.tag ∉ ["iframe", "noembed", "noframes", "noscript", "script", "style", "xmp"].map utf8) :
    let t := SourceTree.ofSource src
    ∃ (markup : Bytes) (ts : List Tag),
      compile src = opening ++ markup ++
        scriptMarkup (Script.text? t.states.declarations (elements t.states t.nodes).2.wirings) ++
          utf8 "</body></html>" ∧
      utf8 "<body>" <:+ opening ∧
      Tag.scan? none markup = some ts ∧ Tag.balanced [] ts ∧
      ts.filterMap Tag.opened? =
        (piecesAll (elements t.states t.nodes).1).filterMap Piece.name? := by
  intro t
  have hwritable : AllWritable (elements t.states t.nodes).1 :=
    (allWritable_append.mp (allWritable_body src)).1
  have hplain : ∀ p ∈ piecesAll (elements t.states t.nodes).1, p.IsPlain := by
    refine isPlain_ofNodes fun e he hmem => ?_
    have hnot := hraw e he
    simp only [rawTextTags, List.map_cons, List.map_nil, List.mem_cons,
      List.not_mem_nil] at hmem hnot
    exact by tauto
  have hcompile : compile src = opening ++
      (renderAll false (elements t.states t.nodes).1).text ++
      (renderAll false (script t.states (elements t.states t.nodes).2.wirings)).text ++ closing :=
    compile_eq src
  refine ⟨(renderAll false (elements t.states t.nodes).1).text,
    tagsAll (elements t.states t.nodes).1, ?_, ⟨_, rfl⟩, ?_, ?_,
    filterMap_opened?_tagsAll hwritable⟩
  · rw [hcompile, text_renderAll_script]
    rfl
  · have hscan := scan?_renderAll hwritable hplain []
    rw [List.append_nil] at hscan
    rw [hscan]
    exact congrArg some (List.append_nil _)
  · have hbalanced := balanced_tagsAll (elements t.states t.nodes).1 [] []
    rw [List.append_nil] at hbalanced
    rw [hbalanced]
    rfl

/-- Brackets in a value, in a statement and in a text below an element without content. -/
theorem markup_is_balanced_hostile :
    ∃ (markup : Bytes) (ts : List Tag),
      compile (utf8 "p(a: \"<b>\", on: c \x7b</p>\x7d)\n br\n  \"</p>\"") =
        opening ++ markup ++ utf8 "</body></html>" ∧
      Tag.scan? none markup = some ts ∧ Tag.balanced [] ts ∧
      ts.filterMap Tag.opened? = [utf8 "p", utf8 "br"] := by
  have htree : (fun t : SourceTree =>
      ((Node.elements t.nodes).map (fun e => e.tag),
        Script.text? t.states.declarations (elements t.states t.nodes).2.wirings,
        (piecesAll (elements t.states t.nodes).1).filterMap Piece.name?)) (SourceTree.ofSource
      (utf8 "p(a: \"<b>\", on: c \x7b</p>\x7d)\n br\n  \"</p>\"")) =
        ([utf8 "p", utf8 "br"], none, [utf8 "p", utf8 "br"]) := by decide +kernel
  obtain ⟨htags, hrest⟩ := Prod.mk.inj htree
  obtain ⟨hscript, hpieces⟩ := Prod.mk.inj hrest
  obtain ⟨markup, ts, hcompile, -, hscan, hbalanced, hopened⟩ := markup_is_balanced
    (utf8 "p(a: \"<b>\", on: c \x7b</p>\x7d)\n br\n  \"</p>\"") fun e he => by
      have hmem : e.tag ∈ [utf8 "p", utf8 "br"] := htags ▸ List.mem_map_of_mem he
      rcases List.mem_pair.mp hmem with h | h
      · rw [h]
        decide
      · rw [h]
        decide
  rw [hscript, scriptMarkup, List.append_nil] at hcompile
  exact ⟨markup, ts, hcompile, hscan, hbalanced, hopened.trans hpieces⟩

end Document

end LiveMarkup
