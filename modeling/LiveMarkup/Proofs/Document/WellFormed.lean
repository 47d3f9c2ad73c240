import LiveMarkup.Proofs.Document.ScriptLines
import LiveMarkup.Proofs.Document.Tags
import LiveMarkup.Proofs.Tree.WellFormed

/-!
# Well-formed documents

A document is declared as UTF-8, so it should be well-formed whenever its source is. What a document
has besides the texts of its source is ASCII, and an octet of ASCII divides a text into two that are
well-formed or not for themselves. So all depends on the texts between two such octets,
`LiveMarkup.Markup.stretches`: a value of an attribute is one, and so are texts that follow each
other without an element between them, all together. Escaping changes octets of ASCII only
(`LiveMarkup.Markup.isValid_escape`), and the script is well-formed in any case, since it has no
text of the source but the initializers, as they are written.

A well-formed source can have a text that is not well-formed, by an escape sequence that gives an
octet by its number (`LiveMarkup.Document.ill_formed_document`). The main statement is
`LiveMarkup.Document.well_formed_iff_stretches`: whether a document is well-formed is decided by its
stretches, and without such sequences it always is.
-/

namespace LiveMarkup

namespace Markup

/-! ### Escaping -/

/-- Escaping replaces some octets of ASCII by texts of such octets, and leaves all others alone. -/
theorem escapeOctet_cases (b : UInt8) :
    escapeOctet b = [b] ∨ b.toNat < 0x80 ∧
      ∃ c w, escapeOctet b = c :: w ∧ (c :: w).all fun d => d.toNat < 0x80 := by
  rw [escapeOctet]
  split_ifs
  any_goals
    subst b
    exact Or.inr ⟨by decide, _, _, rfl, by decide⟩
  exact Or.inl rfl

/-- **A text is as well-formed as its escaped form**, between any two others. -/
theorem isValid_escape (u s r : Bytes) :
    Utf8.isValid (u ++ (escape s ++ r)) = Utf8.isValid (u ++ (s ++ r)) := by
  induction s generalizing u with
  | nil => rfl
  | cons b s ih =>
    rw [escape, List.flatMap_cons, ← escape, List.append_assoc, List.cons_append]
    rcases escapeOctet_cases b with hb | ⟨hb, c, w, hescaped, hascii⟩
    · -- The octet can be part of a character that started in front, so it is left there.
      rw [hb, List.singleton_append, List.append_cons, ih, ← List.append_cons]
    · rw [List.all_cons, Bool.and_eq_true, decide_eq_true_eq] at hascii
      rw [hescaped, List.cons_append, Utf8.isValid_append_cons hascii.1,
        Utf8.isValid_append_left (Utf8.isValid_of_ascii hascii.2), Utf8.isValid_append_cons hb]
      exact congrArg _ (ih [])

/-- The values of attributes are well-formed or not for themselves. -/
theorem isValid_writeAttributes {as : List Attribute} (h : ∀ a ∈ as, isName a.key) (r : Bytes) :
    Utf8.isValid (writeAttributes as ++ r) =
      ((as.map Attribute.value).all Utf8.isValid && Utf8.isValid r) := by
  induction as with
  | nil => rfl
  | cons a as ih =>
    rw [List.forall_mem_cons] at h
    have hkey : Utf8.isValid (utf8 " " ++ a.key ++ utf8 "=\"") :=
      Utf8.isValid_append (Utf8.isValid_append (Utf8.isValid_utf8 _) (isValid_of_isName h.1))
        (Utf8.isValid_utf8 _)
    have hvalue : Utf8.isValid (escape a.value ++ octet '"' :: (writeAttributes as ++ r)) =
        Utf8.isValid (a.value ++ octet '"' :: (writeAttributes as ++ r)) :=
      isValid_escape [] a.value _
    have hwritten : writeAttributes (a :: as) ++ r = utf8 " " ++ a.key ++ utf8 "=\"" ++
        (escape a.value ++ octet '"' :: (writeAttributes as ++ r)) := by
      simp [writeAttributes]
      rfl
    rw [hwritten, Utf8.isValid_append_left hkey, hvalue, Utf8.isValid_append_cons (by decide),
      ih h.2, List.map_cons, List.all_cons, Bool.and_assoc]

end Markup

/-! ### Stretches -/

/-- **A piece is named**: the texts of it that are not escaped are names. -/
def Piece.IsNamed : Piece → Prop
  | .element name as => isName name ∧ ∀ a ∈ as, isName a.key
  | .text _ => True

/-- **A piece is well-formed**: the texts of it that are escaped are. -/
def Piece.WellFormed : Piece → Prop
  | .element _ as => ∀ a ∈ as, Utf8.isValid a.value
  | .text s => Utf8.isValid s

namespace Markup

mutual

/-- The stretches inside a tree. -/
def innerStretches : Markup → List Bytes
  | .element _ as cs => as.map Attribute.value ++ stretches [] cs
  | .text _ => []

/-- **The stretches of a list of trees**, where `s` stands in front of them: values of attributes,
and texts that are written one after another, without an element between them. -/
def stretches (s : Bytes) : List Markup → List Bytes
  | [] => [s]
  | .text t :: ms => stretches (s ++ t) ms
  | m :: ms => s :: (innerStretches m ++ stretches [] ms)

end

@[simp] theorem stretches_nil (s : Bytes) : stretches s [] = [s] := rfl

@[simp] theorem stretches_text (s t : Bytes) (ms : List Markup) :
    stretches s (.text t :: ms) = stretches (s ++ t) ms := rfl

@[simp] theorem stretches_element (s name : Bytes) (as : List Attribute) (cs ms : List Markup) :
    stretches s (.element name as cs :: ms) =
      s :: (as.map Attribute.value ++ stretches [] cs ++ stretches [] ms) := rfl

section Element

variable {name : Bytes} {as : List Attribute} (hname : isName name) (hkeys : ∀ a ∈ as, isName a.key)

include hname

include hkeys in
/-- A start tag ends a stretch, and each of its values is one. -/
theorem isValid_startText (u r : Bytes) : Utf8.isValid (u ++ (startText name as ++ r)) =
    (Utf8.isValid u && ((as.map Attribute.value).all Utf8.isValid && Utf8.isValid r)) := by
  have hstart : u ++ (startText name as ++ r) =
      u ++ octet '<' :: (name ++ (writeAttributes as ++ r)) := by
    simp [startText]
    rfl
  rw [hstart, Utf8.isValid_append_cons (by decide),
    Utf8.isValid_append_left (isValid_of_isName hname), isValid_writeAttributes hkeys]

/-- An end tag ends a stretch. -/
theorem isValid_endText (u r : Bytes) :
    Utf8.isValid (u ++ (endText name ++ r)) = (Utf8.isValid u && Utf8.isValid r) := by
  have hslash : Utf8.isValid (utf8 "/" ++ name ++ utf8 ">") :=
    Utf8.isValid_append (Utf8.isValid_append (Utf8.isValid_utf8 _) (isValid_of_isName hname))
      (Utf8.isValid_utf8 _)
  have hend : u ++ (endText name ++ r) = u ++ octet '<' :: (utf8 "/" ++ name ++ utf8 ">" ++ r) := by
    simp [endText]
    rfl
  rw [hend, Utf8.isValid_append_cons (by decide), Utf8.isValid_append_left hslash]

end Element

theorem isValid_guardFeed (name : Bytes) (cs : List Markup) : Utf8.isValid (guardFeed name cs) := by
  rw [guardFeed.eq_def]
  split
  · split
    · exact Utf8.isValid_utf8 _
    · exact Utf8.isValid_utf8 ""
  · exact Utf8.isValid_utf8 ""

/-- **The text of trees is well-formed exactly if their stretches are.** -/
theorem isValid_renderAll (raw : Bool) {ms : List Markup} (h : AllWritable ms)
    (hnamed : ∀ p ∈ piecesAll ms, p.IsNamed) (u : Bytes) :
    Utf8.isValid (u ++ (renderAll raw ms).text) = (stretches u ms).all Utf8.isValid := by
  induction ms using forest_induction generalizing raw u with
  | nil =>
    rw [stretches_nil, List.all_cons, List.all_nil, Bool.and_true]
    exact congrArg Utf8.isValid (List.append_nil u)
  | element name as cs ms ihcs ihms =>
    obtain ⟨⟨hplain, hempty, hcs⟩, hms⟩ := allWritable_element.mp h
    rw [piecesAll_element] at hnamed
    obtain ⟨hname, hkeys⟩ := hnamed _ List.mem_cons_self
    have ihms' := ihms raw hms (fun p hp => hnamed p (by simp [hp])) []
    rw [stretches_element, List.all_cons, List.all_append, List.all_append, ← ihms',
      List.nil_append, Bool.and_assoc]
    by_cases hvoid : name ∈ voidTags
    · obtain rfl := hempty hvoid
      have hnone : (stretches [] []).all Utf8.isValid = true :=
        Bool.and_eq_true_iff.mpr ⟨Utf8.isValid_utf8 "", rfl⟩
      rw [renderAll_cons_of_done raw ms (renderIn_void raw as hvoid), List.append_assoc,
        isValid_startText hname hkeys, Utf8.isValid_append_left (Utf8.isValid_utf8 _), hnone,
        Bool.true_and]
    · have ihcs' := ihcs (name ∈ rawTextTags) hcs (fun p hp => hnamed p (by simp [hp])) []
      have hguard : Utf8.isValid (utf8 ">" ++ guardFeed name cs) :=
        Utf8.isValid_append (Utf8.isValid_utf8 _) (isValid_guardFeed name cs)
      rw [renderAll_cons_of_done raw ms (renderIn_element raw as hvoid hplain
        (ending_renderAll _ hcs)), ← ihcs', List.nil_append]
      simp only [List.append_assoc]
      rw [isValid_startText hname hkeys, ← List.append_assoc (utf8 ">"),
        Utf8.isValid_append_left hguard, isValid_endText hname]
  | text s ms ih =>
    have hms := ih raw (allWritable_text.mp h) (fun p hp => hnamed p (by simp [hp])) (u ++ s)
    rw [renderAll_cons_of_done raw ms rfl, stretches_text, ← hms, List.append_assoc]
    split
    · rfl
    · exact isValid_escape u s _

/-- **Well-formed pieces make well-formed stretches.** -/
theorem isValid_of_mem_stretches {ms : List Markup} (h : ∀ p ∈ piecesAll ms, p.WellFormed)
    {s : Bytes} (hs : Utf8.isValid s) : ∀ t ∈ stretches s ms, Utf8.isValid t := by
  have hempty : Utf8.isValid [] := Utf8.isValid_utf8 ""
  induction ms using forest_induction generalizing s with
  | nil =>
    rw [stretches_nil]
    exact List.forall_mem_singleton.mpr hs
  | element name as cs ms ihcs ihms =>
    rw [piecesAll_element, List.forall_mem_cons, List.forall_mem_append] at h
    obtain ⟨hvalues, hcs, hms⟩ := h
    rw [stretches_element, List.forall_mem_cons, List.forall_mem_append, List.forall_mem_append]
    exact ⟨hs, ⟨List.forall_mem_map.mpr hvalues, ihcs hcs hempty⟩, ihms hms hempty⟩
  | text t ms ih =>
    rw [piecesAll_text, List.forall_mem_cons] at h
    exact ih h.2 (Utf8.isValid_append hs h.1)

end Markup

/-! ### The script -/

namespace Script

/-- A script is as well-formed as its escaped form. -/
theorem isValid_escape (u s : Bytes) : Utf8.isValid (u ++ escape s) = Utf8.isValid (u ++ s) := by
  induction s generalizing u with
  | nil => rfl
  | cons b s ih =>
    rw [escape]
    split
    · rename_i hb
      rw [hb.1, Utf8.isValid_append_cons (by decide), Utf8.isValid_cons (by decide),
        Utf8.isValid_append_cons (by decide)]
      exact congrArg _ (ih [])
    · rw [List.append_cons, ih, ← List.append_cons]

theorem isValid_paragraph {ls : List Bytes} (h : ∀ l ∈ ls, Utf8.isValid l) :
    Utf8.isValid (paragraph ls) := by
  rw [paragraph]
  split
  · exact Utf8.isValid_utf8 ""
  · exact Utf8.isValid_append (Utf8.isValid_utf8 _) (Utf8.isValid_flatten h)

theorem isValid_wiring {w : Wiring} (h : ∃ body, w.statement = Statement.ofBody body) :
    Utf8.isValid (wiring w) := by
  obtain ⟨body, hbody⟩ := h
  have hid := isValid_of_isCode (isCode_decimalNat w.id)
  have hvalue := Statement.isValid_valueExpression body
  rw [wiring, hbody]
  simp [Utf8.isValid_append_left, Utf8.isValid_utf8, isValid_scriptString, hvalue, hid]

/-- **A script is well-formed** if its initializers are: all else that comes from the source is
written as numbers and string literals. -/
theorem isValid_source {ds : List StateDeclaration} {ws : List Wiring}
    (hds : ∀ d ∈ ds, Utf8.isValid d.initializer)
    (hws : ∀ w ∈ ws, ∃ body, w.statement = Statement.ofBody body) :
    Utf8.isValid (source ds ws) := by
  have hinits : Utf8.isValid (ds.map initialization).flatten := by
    refine Utf8.isValid_flatten (List.forall_mem_map.mpr fun d hd => ?_)
    have hname := Action.isValid_stateReference d.name
    rw [initialization]
    simp [Utf8.isValid_append_left, Utf8.isValid_utf8, hname, hds d hd]
  have hwirings : Utf8.isValid (paragraph (ws.map wiring)) :=
    isValid_paragraph (List.forall_mem_map.mpr fun w hw => isValid_wiring (hws w hw))
  have hrefreshes : Utf8.isValid (paragraph (ds.map refresh)) := by
    refine isValid_paragraph (List.forall_mem_map.mpr fun d _ => ?_)
    rw [refresh]
    simp [Utf8.isValid_append_left, Utf8.isValid_utf8, isValid_scriptString]
  have hfunctions : Utf8.isValid functions := Utf8.isValid_of_ascii (by decide +kernel)
  have hopening : Utf8.isValid opening := Utf8.isValid_utf8 _
  have hclosing : Utf8.isValid closing := Utf8.isValid_utf8 _
  rw [source]
  simp [Utf8.isValid_append_left, hopening, hinits, hfunctions, hwirings, hrefreshes, hclosing]

end Script

/-! ### Documents -/

namespace Document

open Markup Node

/-- The pieces of the markup of a source are named. -/
theorem isNamed_ofNodes {src : Bytes} {states : StateTable} {b : Builder} :
    ∀ p ∈ piecesAll (ofNodes states b (SourceTree.ofSource src).nodes).1, p.IsNamed := by
  intro p hp
  rcases mem_piecesAll_ofNodes hp with ⟨e, he, k, rfl⟩ | ⟨i, -, hp⟩
  · have hspelt := Layout.spelt_of_mem_elements he
    refine ⟨?_, isName_of_mem_attributes hspelt k⟩
    rw [shownTag]
    split
    · decide
    · exact isName_of_isTag hspelt.tag
  · rcases Piece.mem_content_cases hp with rfl | ⟨x, -, rfl | rfl⟩
    · trivial
    · exact ⟨by decide, List.forall_mem_singleton.mpr (show isName bindingMark by decide)⟩
    · trivial

/-- The attributes of a well-formed element are well-formed. -/
theorem isValid_of_mem_attributes {e : Element} (h : e.WellFormed) (id : Nat) :
    ∀ a ∈ attributes id e, Utf8.isValid a.value := by
  have hstyle : Utf8.isValid (Style.text e.style) := by
    refine Utf8.isValid_intercalate (Utf8.isValid_utf8 _) (List.forall_mem_map.mpr fun p hp => ?_)
    obtain ⟨hname, hvalue⟩ := h.style p hp
    exact Utf8.isValid_append (Utf8.isValid_append hname (Utf8.isValid_utf8 _)) hvalue
  exact forall_mem_attributes (P := fun a => Utf8.isValid a.value)
    (Utf8.isValid_intercalate (Utf8.isValid_utf8 _) h.classes) hstyle
    (isValid_of_isCode (isCode_decimalNat id)) h.attributes h.statements
    fun a ha _ hb => Utf8.isValid_append (Utf8.isValid_append hb (Utf8.isValid_utf8 _))
      (h.statements a ha)

/-- **The pieces of the markup of a direct source are well-formed.** -/
theorem wellFormed_ofNodes {src : Bytes} (hsrc : Quoted.IsDirect src) {states : StateTable}
    {b : Builder} :
    ∀ p ∈ piecesAll (ofNodes states b (SourceTree.ofSource src).nodes).1, p.WellFormed := by
  intro p hp
  rcases mem_piecesAll_ofNodes hp with ⟨e, he, k, rfl⟩ | ⟨i, hi, hp⟩
  · exact isValid_of_mem_attributes (Layout.wellFormed_of_mem_elements hsrc he) k
  · have hbinding {x : Bytes} (hx : i.binding? = some x) : Utf8.isValid x :=
      isValid_of_isName (Print.isName_of_isBinding (Layout.isBinding_of_mem_items hi hx))
    rcases Piece.mem_content_cases hp with rfl | ⟨x, hx, rfl | rfl⟩
    · cases i with
      | element e => exact (Layout.wellFormed_of_mem_elements hsrc (mem_elements_iff.mpr hi)).text
      | text t => exact Layout.isValid_of_mem_items hsrc hi
      | comment => exact Utf8.isValid_utf8 ""
    · exact List.forall_mem_singleton.mpr (hbinding hx)
    · exact hbinding hx

/-- What follows the markup starts with a tag and is well-formed if the script is. -/
theorem isValid_append_scriptMarkup (u : Bytes) {s? : Option Bytes}
    (h : ∀ s, s? = some s → Utf8.isValid s) :
    Utf8.isValid (u ++ (scriptMarkup s? ++ closing)) = Utf8.isValid u := by
  have hrest : ∃ r, scriptMarkup s? ++ closing = octet '<' :: r ∧ Utf8.isValid r := by
    cases s? with
    | none => exact ⟨utf8 "/body></html>", rfl, Utf8.isValid_utf8 _⟩
    | some s =>
      refine ⟨utf8 "script>" ++ s ++ utf8 "</script>" ++ closing, rfl, ?_⟩
      exact Utf8.isValid_append (Utf8.isValid_append
        (Utf8.isValid_append (Utf8.isValid_utf8 _) (h s rfl)) (Utf8.isValid_utf8 _))
        (Utf8.isValid_utf8 _)
  obtain ⟨r, hr, hvalid⟩ := hrest
  rw [hr, Utf8.isValid_append_cons (by decide), hvalid, Bool.and_true]

section Compile

variable {src : Bytes} (hsrc : Utf8.isValid src)

include hsrc

theorem isValid_of_text? {s : Bytes} (h : Script.text?
    (SourceTree.ofSource src).states.declarations
    (elements (SourceTree.ofSource src).states (SourceTree.ofSource src).nodes).2.wirings =
      some s) : Utf8.isValid s := by
  rw [Script.text?] at h
  split at h
  · exact absurd h (by simp)
  · obtain rfl := Option.some.inj h
    exact (Script.isValid_escape [] _).trans (Script.isValid_source
      (fun _ => SourceTree.isValid_of_mem_declarations hsrc) fun _ => Wiring.ofBody_of_mem)

/-- **The document of a well-formed source is well-formed exactly if its stretches are.** -/
theorem isValid_compile : Utf8.isValid (compile src) =
    (stretches [] (elements (SourceTree.ofSource src).states
      (SourceTree.ofSource src).nodes).1).all Utf8.isValid := by
  have hwritable := (allWritable_append.mp (allWritable_body src)).1
  have hmarkup := isValid_renderAll false hwritable isNamed_ofNodes []
  rw [List.nil_append] at hmarkup
  have hopening : Utf8.isValid opening := Utf8.isValid_of_ascii (by decide +kernel)
  rw [compile_eq, text_renderAll_script, List.append_assoc, List.append_assoc,
    Utf8.isValid_append_left hopening,
    isValid_append_scriptMarkup _ fun _ => isValid_of_text? hsrc, hmarkup]

end Compile

/-- An octet that is given by its number, and that is no character. -/
theorem ill_formed_document : Utf8.isValid (utf8 "p \"\\xff\"") ∧
    Utf8.isValid (compile (utf8 "p \"\\xff\"")) = false := by
  have hsrc : Utf8.isValid (utf8 "p \"\\xff\"") := Utf8.isValid_utf8 _
  refine ⟨hsrc, ?_⟩
  rw [isValid_compile hsrc]
  decide +kernel

/-- **Whether a document is well-formed is decided by its stretches**, if its source is well-formed:
the values of attributes, and the texts between two tags. A source without escape sequences that
give characters by their numbers has a well-formed document. -/
theorem well_formed_iff_stretches (src : Bytes) (hsrc : Utf8.isValid src) :
    let t := SourceTree.ofSource src
    (Utf8.isValid (compile src) ↔
      ∀ s ∈ stretches [] (elements t.states t.nodes).1, Utf8.isValid s) ∧
    (Quoted.hasNumber src = false → Utf8.isValid (compile src)) := by
  intro t
  have hiff : Utf8.isValid (compile src) ↔
      ∀ s ∈ stretches [] (elements t.states t.nodes).1, Utf8.isValid s := by
    rw [isValid_compile hsrc, List.all_eq_true]
  refine ⟨hiff, fun hnumber => hiff.mpr ?_⟩
  exact isValid_of_mem_stretches (wellFormed_ofNodes ⟨hsrc, hnumber⟩) (Utf8.isValid_utf8 "")

/-- A character in two text lines, half of it in each; and characters as they are, with escape
sequences that are not numbers. -/
theorem well_formed_iff_stretches_halves :
    Utf8.isValid (utf8 "\"\\303\"\n\"\\251\"") ∧
    Utf8.isValid (compile (utf8 "\"\\303\"\n\"\\251\"")) ∧
    Utf8.isValid (utf8 "p(a: \"é\\\"\") \"ü\\n\"") ∧
    Quoted.hasNumber (utf8 "p(a: \"é\\\"\") \"ü\\n\"") = false ∧
    Utf8.isValid (compile (utf8 "p(a: \"é\\\"\") \"ü\\n\"")) := by
  have hhalves : Utf8.isValid (utf8 "\"\\303\"\n\"\\251\"") := Utf8.isValid_utf8 _
  have hdirect : Utf8.isValid (utf8 "p(a: \"é\\\"\") \"ü\\n\"") := Utf8.isValid_utf8 _
  have hnumber : Quoted.hasNumber (utf8 "p(a: \"é\\\"\") \"ü\\n\"") = false := by decide
  have hstretches : (fun t : SourceTree => stretches [] (elements t.states t.nodes).1)
      (SourceTree.ofSource (utf8 "\"\\303\"\n\"\\251\"")) = [utf8 "é"] := by decide +kernel
  refine ⟨hhalves, (well_formed_iff_stretches _ hhalves).1.mpr fun s hs => ?_, hdirect, hnumber,
    (well_formed_iff_stretches _ hdirect).2 hnumber⟩
  have hs' : s ∈ [utf8 "é"] := by
    rw [← hstretches]
    exact hs
  rw [List.mem_singleton.mp hs']
  exact Utf8.isValid_utf8 "é"

end Document

end LiveMarkup
