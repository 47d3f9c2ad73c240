import LiveMarkup.Proofs.Document.Pieces
import LiveMarkup.Proofs.Tree.Spelling

/-!
# Documents that are written to their end

Writing a document stops early in two cases: at an element that cannot have content and has
children, and after the plain-text element. `LiveMarkup.Markup.Writable` says that neither occurs in
a tree, and `LiveMarkup.Markup.ending_renderAll` that such a tree is then written completely.

The body of a source is always of this kind (`LiveMarkup.Document.allWritable_body`): content
of an element that cannot have any is put after it, however many such elements are below each other,
and the plain-text element gets another name. So the text of a document is the fixed frame around
the text of its body (`LiveMarkup.Document.compile_eq`), and the empty document is never put in the
place of another one.
-/

namespace LiveMarkup

namespace Markup

/-- **Induction on a list of trees**: an element in front of a list is reached from the list of its
children and from the list after it. -/
@[elab_as_elim]
theorem forest_induction {motive : List Markup → Prop} (nil : motive [])
    (element : ∀ name as cs ms, motive cs → motive ms → motive (.element name as cs :: ms))
    (text : ∀ s ms, motive ms → motive (.text s :: ms)) (ms : List Markup) : motive ms :=
  match ms with
  | [] => nil
  | .element name as cs :: ms =>
    element name as cs ms (forest_induction nil element text cs)
      (forest_induction nil element text ms)
  | .text s :: ms => text s ms (forest_induction nil element text ms)

/-! ### Trees that can be written -/

mutual

/-- **A tree can be written**: no element is the plain-text element, and none that cannot have
content has children. -/
def Writable : Markup → Prop
  | .element name _ cs => name ≠ plaintextTag ∧ (name ∈ voidTags → cs = []) ∧ AllWritable cs
  | .text _ => True

/-- All trees of a list can be written. -/
def AllWritable : List Markup → Prop
  | [] => True
  | m :: ms => m.Writable ∧ AllWritable ms

end

@[simp] theorem allWritable_nil : AllWritable [] := trivial

@[simp] theorem allWritable_element {name : Bytes} {as : List Attribute} {cs ms : List Markup} :
    AllWritable (.element name as cs :: ms) ↔
      (name ≠ plaintextTag ∧ (name ∈ voidTags → cs = []) ∧ AllWritable cs) ∧ AllWritable ms :=
  Iff.rfl

@[simp] theorem allWritable_text {s : Bytes} {ms : List Markup} :
    AllWritable (.text s :: ms) ↔ AllWritable ms := by
  rw [AllWritable, Writable, true_and]

@[simp] theorem allWritable_append {ms ns : List Markup} :
    AllWritable (ms ++ ns) ↔ AllWritable ms ∧ AllWritable ns := by
  induction ms with
  | nil => simp
  | cons m ms ih => rw [List.cons_append, AllWritable, ih, AllWritable, and_assoc]

/-! ### Writing them -/

theorem Written.append_of_complete {a : Written} (h : a.ending = .complete) (b : Written) :
    a.append b = ⟨a.text ++ b.text, b.ending⟩ := by
  rw [Written.append, h]

/-- How an element starts, up to the end of its attributes. -/
def startText (name : Bytes) (as : List Attribute) : Bytes := utf8 "<" ++ name ++ writeAttributes as

/-- How an element that can have content ends. -/
def endText (name : Bytes) : Bytes := utf8 "</" ++ name ++ utf8 ">"

section Element

variable {name : Bytes} (raw : Bool) (as : List Attribute) {cs : List Markup} (ms : List Markup)

/-- An element that cannot have content is one tag. -/
theorem renderIn_void (hvoid : name ∈ voidTags) :
    renderIn raw (.element name as []) = .done (startText name as ++ utf8 "/>") := by
  rw [renderIn, if_pos hvoid]
  rfl

/-- An element with content is its start tag, the content and its end tag. -/
theorem renderIn_element (hvoid : name ∉ voidTags) (hplain : name ≠ plaintextTag)
    (hcs : (renderAll (name ∈ rawTextTags) cs).ending = .complete) :
    renderIn raw (.element name as cs) =
      .done (startText name as ++ utf8 ">" ++ guardFeed name cs ++
        (renderAll (name ∈ rawTextTags) cs).text ++ endText name) := by
  have hinner : ((Written.done (utf8 "<" ++ name ++ writeAttributes as ++ utf8 ">" ++
      guardFeed name cs)).append (renderAll (name ∈ rawTextTags) cs)).ending = .complete := hcs
  rw [renderIn, if_neg hvoid, writeEnd, if_neg hplain, Written.append_of_complete hinner]
  rfl

theorem renderAll_cons_of_done {m : Markup} {s : Bytes} (h : renderIn raw m = .done s) :
    renderAll raw (m :: ms) = ⟨s ++ (renderAll raw ms).text, (renderAll raw ms).ending⟩ := by
  rw [renderAll, h]
  rfl

end Element

/-- **Trees that can be written are written to their end.** -/
theorem ending_renderAll (raw : Bool) {ms : List Markup} (h : AllWritable ms) :
    (renderAll raw ms).ending = .complete := by
  induction ms using forest_induction generalizing raw with
  | nil => rfl
  | element name as cs ms ihcs ihms =>
    obtain ⟨⟨hplain, hempty, hcs⟩, hms⟩ := allWritable_element.mp h
    by_cases hvoid : name ∈ voidTags
    · obtain rfl := hempty hvoid
      rw [renderAll_cons_of_done raw ms (renderIn_void raw as hvoid)]
      exact ihms raw hms
    · rw [renderAll_cons_of_done raw ms (renderIn_element raw as hvoid hplain (ihcs _ hcs))]
      exact ihms raw hms
  | text s ms ih => exact ih raw (allWritable_text.mp h)

/-- Each tree of such a list is written to its end. -/
theorem ending_renderIn (raw : Bool) {m : Markup} (h : m.Writable) :
    (renderIn raw m).ending = .complete := by
  have hone : (renderAll raw [m]).ending = .complete := ending_renderAll raw ⟨h, trivial⟩
  rw [renderAll, Written.append] at hone
  split at hone
  · assumption
  · exact hone

/-- The texts of lists of trees are put one after another, as the lists are. -/
theorem text_renderAll_append (raw : Bool) {ms : List Markup} (h : AllWritable ms)
    (ns : List Markup) :
    (renderAll raw (ms ++ ns)).text = (renderAll raw ms).text ++ (renderAll raw ns).text := by
  induction ms with
  | nil => rfl
  | cons m ms ih =>
    have hm := ending_renderIn raw h.1
    rw [List.cons_append, renderAll, Written.append_of_complete hm, ih h.2, renderAll,
      Written.append_of_complete hm, List.append_assoc]

theorem guardFeed_of_notMem {name : Bytes} (h : name ∉ preformattedTags) (cs : List Markup) :
    guardFeed name cs = [] := by
  rw [guardFeed.eq_def]
  split
  · exact if_neg fun hand => h hand.2
  · rfl

end Markup

/-! ### The markup of a source can be written -/

namespace Document

open Markup

theorem shownTag_mem_voidTags_iff {e : Element} (h : e.standard) :
    shownTag e ∈ voidTags ↔ e.isVoid := by
  rw [shownTag, Element.isVoid, h, Bool.true_and, decide_eq_true_eq]
  split
  · rename_i hplain
    have htag : e.tag = plaintextTag := by
      rw [Element.isPlaintext, h, Bool.true_and] at hplain
      exact eq_of_beq hplain
    rw [htag]
    decide
  · rfl

theorem shownTag_ne_plaintextTag {e : Element} (h : e.standard) : shownTag e ≠ plaintextTag := by
  rw [shownTag]
  split
  · decide
  · rename_i hplain
    rw [Element.isPlaintext, h, Bool.true_and] at hplain
    intro htag
    exact hplain (beq_iff_eq.mpr htag)

theorem allWritable_content (states : StateTable) (text : Bytes) (binding : Option Bytes) :
    AllWritable (content states text binding) := by
  have hspan (x : Bytes) : AllWritable [placeholder x] := by
    refine allWritable_element.mpr ⟨⟨by decide, fun _ => rfl, trivial⟩, trivial⟩
  rw [content.eq_def, allWritable_append]
  constructor
  · split <;> simp
  · cases binding with
    | none => trivial
    | some x =>
      dsimp only
      split
      · exact hspan x
      · simp

/-- **The markup of a forest can be written**: an element that cannot have content is written
without children, and what is below it comes after it. -/
theorem allWritable_ofNodes (states : StateTable) (b : Builder) {ns : List Node}
    (h : ∀ e ∈ Node.elements ns, e.standard) : AllWritable (ofNodes states b ns).1 := by
  induction ns using Node.forest_induction generalizing b with
  | nil => trivial
  | element e cs ns ihcs ihns =>
    rw [Node.elements_element] at h
    have he : e.standard := h e List.mem_cons_self
    have hcs (c : Builder) := ihcs c fun e' he' => h e' (by simp [he'])
    have hns (c : Builder) := ihns c fun e' he' => h e' (by simp [he'])
    have hplain := shownTag_ne_plaintextTag he
    have hinner : AllWritable (content states e.text e.binding ++
        (ofNodes states ((b.addElement e).addBinding states e.binding) cs).1) :=
      allWritable_append.mpr ⟨allWritable_content _ _ _, hcs _⟩
    rw [ofNodes, allWritable_append, ofNode]
    refine ⟨?_, hns _⟩
    cases hvoid : e.isVoid with
    | true =>
      rw [if_pos rfl]
      exact allWritable_element.mpr ⟨⟨hplain, fun _ => rfl, trivial⟩, hinner⟩
    | false =>
      rw [if_neg (by simp)]
      refine allWritable_element.mpr ⟨⟨hplain, fun hmem => ?_, hinner⟩, trivial⟩
      rw [(shownTag_mem_voidTags_iff he).mp hmem] at hvoid
      exact absurd hvoid (by simp)
  | text t ns ih =>
    rw [ofNodes, allWritable_append]
    exact ⟨allWritable_content states t.text t.binding, ih _ h⟩
  | comment ns ih =>
    rw [ofNodes, allWritable_append]
    exact ⟨trivial, ih b h⟩

theorem allWritable_script (states : StateTable) (ws : List Wiring) :
    AllWritable (script states ws) := by
  rw [script]
  split
  · refine allWritable_element.mpr ⟨⟨by decide, fun h => absurd h (by decide), ?_⟩, trivial⟩
    exact allWritable_text.mpr trivial
  · trivial

/-- A script in its element, if there is one. -/
def scriptMarkup : Option Bytes → Bytes
  | some s => utf8 "<script>" ++ s ++ utf8 "</script>"
  | none => []

/-- The text of a script element is the script as it is. -/
theorem text_renderAll_script (states : StateTable) (ws : List Wiring) :
    (renderAll false (script states ws)).text =
      scriptMarkup (Script.text? states.declarations ws) := by
  rw [script]
  cases Script.text? states.declarations ws with
  | none => rfl
  | some s =>
    have hs : (renderAll (decide (utf8 "script" ∈ rawTextTags)) [.text s]).text = s := by
      rw [decide_eq_true (by decide)]
      exact List.append_nil s
    have helement : renderIn false (.element (utf8 "script") [] [.text s]) = _ :=
      renderIn_element false [] (by decide) (by decide) rfl
    rw [renderAll_cons_of_done false [] helement, hs, guardFeed_of_notMem (by decide),
      List.append_nil]
    exact List.append_nil _

/-! ### The text of a document -/

/-- The head of every document. -/
def head : Markup :=
  .element (utf8 "head") [] [
    .element (utf8 "meta") [⟨utf8 "charset", utf8 "utf-8"⟩] [],
    .element (utf8 "style") [] [.text styleSheet]]

theorem shell_eq (body : List Markup) :
    shell body = .element (utf8 "html") [] [head, .element (utf8 "body") [] body] := rfl

theorem writable_shell {body : List Markup} (h : AllWritable body) : (shell body).Writable := by
  have hmeta : Writable (.element (utf8 "meta") [⟨utf8 "charset", utf8 "utf-8"⟩] []) :=
    ⟨by decide, fun _ => rfl, trivial⟩
  have hstyle : Writable (.element (utf8 "style") [] [.text styleSheet]) :=
    ⟨by decide, fun hvoid => absurd hvoid (by decide), trivial, trivial⟩
  have hhead : head.Writable :=
    ⟨by decide, fun hvoid => absurd hvoid (by decide), hmeta, hstyle, trivial⟩
  have hbody : Writable (.element (utf8 "body") [] body) :=
    ⟨by decide, fun hvoid => absurd hvoid (by decide), h⟩
  exact ⟨by decide, fun hvoid => absurd hvoid (by decide), hhead, hbody, trivial⟩

/-- The text of the head. -/
def headText : Bytes :=
  utf8 "<head><meta charset=\"utf-8\"/><style>" ++ styleSheet ++ utf8 "</style></head>"

/-- What stands in front of the text of a body. -/
def opening : Bytes := doctype ++ utf8 "<html>" ++ headText ++ utf8 "<body>"

/-- What stands after the text of a body. -/
def closing : Bytes := utf8 "</body></html>"

/-- An element of the frame around a body: its content is escaped and no line feed is guarded. -/
theorem renderIn_frame {name : Bytes} {cs : List Markup} (hvoid : name ∉ voidTags)
    (hplain : name ≠ plaintextTag) (hraw : name ∉ rawTextTags) (hpre : name ∉ preformattedTags)
    (h : AllWritable cs) : renderIn false (.element name [] cs) =
      .done (startText name [] ++ utf8 ">" ++ (renderAll false cs).text ++ endText name) := by
  have hfalse : decide (name ∈ rawTextTags) = false := decide_eq_false hraw
  rw [renderIn_element false [] hvoid hplain (ending_renderAll _ h), guardFeed_of_notMem hpre,
    List.append_nil, hfalse]

/-- **A document that can be written** is the text of its body in a fixed frame. -/
theorem render_shell {body : List Markup} (h : AllWritable body) :
    (shell body).render =
      .done (utf8 "<html>" ++ headText ++ utf8 "<body>" ++ (renderAll false body).text ++
        closing) := by
  have hhead : renderIn false head = .done headText := rfl
  have hbody : renderIn false (.element (utf8 "body") [] body) = _ :=
    renderIn_frame (by decide) (by decide) (by decide) (by decide) h
  have hcs : AllWritable [head, .element (utf8 "body") [] body] := (writable_shell h).2.2
  rw [render, shell_eq, renderIn_frame (by decide) (by decide) (by decide) (by decide) hcs,
    renderAll_cons_of_done false _ hhead, renderAll_cons_of_done false _ hbody]
  have hhtml : startText (utf8 "html") [] ++ utf8 ">" = utf8 "<html>" := rfl
  have hstart : startText (utf8 "body") [] ++ utf8 ">" = utf8 "<body>" := rfl
  have hclosing : closing = endText (utf8 "body") ++ endText (utf8 "html") := rfl
  rw [hhtml, hstart, hclosing]
  simp [renderAll, Written.done]

/-- **The body of a source can be written.** -/
theorem allWritable_body (src : Bytes) :
    AllWritable (body (SourceTree.ofSource src).states (SourceTree.ofSource src).nodes) :=
  allWritable_append.mpr ⟨allWritable_ofNodes _ _
    fun _ he => (Layout.spelt_of_mem_elements he).standard, allWritable_script _ _⟩

/-- **The document of a source is written to its end**, and never replaced by the empty one: it is
the text of the markup and of the script in a fixed frame. -/
theorem compile_eq (src : Bytes) :
    let t := SourceTree.ofSource src
    let written := elements t.states t.nodes
    compile src = opening ++ (renderAll false written.1).text ++
      (renderAll false (script t.states written.2.wirings)).text ++ closing := by
  intro t written
  have hbody : AllWritable (body t.states t.nodes) := allWritable_body src
  have hnodes : AllWritable written.1 := (allWritable_append.mp hbody).1
  have hcompile : compile src = generate t.states t.nodes := rfl
  rw [hcompile, generate, render_shell hbody, body, text_renderAll_append false hnodes, opening]
  simp only [written, Written.done, List.append_assoc]

end Document

end LiveMarkup
