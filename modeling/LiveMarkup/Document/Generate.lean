import LiveMarkup.Document.Markup
import LiveMarkup.Document.Script
import LiveMarkup.Tree.Reading

/-!
# The document of a tree

A tree becomes one self-contained document: a style sheet, the markup of the elements in the order
of the source, and the script. An element that cannot have content is followed by its content; a
binding becomes a placeholder if its state is declared, and the name as text if not.

`LiveMarkup.Document.generate` is the document of a forest with its states, and
`LiveMarkup.Document.compile` the document of a source.
-/

namespace LiveMarkup

namespace Document

/-- The style sheet of every document. -/
def styleSheet : Bytes :=
  utf8 "*\x7bmargin:0;padding:0;box-sizing:border-box\x7d"
    ++ utf8 "body\x7bfont-family:sans-serif\x7d"
    ++ utf8 "a,button,[" ++ handlerMark ++ utf8 "]\x7bcursor:pointer\x7d"

/-! ### Elements -/

/-- The placeholder of a state. -/
def placeholder (name : Bytes) : Markup :=
  .element (utf8 "span") [⟨bindingMark, name⟩] []

/-- A text and a binding. -/
def content (states : StateTable) (text : Bytes) (binding : Option Bytes) : List Markup :=
  (if text.isEmpty then [] else [.text text]) ++
    (match binding with
      | none => []
      | some x => if states.has x then [placeholder x] else [.text x])

/-- The attributes with a script added to one, after the script that is there already. -/
def appendScript (key value : Bytes) : List Attribute → List Attribute
  | [] => [⟨key, value⟩]
  | a :: as =>
    if a.key = key then { a with value := a.value ++ utf8 "; " ++ value } :: as
    else a :: appendScript key value as

/-- The attributes with those for a handler: the number of the element, or the statement itself if
the browser has to carry it out. -/
def addHandler (id : Nat) (as : List Attribute) (h : Handler) : List Attribute :=
  if h.isCompiled then Attribute.set handlerMark (decimalNat id) as
  else appendScript (utf8 "on" ++ h.event) h.statement.text as

/-- The attributes of an element with a number. -/
def attributes (id : Nat) (e : Element) : List Attribute :=
  let classes := if e.classes.isEmpty then [] else
    [⟨utf8 "class", List.intercalate (utf8 " ") e.classes⟩]
  let set := e.attributes.foldl (fun as a => Attribute.set a.key a.value as) classes
  let styled := if e.style.isEmpty then set else
    Attribute.set (utf8 "style") (Style.text e.style) set
  e.handlers.foldl (addHandler id) styled

/-- The name under which an element is written. -/
def shownTag (e : Element) : Bytes := if e.isPlaintext then utf8 "pre" else e.tag

mutual

/-- The markup of a node, and what has been collected for the script after it. -/
def ofNode (states : StateTable) (b : Builder) : Node → List Markup × Builder
  | .element e cs =>
    let below := ofNodes states ((b.addElement e).addBinding states e.binding) cs
    let inner := content states e.text e.binding ++ below.1
    if e.isVoid then (.element (shownTag e) (attributes b.next e) [] :: inner, below.2)
    else ([.element (shownTag e) (attributes b.next e) inner], below.2)
  | .text t => (content states t.text t.binding, b.addBinding states t.binding)
  | .comment => ([], b)

/-- The markup of a forest, and what has been collected for the script after it. -/
def ofNodes (states : StateTable) (b : Builder) : List Node → List Markup × Builder
  | [] => ([], b)
  | n :: ns =>
    let first := ofNode states b n
    let more := ofNodes states first.2 ns
    (first.1 ++ more.1, more.2)

end

/-! ### Documents -/

/-- The document around the markup of a body. -/
def shell (body : List Markup) : Markup :=
  .element (utf8 "html") [] [
    .element (utf8 "head") [] [
      .element (utf8 "meta") [⟨utf8 "charset", utf8 "utf-8"⟩] [],
      .element (utf8 "style") [] [.text styleSheet]],
    .element (utf8 "body") [] body]

/-- The script element of a body, if a script is needed. -/
def script (states : StateTable) (ws : List Wiring) : List Markup :=
  match Script.text? states.declarations ws with
  | some s => [.element (utf8 "script") [] [.text s]]
  | none => []

/-- The markup of the elements of a document, and what its script needs of them. -/
def elements (states : StateTable) (ns : List Node) : List Markup × Builder := ofNodes states {} ns

/-- The body of a document. -/
def body (states : StateTable) (ns : List Node) : List Markup :=
  let written := elements states ns
  written.1 ++ script states written.2.wirings

/-- What stands in front of a document. -/
def doctype : Bytes := utf8 "<!DOCTYPE html>"

/-- The document without elements and states. -/
def empty : Bytes := doctype ++ (shell []).render.text

/-- The document of a forest. A document that cannot be written is replaced by the empty one. -/
def generate (states : StateTable) (ns : List Node) : Bytes :=
  let written := (shell (body states ns)).render
  match written.ending with
  | .refused => empty
  | _ => doctype ++ written.text

/-- The document of the tree of a source. -/
def ofTree (t : SourceTree) : Bytes := generate t.states t.nodes

/-- The document of a source. -/
def compile (src : Bytes) : Bytes := ofTree (SourceTree.ofSource src)

end Document

end LiveMarkup
