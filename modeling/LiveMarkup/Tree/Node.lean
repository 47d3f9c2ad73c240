import LiveMarkup.Source.Position
import LiveMarkup.Statement
import LiveMarkup.Style.Declaration

/-!
# The tree of a source

Elements hold their classes, attributes, style, text, binding and handlers, and have children; text
runs hold a text and a binding. `LiveMarkup.Node.preorder` lists the nodes of a forest in the order
of the source.
-/

namespace LiveMarkup

/-- A handler of an event. -/
structure Handler where
  /-- The element that the handler belongs to, by its position: no two nodes of a source have the
  same. -/
  element : Position
  event : Bytes
  statement : Statement
  position : Position
  deriving DecidableEq, Repr

namespace Handler

/-- Whether the handler is carried out by the script. -/
def isCompiled (h : Handler) : Bool := h.statement.isCompiled

end Handler

/-- An attribute. -/
structure Attribute where
  key : Bytes
  value : Bytes
  deriving DecidableEq, Repr

namespace Attribute

/-- The attributes with one set. A key that is there already keeps its place. -/
def set (key value : Bytes) : List Attribute → List Attribute
  | [] => [⟨key, value⟩]
  | a :: as => if a.key = key then { a with value } :: as else a :: set key value as

/-- The value of the first attribute with a key. -/
def get? (key : Bytes) (as : List Attribute) : Option Bytes :=
  (as.find? (·.key = key)).map (·.value)

end Attribute

/-- The elements that cannot have content. -/
def voidTags : List Bytes :=
  ["area", "base", "br", "col", "embed", "hr", "img", "input", "keygen", "link", "meta", "param",
    "source", "track", "wbr"].map utf8

/-- The element after which a document cannot go on. -/
def plaintextTag : Bytes := utf8 "plaintext"

/-- An element without its children. -/
structure Element where
  tag : Bytes
  /-- Whether the tag is taken for the standard element of that name. -/
  standard : Bool := true
  classes : List Bytes := []
  attributes : List Attribute := []
  style : List StyleProperty := []
  text : Bytes := []
  binding : Option Bytes := none
  position : Position := ⟨0, 0⟩
  handlers : List Handler := []
  deriving DecidableEq, Repr

namespace Element

/-- Whether the element cannot have content. -/
def isVoid (e : Element) : Bool := e.standard && e.tag ∈ voidTags

/-- Whether the element is the obsolete one that is shown as preformatted text. -/
def isPlaintext (e : Element) : Bool := e.standard && e.tag == plaintextTag

/-- Whether the script has a handler for the element. -/
def isLive (e : Element) : Bool := e.handlers.any Handler.isCompiled

/-- The element with one more class, unless it has it. -/
def addClass (e : Element) (c : Bytes) : Element :=
  if c ∈ e.classes then e else { e with classes := e.classes ++ [c] }

/-- The element with an attribute set. -/
def setAttribute (e : Element) (key value : Bytes) : Element :=
  { e with attributes := Attribute.set key value e.attributes }

/-- The element with more style declarations. -/
def addStyle (e : Element) (ps : List StyleProperty) : Element :=
  { e with style := Style.setAll ps e.style }

/-- The element with one more handler. -/
def addHandler (e : Element) (h : Handler) : Element := { e with handlers := e.handlers ++ [h] }

end Element

/-- A text without an element. -/
structure TextRun where
  text : Bytes
  binding : Option Bytes := none
  position : Position := ⟨0, 0⟩
  deriving DecidableEq, Repr

/-- A node of the tree. -/
inductive Node
  | element (element : Element) (children : List Node)
  | text (run : TextRun)
  /-- A node that stands for nothing in the output. -/
  | comment
  deriving Inhabited

namespace Node

/-- The binding of a node. -/
def binding? : Node → Option Bytes
  | .element e _ => e.binding
  | .text t => t.binding
  | .comment => none

/-- The position of a node. -/
def position : Node → Position
  | .element e _ => e.position
  | .text t => t.position
  | .comment => ⟨0, 0⟩

mutual

/-- A node and all nodes below it, each with its depth, parents before children. -/
def preorder (depth : Nat) : Node → List (Nat × Node)
  | .element e cs => (depth, .element e cs) :: preorderAll (depth + 1) cs
  | n => [(depth, n)]

/-- The nodes of a forest, each with its depth, parents before children. -/
def preorderAll (depth : Nat) : List Node → List (Nat × Node)
  | [] => []
  | n :: ns => preorder depth n ++ preorderAll depth ns

end

/-- The elements of a forest, parents before children. -/
def elements (ns : List Node) : List Element :=
  (preorderAll 0 ns).filterMap fun
    | (_, .element e _) => some e
    | _ => none

/-- The nodes of a forest that have a binding, with their positions, parents before children. -/
def bindings (ns : List Node) : List (Bytes × Position) :=
  (preorderAll 0 ns).filterMap fun (_, n) => n.binding?.map fun x => (x, n.position)

end Node

end LiveMarkup
