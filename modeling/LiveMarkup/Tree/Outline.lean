import LiveMarkup.Tree.Node

/-!
# The outline of a tree

For inspection a tree is written as indented XML. Elements keep their names; texts and bindings
become attributes, and handlers and text runs become child elements with names of their own.
-/

namespace LiveMarkup

/-- An element of the outline: it has either children or a text. -/
inductive Outline
  | branch (name : Bytes) (attributes : List Attribute) (children : List Outline)
  | leaf (name : Bytes) (attributes : List Attribute) (text : Bytes)

namespace Outline

/-- A name without a colon in front, which would separate an empty namespace. -/
def localName : Bytes → Bytes
  | [] => []
  | b :: r => if b = octet ':' then r else b :: r

/-- Attributes set one after another. -/
def attributes (l : List (Bytes × Bytes)) : List Attribute :=
  l.foldl (fun as a => Attribute.set (localName a.1) a.2 as) []

/-- The attribute for a text that is not empty. -/
def optional (key value : Bytes) : List (Bytes × Bytes) :=
  if value.isEmpty then [] else [(key, value)]

/-- The outline of a handler. -/
def ofHandler (h : Handler) : Outline :=
  let name := utf8 "nml:on"
  let head := [(utf8 "event", h.event), (utf8 "kind", h.statement.action.kindName)]
  match h.statement.action with
  | .raw => .leaf name (attributes head) h.statement.text
  | .assign t l => .leaf name (attributes (head ++ [(utf8 "target", t), (utf8 "value", l)])) []
  | .increment t d | .decrement t d =>
    .leaf name (attributes (head ++ [(utf8 "target", t), (utf8 "delta", decimalInt d.toInt)])) []

/-- The attributes that show an element. -/
def elementAttributes (e : Element) : List Attribute :=
  attributes ((if e.classes.isEmpty then [] else
      [(utf8 "class", List.intercalate (utf8 " ") e.classes)])
    ++ e.attributes.map (fun a => (a.key, a.value))
    ++ (if e.style.isEmpty then [] else [(utf8 "style", Style.text e.style)])
    ++ optional (utf8 "text") e.text ++ optional (utf8 "bind") (e.binding.getD []))

mutual

/-- The outline of a node. -/
def ofNode : Node → List Outline
  | .element e cs =>
    [.branch (localName e.tag) (elementAttributes e) (e.handlers.map ofHandler ++ ofNodes cs)]
  | .text t =>
    [.leaf (utf8 "nml:text") (attributes (optional (utf8 "bind") (t.binding.getD []))) t.text]
  | .comment => []

/-- The outline of a forest. -/
def ofNodes : List Node → List Outline
  | [] => []
  | n :: ns => ofNode n ++ ofNodes ns

end

/-! ### Writing -/

/-- Whether a character is allowed in XML. -/
def isAllowed (c : Char) : Bool :=
  let n := c.toNat
  n == 0x09 || n == 0x0a || n == 0x0d || (0x20 ≤ n && n ≤ 0xd7ff) || (0xe000 ≤ n && n ≤ 0xfffd)
    || 0x10000 ≤ n

/-- How a character is written. -/
def escapeChar (c : Char) : Bytes :=
  if c = '&' then utf8 "&amp;"
  else if c = '<' then utf8 "&lt;"
  else if c = '>' then utf8 "&gt;"
  else if c = '\'' then utf8 "&apos;"
  else if c = '"' then utf8 "&quot;"
  else if isAllowed c then Utf8.encode c
  else Utf8.encode Utf8.replacement

/-- A text with the characters of XML escaped. -/
def escape (s : Bytes) : Bytes := (Utf8.lossy s).flatMap escapeChar

/-- A list of attributes, each after a space. -/
def writeAttributes (as : List Attribute) : Bytes :=
  as.flatMap fun a => utf8 " " ++ a.key ++ utf8 "=\"" ++ escape a.value ++ utf8 "\""

/-- The white space in front of a line. -/
def margin (depth : Nat) : Bytes := List.replicate (2 * depth) (octet ' ')

mutual

/-- An element and everything below it, with a line for each. -/
def write (depth : Nat) : Outline → Bytes
  | .branch name as [] =>
    margin depth ++ utf8 "<" ++ name ++ writeAttributes as ++ utf8 "/>\n"
  | .branch name as (c :: cs) =>
    margin depth ++ utf8 "<" ++ name ++ writeAttributes as ++ utf8 ">\n"
      ++ writeAll (depth + 1) (c :: cs)
      ++ margin depth ++ utf8 "</" ++ name ++ utf8 ">\n"
  | .leaf name as text =>
    margin depth ++ utf8 "<" ++ name ++ writeAttributes as ++
      (if text.isEmpty then utf8 "/>\n"
      else utf8 ">" ++ escape text ++ utf8 "</" ++ name ++ utf8 ">\n")

/-- A list of elements. -/
def writeAll (depth : Nat) : List Outline → Bytes
  | [] => []
  | o :: os => write depth o ++ writeAll depth os

end

/-- The outline of a forest as text. -/
def dump (ns : List Node) : Bytes := writeAll 0 (ofNodes ns)

end Outline

end LiveMarkup
