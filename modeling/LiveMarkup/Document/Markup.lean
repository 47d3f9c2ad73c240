import LiveMarkup.Tree.Node

/-!
# Markup

The tree of an HTML document and its text. Texts and attribute values are escaped; the text below
some elements is written as it is. Two elements are special: an element that cannot have content
must not have children, and a document cannot go on after the plain-text element.

`LiveMarkup.Markup.render` writes a tree; it says besides whether it came to the end.
-/

namespace LiveMarkup

/-- A node of a document. -/
inductive Markup
  | element (name : Bytes) (attributes : List Attribute) (children : List Markup)
  | text (text : Bytes)

namespace Markup

/-- How an octet is written in a text or an attribute value. -/
def escapeOctet (b : UInt8) : Bytes :=
  if b = octet '&' then utf8 "&amp;"
  else if b = octet '\'' then utf8 "&#39;"
  else if b = octet '<' then utf8 "&lt;"
  else if b = octet '>' then utf8 "&gt;"
  else if b = octet '"' then utf8 "&#34;"
  else if b = octet '\r' then utf8 "&#13;"
  else [b]

/-- A text with the octets of HTML escaped. -/
def escape (s : Bytes) : Bytes := s.flatMap escapeOctet

/-- The elements whose text is not escaped. -/
def rawTextTags : List Bytes :=
  ["iframe", "noembed", "noframes", "noscript", "plaintext", "script", "style", "xmp"].map utf8

/-- The elements of which a line feed right after the start tag does not count. -/
def preformattedTags : List Bytes := ["pre", "listing", "textarea"].map utf8

/-- How the writing of a tree came to its end. -/
inductive Ending
  | complete
  /-- Nothing can follow. -/
  | cut
  /-- An element that cannot have content has children. -/
  | refused
  deriving DecidableEq, Repr

/-- What was written. -/
structure Written where
  text : Bytes
  ending : Ending
  deriving DecidableEq, Repr

namespace Written

/-- A text that can be followed by more. -/
def done (s : Bytes) : Written := ⟨s, .complete⟩

/-- One text after another, unless nothing can follow the first one. -/
def append (a b : Written) : Written :=
  match a.ending with
  | .complete => ⟨a.text ++ b.text, b.ending⟩
  | _ => a

end Written

/-- A list of attributes, each after a space. -/
def writeAttributes (as : List Attribute) : Bytes :=
  as.flatMap fun a => utf8 " " ++ a.key ++ utf8 "=\"" ++ escape a.value ++ utf8 "\""

/-- The line feed that keeps another one at the start of a preformatted text. -/
def guardFeed (name : Bytes) : List Markup → Bytes
  | .text (b :: _) :: _ =>
    if b = octet '\n' ∧ name ∈ preformattedTags then utf8 "\n" else []
  | _ => []

/-- What follows the children of an element. -/
def writeEnd (name : Bytes) : Written :=
  if name = plaintextTag then ⟨[], .cut⟩ else .done (utf8 "</" ++ name ++ utf8 ">")

mutual

/-- The text of a node; `raw` is whether it is written as it is if it is a text. -/
def renderIn (raw : Bool) : Markup → Written
  | .text s => .done (if raw then s else escape s)
  | .element name as cs =>
    let start := utf8 "<" ++ name ++ writeAttributes as
    if name ∈ voidTags then
      if cs.isEmpty then .done (start ++ utf8 "/>") else ⟨start, .refused⟩
    else
      ((Written.done (start ++ utf8 ">" ++ guardFeed name cs)).append
        (renderAll (name ∈ rawTextTags) cs)).append (writeEnd name)

/-- The text of a list of nodes; `raw` is whether texts among them are written as they are. -/
def renderAll (raw : Bool) : List Markup → Written
  | [] => .done []
  | c :: cs => (renderIn raw c).append (renderAll raw cs)

end

/-- The text of a tree. -/
def render (m : Markup) : Written := renderIn false m

end Markup

end LiveMarkup
