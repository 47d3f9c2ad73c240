import LiveMarkup.Document.Markup
import LiveMarkup.Proofs.Html.References

/-!
# Reading HTML

How the text of a document is taken apart: `LiveMarkup.Html.Names.step` reads one octet after
another and is always at one place (`LiveMarkup.Html.Place`): in a text, at some point of a tag, or
in an element the content of which is a text. What it has read is a list of tokens, with the
references in texts and values replaced. It knows nothing of how a document was written. Left out
are the octet NUL, which is no part of a document, and what `<!--` does in a script.

What a piece of text does to the reader is stated as `LiveMarkup.Html.Names.Reads`, and such
statements are joined where pieces are (`LiveMarkup.Html.Names.Reads.append`). A piece without `<`
is part of the content of the element it stands in (`LiveMarkup.Html.Names.reads_plain`), and one
without quotes is part of a value (`LiveMarkup.Html.Names.reads_quoted`).
-/

namespace LiveMarkup

namespace Html

/-! ### Tokens -/

/-- An attribute: its key and its value. -/
abbrev Attributes := List (Bytes × Bytes)

/-- A token of a document. -/
inductive Token
  /-- What begins with `<!`: the type of the document, or a comment. -/
  | declaration (s : Bytes)
  | start (name : Bytes) (attributes : Attributes)
  | finish (name : Bytes)
  | text (s : Bytes)
  /-- A start tag of an element the content of which is a text, and that text. -/
  | plain (name : Bytes) (attributes : Attributes) (content : Bytes)
  deriving DecidableEq, Repr

/-- A tag that is being read. -/
structure Tag where
  isFinish : Bool
  name : Bytes
  attributes : Attributes := []
  deriving DecidableEq, Repr

/-- Where the reader is. -/
inductive Place
  | text (read : Bytes)
  /-- Behind `<`. -/
  | opened
  /-- Behind `</`. -/
  | leaving
  | declaration (read : Bytes)
  | name (isFinish : Bool) (read : Bytes)
  /-- In a tag, where an attribute may begin. -/
  | between (g : Tag)
  | key (g : Tag) (read : Bytes)
  /-- Behind a key and a blank. -/
  | named (g : Tag) (key : Bytes)
  /-- Behind the equals sign. -/
  | sign (g : Tag) (key : Bytes)
  | quoted (g : Tag) (key : Bytes) (quote : UInt8) (read : Bytes)
  | bare (g : Tag) (key read : Bytes)
  /-- In an element the content of which is a text. -/
  | plain (g : Tag) (content : Bytes)
  /-- In such an element, behind a `<`. -/
  | closing (g : Tag) (content read : Bytes)
  deriving DecidableEq, Repr

/-- The elements the content of which is a text with references. -/
def textTags : List Bytes := [utf8 "textarea", utf8 "title"]

/-- Whether the content of an element is a text. -/
def isPlain (name : Bytes) : Bool := name ∈ Markup.rawTextTags || name ∈ textTags

/-- Whether a comment is still open, by what was read behind `<!`. -/
def isOpenComment (s : Bytes) : Bool :=
  (utf8 "--").isPrefixOf s && !(utf8 "--").isSuffixOf s && !(utf8 "--!").isSuffixOf (s.drop 2)

/-- Whether an octet ends a name. -/
def isGap (b : UInt8) : Bool := isPatternBlank b || b == octet '/'

/-- At the end of a tag. -/
def Tag.close (g : Tag) : List Token × Place :=
  if g.isFinish then ([.finish g.name], .text [])
  else if isPlain g.name then ([], .plain g [])
  else ([.start g.name g.attributes], .text [])

namespace Names

variable (t : Names)

/-- A tag with one more attribute. -/
def put (g : Tag) (key value : Bytes) : Tag :=
  { g with attributes := g.attributes ++ [(key, t.decode true value)] }

/-- The tokens for a text. -/
def texts (s : Bytes) : List Token := if s = [] then [] else [.text (t.decode false s)]

/-- The token for an element with its content. -/
def element (g : Tag) (content : Bytes) : Token :=
  .plain g.name g.attributes (if g.name ∈ textTags then t.decode false content else content)

/-! ### Octet by octet -/

/-- **One octet is read**: the tokens that it completes, and where the reader is then. -/
def step : Place → UInt8 → List Token × Place
  | .text read, b =>
    if b = octet '<' then (t.texts read, .opened) else ([], .text (read ++ [b]))
  | .opened, b =>
    if b = octet '/' then ([], .leaving)
    else if b = octet '!' then ([], .declaration [])
    else if b = octet '?' then ([], .declaration [b])
    else if isAlphaOctet b then ([], .name false [lowerOctet b])
    else if b = octet '<' then ([.text [octet '<']], .opened)
    else ([], .text [octet '<', b])
  | .leaving, b =>
    if b = octet '>' then ([], .text [])
    else if isAlphaOctet b then ([], .name true [lowerOctet b])
    else ([], .declaration [b])
  | .declaration read, b =>
    if b = octet '>' ∧ ¬isOpenComment read then ([.declaration read], .text [])
    else ([], .declaration (read ++ [b]))
  | .name isFinish read, b =>
    if b = octet '>' then Tag.close { isFinish, name := read }
    else if isGap b then ([], .between { isFinish, name := read })
    else ([], .name isFinish (read ++ [lowerOctet b]))
  | .between g, b =>
    if b = octet '>' then g.close
    else if isGap b then ([], .between g)
    else ([], .key g [lowerOctet b])
  | .key g read, b =>
    if b = octet '=' then ([], .sign g read)
    else if b = octet '>' then (t.put g read []).close
    else if isPatternBlank b then ([], .named g read)
    else if b = octet '/' then ([], .between (t.put g read []))
    else ([], .key g (read ++ [lowerOctet b]))
  | .named g key, b =>
    if b = octet '=' then ([], .sign g key)
    else if b = octet '>' then (t.put g key []).close
    else if isPatternBlank b then ([], .named g key)
    else if b = octet '/' then ([], .between (t.put g key []))
    else ([], .key (t.put g key []) [lowerOctet b])
  | .sign g key, b =>
    if b = octet '>' then (t.put g key []).close
    else if isPatternBlank b then ([], .sign g key)
    else if Quoted.isQuote b then ([], .quoted g key b [])
    else ([], .bare g key [b])
  | .quoted g key quote read, b =>
    if b = quote then ([], .between (t.put g key read)) else ([], .quoted g key quote (read ++ [b]))
  | .bare g key read, b =>
    if b = octet '>' then (t.put g key read).close
    else if isPatternBlank b then ([], .between (t.put g key read))
    else ([], .bare g key (read ++ [b]))
  | .plain g content, b =>
    if b = octet '<' then ([], .closing g content []) else ([], .plain g (content ++ [b]))
  | .closing g content read, b =>
    if read.map lowerOctet = octet '/' :: g.name ∧ (b = octet '>' ∨ isGap b) then
      if b = octet '>' then ([t.element g content, .finish g.name], .text [])
      else ([t.element g content], .between { isFinish := true, name := g.name })
    else if b = octet '<' then ([], .closing g (content ++ octet '<' :: read) [])
    else ([], .closing g content (read ++ [b]))

/-- **What a text does to the reader**: the tokens that it completes, and where the reader is
then. -/
def run (p : Place) : Bytes → List Token × Place
  | [] => ([], p)
  | b :: s =>
    let now := t.step p b
    let later := run now.2 s
    (now.1 ++ later.1, later.2)

/-- What is left at the end of a document. A tag without its end is no token. -/
def atEnd : Place → List Token
  | .text read => t.texts read
  | .opened => [.text [octet '<']]
  | .leaving => [.text (utf8 "</")]
  | .declaration read => [.declaration read]
  | .plain g content => [t.element g content]
  | .closing g content read => [t.element g (content ++ octet '<' :: read)]
  | _ => []

/-- **The tokens of a document.** -/
def tokens (s : Bytes) : List Token := (t.run (.text []) s).1 ++ t.atEnd (t.run (.text []) s).2

/-! ### Pieces of a document -/

/-- A piece of a document completes some tokens and leads from one place to another. -/
def Reads (p : Place) (s : Bytes) (ts : List Token) (q : Place) : Prop := t.run p s = (ts, q)

variable {t} {p q r : Place} {s s' : Bytes} {ts ts' : List Token}

theorem Reads.append (h : t.Reads p s ts q) (h' : t.Reads q s' ts' r) :
    t.Reads p (s ++ s') (ts ++ ts') r := by
  induction s generalizing p ts with
  | nil =>
    obtain ⟨rfl, rfl⟩ := Prod.mk.inj h
    exact h'
  | cons b s ih =>
    -- The tokens of the first octet come first on both sides.
    obtain ⟨rfl, hq⟩ := Prod.mk.inj h
    have hlater : t.Reads (t.step p b).2 s (t.run (t.step p b).2 s).1 q := Prod.ext rfl hq
    rw [Reads, List.cons_append, run, ih hlater, List.append_assoc]

theorem reads_singleton {b : UInt8} (h : t.step p b = (ts, q)) : t.Reads p [b] ts q := by
  rw [Reads, run, h]
  exact Prod.ext (List.append_nil ts) rfl

theorem tokens_of_reads (h : t.Reads (.text []) s ts (.text [])) : t.tokens s = ts := by
  rw [tokens, h]
  exact List.append_nil ts

/-- Where octets of some kind are added to what was read, a piece of them is added as a whole. -/
theorem reads_of_step (place : Bytes → Place) {P : UInt8 → Prop}
    (hstep : ∀ read b, P b → t.step (place read) b = ([], place (read ++ [b])))
    (hs : ∀ b ∈ s, P b) (read : Bytes) : t.Reads (place read) s [] (place (read ++ s)) := by
  induction s generalizing read with
  | nil =>
    rw [List.append_nil]
    rfl
  | cons b s ih =>
    rw [List.forall_mem_cons] at hs
    have hrest := ih hs.2 (read ++ [b])
    rw [List.append_assoc, List.singleton_append] at hrest
    rw [Reads, run, hstep read b hs.1, hrest]
    rfl

/-- A text goes up to the next `<`. -/
theorem reads_text (hs : octet '<' ∉ s) : t.Reads (.text []) s [] (.text s) :=
  reads_of_step .text (fun _ _ hb => if_neg hb) (fun _ hb => ne_of_mem_of_not_mem hb hs) []

/-- A declaration goes up to the next `>`. -/
theorem reads_declaration (hs : octet '>' ∉ s) : t.Reads (.declaration []) s [] (.declaration s) :=
  reads_of_step .declaration (fun _ _ hb => if_neg fun h => hb h.1)
    (fun _ hb => ne_of_mem_of_not_mem hb hs) []

/-- **What has no `<` cannot end the content of an element.** -/
theorem reads_plain (g : Tag) (hs : octet '<' ∉ s) : t.Reads (.plain g []) s [] (.plain g s) :=
  reads_of_step (.plain g) (fun _ _ hb => if_neg hb) (fun _ hb => ne_of_mem_of_not_mem hb hs) []

/-- **What has no quote cannot end a value.** -/
theorem reads_quoted (g : Tag) (key : Bytes) {quote : UInt8} (hs : quote ∉ s) :
    t.Reads (.quoted g key quote []) s [] (.quoted g key quote s) :=
  reads_of_step (.quoted g key quote) (fun _ _ hb => if_neg hb)
    (fun _ hb => ne_of_mem_of_not_mem hb hs) []

end Names

end Html

end LiveMarkup
