import LiveMarkup.Source.Context
import LiveMarkup.Text.Display

/-!
# Diagnostics

Reading a source never fails: what cannot be used is reported and skipped, or passed through.
`LiveMarkup.Problem` lists what can be wrong, `LiveMarkup.Problem.message` is its wording, and a
diagnostic is a problem at a position.
-/

namespace LiveMarkup

/-- How grave a problem is. -/
inductive Severity
  /-- Something was replaced by a fallback. -/
  | warning
  /-- Something was left out. -/
  | error
  deriving DecidableEq, Repr

namespace Severity

/-- The name of a severity. -/
def name : Severity → Bytes
  | .warning => utf8 "warning"
  | .error => utf8 "error"

/-- The severity with a number. -/
def ofCode? (n : Int) : Option Severity :=
  if n = 0 then some .warning else if n = 1 then some .error else none

/-- The name of the severity with a number, also of one that there is not. -/
def codeName (n : Int) : Bytes :=
  match ofCode? n with
  | some s => s.name
  | none => utf8 "severity(" ++ decimalInt n ++ utf8 ")"

end Severity

/-- What is wrong with an entry of an attribute list. -/
inductive EntryFlaw
  /-- A quote or a bracket is not closed, or closed without being open. -/
  | unbalanced
  /-- There is no colon or nothing after it. -/
  | noValue
  /-- The key is not a name. -/
  | invalidKey
  /-- The value of a handler is not an event with a body. -/
  | noEvent
  deriving DecidableEq, Repr

/-- The wording of a flaw. -/
def EntryFlaw.text : EntryFlaw → Bytes
  | .unbalanced => utf8 "unmatched brackets or quotes"
  | .noValue => utf8 "expected key: value"
  | .invalidKey => utf8 "invalid key"
  | .noEvent => utf8 "expected on: <event> \x7b <statement> \x7d"

/-- What can be wrong with a source. -/
inductive Problem
  | unrecognizedLine (text : Bytes)
  | unmatchedClose
  | malformedEntry (entry : Bytes) (flaw : EntryFlaw)
  | unsupportedStatement (event body : Bytes)
  | undeclaredBinding (name : Bytes)
  | undeclaredTarget (name event : Bytes)
  | orphanStyle
  | voidContent (tag : Bytes)
  | malformedStyle (declaration : Bytes)
  | duplicateState (name : Bytes)
  | unterminatedAttributes
  | stateName (name : Bytes)
  | reservedAttribute (key : Bytes)
  | obsoleteElement (tag : Bytes)
  deriving DecidableEq, Repr

namespace Problem

/-- What is wrong in general. -/
def summary : Problem → Bytes
  | .unrecognizedLine _ => utf8 "unrecognized line"
  | .unmatchedClose => utf8 "closing marker without an open block"
  | .malformedEntry _ _ => utf8 "malformed attribute"
  | .unsupportedStatement _ _ => utf8 "unsupported statement, passed through raw"
  | .undeclaredBinding _ | .undeclaredTarget _ _ => utf8 "undeclared state"
  | .orphanStyle => utf8 "style block outside of an element"
  | .voidContent _ => utf8 "void element cannot have content"
  | .malformedStyle _ => utf8 "malformed style declaration"
  | .duplicateState _ => utf8 "state redeclared, last declaration wins"
  | .unterminatedAttributes => utf8 "unterminated attribute list"
  | .stateName _ => utf8 "state name must start with a lowercase letter or underscore"
  | .reservedAttribute _ => utf8 "reserved attribute"
  | .obsoleteElement _ => utf8 "obsolete element rendered as <pre>"

/-- What is wrong in particular, after the summary. -/
def detail : Problem → Bytes
  | .unrecognizedLine t => utf8 ": " ++ t
  | .unmatchedClose | .orphanStyle | .unterminatedAttributes => []
  | .malformedEntry e f => utf8 " " ++ displayed e ++ utf8 ": " ++ f.text
  | .unsupportedStatement event body =>
    utf8 ": on " ++ event ++ utf8 " \x7b " ++ body ++ utf8 " \x7d"
  | .undeclaredBinding n => utf8 " " ++ displayed n ++ utf8 ": rendered as text"
  | .undeclaredTarget n event =>
    utf8 " " ++ displayed n ++ utf8 " in on " ++ event ++ utf8 " handler"
  | .voidContent tag | .obsoleteElement tag => utf8 ": <" ++ tag ++ utf8 ">"
  | .malformedStyle d => utf8 " " ++ displayed d
  | .duplicateState n | .stateName n => utf8 ": " ++ n
  | .reservedAttribute k => utf8 " " ++ displayed k

/-- The wording of a problem. -/
def message (p : Problem) : Bytes := p.summary ++ p.detail

/-- How grave a problem is. -/
def severity : Problem → Severity
  | .unmatchedClose | .unsupportedStatement _ _ | .undeclaredBinding _ | .undeclaredTarget _ _
  | .voidContent _ | .duplicateState _ | .obsoleteElement _ => .warning
  | _ => .error

end Problem

/-- A text reported at a position. -/
def reportText (p : Position) (message : Bytes) : Bytes := p.text ++ utf8 ": " ++ message

/-- A problem at a position. -/
structure Diagnostic where
  position : Position
  problem : Problem
  deriving DecidableEq, Repr

namespace Diagnostic

/-- The wording of the problem. -/
def message (d : Diagnostic) : Bytes := d.problem.message

/-- How grave the problem is. -/
def severity (d : Diagnostic) : Severity := d.problem.severity

/-- The diagnostic in one line. -/
def text (d : Diagnostic) : Bytes := reportText d.position d.message

/-- The source lines around the diagnostic. -/
def context? (d : Diagnostic) (src : Bytes) (radius : Int) : Option SourceContext :=
  SourceContext.around? src d.position radius

/-- Whether something was left out. -/
def anyError (ds : List Diagnostic) : Bool := ds.any fun d => d.severity = .error

/-- All diagnostics, one in a line. -/
def joined (ds : List Diagnostic) : Bytes := List.intercalate (utf8 "\n") (ds.map text)

end Diagnostic

end LiveMarkup
