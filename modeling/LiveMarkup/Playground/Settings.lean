import LiveMarkup.Document.Generate
import LiveMarkup.Playground.Page

/-!
# Settings of the playground

What the playground is started with, and what it does with a source: a compilation that breaks off
is reported, and a document that says so takes the place of the result.
-/

namespace LiveMarkup

namespace Playground

/-- A compiled source. -/
structure Compiled where
  document : Bytes
  diagnostics : List Diagnostic

/-- The compilation of a source. -/
def Compiled.ofSource (src : Bytes) : Compiled :=
  let t := SourceTree.ofSource src
  ⟨Document.ofTree t, t.diagnostics⟩

/-- The settings. -/
structure Settings where
  source : Bytes := []
  /-- The quiet period of a session in milliseconds. -/
  quiet : Int := 0
  /-- How many octets a source may have. -/
  maxSource : Int := 0
  /-- Whether neither a log nor errors are kept. -/
  bare : Bool := false
  /-- Whether there is a log besides the errors. -/
  logged : Bool := true
  /-- Whether requests are logged. -/
  logsRequests : Bool := false
  /-- The compiler, which may break off with a reason. -/
  compiler : Bytes → Except Bytes Compiled := fun src => .ok (Compiled.ofSource src)

namespace Settings

/-- The source that the editor starts with. -/
def initialSource (s : Settings) : Bytes := if s.source.isEmpty then demoSource else s.source

/-- The quiet period in milliseconds. -/
def quietPeriod (s : Settings) : Int := if 0 < s.quiet then s.quiet else 800

/-- How many octets a source may have. -/
def maxSourceOctets (s : Settings) : Int := if 0 < s.maxSource then s.maxSource else 1048576

/-- How many octets a message of a session may have: a source with its escapes and a frame around
it. Zero or less is no limit. -/
def maxMessageOctets (s : Settings) : Int := wrap64 (2 * s.maxSourceOctets + 1024)

/-- Whether what is logged is kept. -/
def keepsLog (s : Settings) : Bool := s.logged && !s.bare

/-- The wording of a compilation that broke off. -/
def breakMessage (reason : Bytes) : Bytes := utf8 "compile source: panic: " ++ reason

/-- The compilation of a source, and the error if it broke off. -/
def compile (s : Settings) (src : Bytes) : Compiled × Option Bytes :=
  match s.compiler src with
  | .ok c => (c, none)
  | .error reason =>
    (⟨errorDocument (breakMessage reason), []⟩, some (breakMessage reason))

end Settings

/-! ### The log -/

/-- What is written to the log and what is reported as an error. -/
structure Record where
  logs : List Bytes := []
  errors : List Bytes := []

namespace Record

/-- One record after another. -/
def append (a b : Record) : Record := ⟨a.logs ++ b.logs, a.errors ++ b.errors⟩

/-- The record of a line of the log. -/
def log (line : Bytes) : Record := ⟨[line], []⟩

/-- The record of an error at an address. -/
def error (what url message : Bytes) : Record :=
  ⟨[utf8 "ERROR " ++ what ++ utf8 " url=" ++ url ++ utf8 " error=" ++ message], [message]⟩

/-- The record of a compilation, which has an error if it broke off. -/
def compilation (url : Bytes) : Option Bytes → Record
  | none => {}
  | some message => error (utf8 "Compile source") url message

/-- The record of a request that failed. -/
def failure (url message : Bytes) : Record := error (utf8 "Serve HTTP request") url message

/-- What is kept of a record, of its log and of its errors. -/
def keep (log errors : Bool) (r : Record) : Record :=
  ⟨if log then r.logs else [], if errors then r.errors else []⟩

/-- What is kept of a record. -/
def kept (s : Settings) (r : Record) : Record := r.keep s.keepsLog (!s.bare)

end Record

end Playground

end LiveMarkup
