import LiveMarkup.Live.Debounce
import LiveMarkup.Playground.Settings
import LiveMarkup.Text.Json
import LiveMarkup.Text.ScriptString

/-!
# Sessions

In a session the client sends its source after every edit, and gets back the compiled document of
the latest one when it has been quiet for a while. A message that cannot be read ends the session.

`LiveMarkup.Session.run` is the course of a session over the steps of its client.
-/

namespace LiveMarkup

namespace Session

open Playground

/-! ### Messages of the client -/

/-- The message with a source. -/
def sourceMessage (src : Bytes) : Bytes :=
  utf8 "\x7b\"source\":" ++ scriptString src ++ utf8 "\x7d\n"

/-- A character with its case folded: capitals are small letters, and the long `s` is one. -/
def foldChar (c : Char) : Char :=
  if c = 'ſ' then 's' else if c.isUpper then c.toLower else c

/-- Whether a key names the source, in letters of either case. -/
def isSourceKey (key : Bytes) : Bool :=
  (Utf8.lossy key).map foldChar == (Utf8.lossy (utf8 "source"))

/-- The source that the members of a message set, where `src` is the source so far. A null sets
nothing, and only a string can be a source. -/
def sourceOf? : List (Bytes × Json) → Bytes → Option Bytes
  | [], src => some src
  | (k, v) :: ms, src =>
    if isSourceKey k then
      match v with
      | .string s => sourceOf? ms s
      | .null => sourceOf? ms src
      | _ => none
    else sourceOf? ms src

/-- The source in a message. -/
def decode? (message : Bytes) : Option Bytes :=
  match Json.read? message with
  | some (.object ms) => sourceOf? ms []
  | some .null => some []
  | _ => none

/-- Whether a message is too long to be read. -/
def isTooLong (s : Settings) (message : Bytes) : Bool :=
  0 < s.maxMessageOctets ∧ s.maxMessageOctets < message.length

/-- The source in a message that is not too long. -/
def receive? (s : Settings) (message : Bytes) : Option Bytes :=
  if isTooLong s message then none else decode? message

/-! ### The course of a session -/

/-- A step of the client. -/
inductive Step
  /-- A message. -/
  | message (text : Bytes)
  /-- The client closes the connection with a code. -/
  | close (code : Int)
  /-- The connection breaks. -/
  | drop
  deriving DecidableEq, Repr

/-- Whether a code closes a session without an error. -/
def isNormalClose (code : Int) : Bool := code = 1000 ∨ code = 1001

/-- The end of the reading. -/
inductive ReadEnd
  | normal | error
  deriving DecidableEq, Repr

/-- The timing of a session; compiling takes no time. -/
def timing (s : Settings) : Debounce.Timing := { quiet := s.quietPeriod }

/-- An action of a session never fails. -/
def act (_ : Nat) (_ : Bytes) : Option Bytes := none

/-- The timeline of a session over the steps of its client, and how its reading ended. What comes
after the end has no effect. A client that does not close the connection does so some time after its
last step. -/
def timeline (s : Settings) : Debounce.Timeline → List (Int × Step) → Debounce.Timeline × ReadEnd
  | t, [] => (t.stop act (timing s) (t.now + Debounce.patience) .close, .normal)
  | t, (time, .message m) :: steps =>
    match receive? s m with
    | some src => timeline s (t.send act (timing s) time src) steps
    | none => (t.stop act (timing s) time .close, .error)
  | t, (time, .close code) :: _ =>
    (t.stop act (timing s) time .close, if isNormalClose code then .normal else .error)
  | t, (time, .drop) :: _ => (t.stop act (timing s) time .close, .error)

/-- A diagnostic as the client gets it. -/
structure Notice where
  line : Int
  column : Int
  severity : Bytes
  message : Bytes
  deriving DecidableEq, Repr

/-- The notice of a diagnostic, whose stray octets do not arrive (see
`LiveMarkup.Session.Message.of`). -/
def Notice.of (d : Diagnostic) : Notice :=
  ⟨d.position.line, d.position.column, d.severity.name, Utf8.repair d.message⟩

/-- A document as the client gets it. -/
structure Message where
  time : Int
  seq : Nat
  document : Bytes
  diagnostics : List Notice
  deriving DecidableEq, Repr

/-- The message with a compiled document and a number. It is sent as JSON, which has characters
only: for a stray octet the client gets the replacement character. -/
def Message.of (time : Int) (seq : Nat) (c : Compiled) : Message :=
  ⟨time, seq, Utf8.repair c.document, c.diagnostics.map Notice.of⟩

/-- What happened in a session. -/
structure Report where
  messages : List Message
  record : Record
  endedAt : Int

/-- The address under which a session is served. -/
def url : Bytes := utf8 "/"

/-- The name of the client. -/
def client : Bytes := utf8 "client"

/-- The document for a source, with its number, and its record. -/
def publish (s : Settings) (seq : Nat) (call : Int × Bytes) : Message × Record :=
  let c := s.compile call.2
  (Message.of call.1 seq c.1,
    (Record.compilation url c.2).append (.log (utf8 "DEBUG Publish document seq=" ++ decimalNat seq
      ++ utf8 " diagnostics=" ++ decimalNat c.1.diagnostics.length)))

/-- The documents for a list of sources, numbered from one, and their records. -/
def publishAll (s : Settings) (calls : List (Int × Bytes)) : List (Message × Record) :=
  calls.zipIdx.map fun (call, i) => publish s (i + 1) call

/-- The course of a session. -/
def run (s : Settings) (steps : List (Int × Step)) : Report :=
  let t := timeline s {} steps
  let published := publishAll s t.1.calls
  let start := Record.log (utf8 "DEBUG Start session remote_addr=" ++ client)
  let finish := Record.log (utf8 "DEBUG End session remote_addr=" ++ client ++ utf8 " documents="
    ++ decimalNat published.length)
  let failure : Record :=
    match t.2 with
    | .normal => {}
    | .error => .failure url (utf8 "read websocket message")
  let record := (published.map Prod.snd).foldl Record.append start
  { messages := published.map Prod.fst
    record := ((record.append finish).append failure).kept s
    endedAt := t.1.ended }

end Session

end LiveMarkup
