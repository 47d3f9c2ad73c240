import LiveMarkup.Playground.Settings
import LiveMarkup.Text.Blank

/-!
# Requests

The playground answers requests: `GET` gives the page, `POST` compiles the body, and a request to
switch to a session is refused here, because a session needs a connection of its own. A body arrives
in pieces, and is read until it ends, fails or has too many octets.

`LiveMarkup.Playground.Server.serve` answers one request after another, and
`LiveMarkup.Playground.answer` is the answer to a request that comes first.
-/

namespace LiveMarkup

namespace Playground

/-- A request. -/
structure Request where
  method : Bytes
  path : Bytes := utf8 "/"
  headers : List (Bytes × Bytes) := []
  body : Bytes := []
  /-- How many octets of the body arrive at a time; what is left arrives at last. -/
  arrivals : List Nat := []
  /-- Whether reading the body fails where it should end. -/
  bodyFails : Bool := false
  /-- Whether writing the answer fails. -/
  writeFails : Bool := false

/-- An answer. -/
structure Response where
  status : Nat := 200
  /-- The headers in the order of their names. -/
  headers : List (Bytes × Bytes) := []
  body : Bytes := []
  record : Record := {}

/-! ### Headers -/

/-- Whether an octet can be part of a token. -/
def isTokenOctet (b : UInt8) : Bool :=
  isAlphaOctet b || isDigitOctet b || b ∈ utf8 "!#$%&'*+-.^_|~" || b == 0x60

/-- The text without spaces and tabs in front. -/
def skipSpace (s : Bytes) : Bytes := s.dropWhile fun b => b == octet ' ' || b == octet '\t'

/-- Whether a token, in letters of either case, is in a list separated by commas. A malformed list
ends where it is malformed. -/
def hasToken (token : Bytes) (s : Bytes) : Bool :=
  let t := skipSpace s
  let found := t.takeWhile isTokenOctet
  if found.isEmpty then false
  else
    match _h : skipSpace (t.dropWhile isTokenOctet) with
    | [] => found.map lowerOctet == token
    | b :: r =>
      if b = octet ',' then found.map lowerOctet == token || hasToken token r else false
termination_by s.length
decreasing_by
  have h₁ : (skipSpace (t.dropWhile isTokenOctet)).length ≤ (t.dropWhile isTokenOctet).length :=
    (List.dropWhile_suffix _).length_le
  have h₂ : (t.dropWhile isTokenOctet).length ≤ t.length := (List.dropWhile_suffix _).length_le
  have h₃ : t.length ≤ s.length := (List.dropWhile_suffix _).length_le
  rw [_h, List.length_cons] at h₁
  omega

/-- Whether a header of a request has a token. -/
def Request.hasHeaderToken (r : Request) (name token : Bytes) : Bool :=
  r.headers.any fun h => h.1.map lowerOctet == name && hasToken token h.2

/-- Whether a request asks for a session. -/
def Request.isUpgrade (r : Request) : Bool :=
  r.hasHeaderToken (utf8 "connection") (utf8 "upgrade")
    && r.hasHeaderToken (utf8 "upgrade") (utf8 "websocket")

/-! ### Bodies -/

/-- Why a body could not be read. -/
inductive BodyError
  /-- It has more octets than are allowed. -/
  | tooLarge
  /-- Reading failed before the end. -/
  | broken
  deriving DecidableEq, Repr

/-- A text in pieces of the given sizes; what is left is the last piece. -/
def pieces : (sizes : List Nat) → Bytes → List Bytes
  | [], s => [s]
  | n :: ns, s => s.take n :: pieces ns (s.drop n)

/-- Reads a body piece by piece, where `left` more octets are allowed and `read` are there already.
A piece that is too large ends the reading, whatever would come after it. -/
def readPieces (left : Int) (read : Bytes) (fails : Bool) : List Bytes → Except BodyError Bytes
  | [] => if fails then .error .broken else .ok read
  | p :: ps =>
    if left < p.length then .error .tooLarge
    else readPieces (left - p.length) (read ++ p) fails ps

/-- The body of a request, of which so many octets are allowed. -/
def Request.readBody (r : Request) (max : Int) : Except BodyError Bytes :=
  readPieces max [] r.bodyFails (pieces r.arrivals r.body)

/-! ### Answers -/

/-- The body of an answer: nothing, if writing fails. -/
def Request.written (r : Request) (body : Bytes) : Bytes := if r.writeFails then [] else body

/-- The headers of a plain text. -/
def plainHeaders : List (Bytes × Bytes) :=
  [(utf8 "Content-Type", utf8 "text/plain; charset=utf-8"),
    (utf8 "X-Content-Type-Options", utf8 "nosniff")]

/-- The header of a document. -/
def documentHeader : Bytes × Bytes := (utf8 "Content-Type", utf8 "text/html; charset=utf-8")

/-- The words for a status. -/
def statusText : Nat → Bytes
  | 400 => utf8 "Bad Request"
  | 405 => utf8 "Method Not Allowed"
  | 413 => utf8 "Request Entity Too Large"
  | 500 => utf8 "Internal Server Error"
  | _ => []

/-- An answer that only says why there is no other. -/
def refusal (r : Request) (status : Nat) : Response :=
  { status, headers := plainHeaders, body := r.written (statusText status ++ utf8 "\n") }

/-- The answer to a request that failed. -/
def failed (r : Request) (message : Bytes) : Response :=
  { refusal r 500 with record := Record.failure r.path message }

/-- The answer with a record in front of its own. -/
def Response.after (a : Response) (r : Record) : Response := { a with record := r.append a.record }

/-- The answer with the page. A `HEAD` request gets none. -/
def answerPage (s : Settings) (r : Request) : Response :=
  let src := s.initialSource
  let c := s.compile src
  let answered : Response :=
    if r.method = utf8 "HEAD" then { headers := [documentHeader] }
    else if r.writeFails then failed r (utf8 "render page: write failed")
    else { headers := [documentHeader], body := page src c.1.document }
  answered.after (Record.compilation r.path c.2)

/-- The header with the number of diagnostics. -/
def countHeader (c : Compiled) : Bytes × Bytes :=
  (utf8 "X-Nml-Diagnostics", decimalNat c.diagnostics.length)

/-- The answer with the document of a source. -/
def answerSource (s : Settings) (r : Request) (src : Bytes) : Response :=
  let c := s.compile src
  let answered : Response :=
    if r.writeFails then
      let a := failed r (utf8 "write document: write failed")
      { a with headers := a.headers ++ [countHeader c.1] }
    else { headers := [documentHeader, countHeader c.1], body := c.1.document }
  answered.after (Record.compilation r.path c.2)

/-- The answer with the document of the body. -/
def answerCompile (s : Settings) (r : Request) : Response :=
  match r.readBody s.maxSourceOctets with
  | .error .tooLarge => refusal r 413
  | .error .broken => failed r (utf8 "read request body: body failed")
  | .ok src => answerSource s r src

/-- The answer to a request for a session. -/
def answerUpgrade (r : Request) : Response :=
  let a := refusal r (if r.method = utf8 "GET" then 400 else 405)
  { a with
    headers := [(utf8 "Content-Type", utf8 "text/plain; charset=utf-8"),
      (utf8 "Sec-Websocket-Version", utf8 "13"), (utf8 "X-Content-Type-Options", utf8 "nosniff")]
    record := Record.failure r.path (utf8 "upgrade websocket") }

/-- The answer to a method that there is not. -/
def answerOther (r : Request) : Response :=
  { refusal r 405 with headers := (utf8 "Allow", utf8 "GET, HEAD, POST") :: plainHeaders }

/-- The record of a request that is logged. -/
def requestRecord (s : Settings) (r : Request) : Record :=
  if s.logsRequests then
    .log (utf8 "INFO HTTP request method=" ++ r.method ++ utf8 " url=" ++ r.path)
  else {}

/-- The answer to a request, with all that is recorded. -/
def respond (s : Settings) (r : Request) : Response :=
  let a :=
    if r.isUpgrade then answerUpgrade r
    else if r.method = utf8 "GET" ∨ r.method = utf8 "HEAD" then answerPage s r
    else if r.method = utf8 "POST" then answerCompile s r
    else answerOther r
  a.after (requestRecord s r)

/-! ### One request after another -/

/-- The playground between two requests. -/
structure Server where
  settings : Settings
  /-- Whether what is logged is kept. This is settled when the first request comes. -/
  keepsLog? : Option Bool := none

namespace Server

/-- Answers a request. -/
def serve (v : Server) (r : Request) : Response × Server :=
  let log := v.keepsLog?.getD v.settings.keepsLog
  let a := respond v.settings r
  ({ a with record := a.record.keep log (!v.settings.bare) }, { v with keepsLog? := some log })

/-- The answers to requests that come one after another. -/
def serveAll (v : Server) : List Request → List Response
  | [] => []
  | r :: rs =>
    let answered := v.serve r
    answered.1 :: serveAll answered.2 rs

end Server

/-- The answer to a request that comes first. -/
def answer (s : Settings) (r : Request) : Response := (Server.serve { settings := s } r).1

end Playground

end LiveMarkup
