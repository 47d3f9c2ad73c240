import LiveMarkup.Playground.Handler
import Mathlib.Data.List.Basic

/-!
# Compiling the body of a request

A request to compile a body can end in four ways: the body is too large, it cannot be read to its
end, the compiler breaks off, or there is a document. The body arrives in pieces, of which each can
be the one that is too much, and a failure may wait behind it. What counts is the number of octets
alone (`LiveMarkup.Playground.readPieces_eq`): a body that is too large is too large even if it
fails further on, and one that has just as many octets as are allowed is not.

Requests are answered one after another, and the first of them settles where the log goes. It
settles it in the one way that the settings name (`LiveMarkup.Playground.Server.Settled`), so that
no answer depends on the requests before it; the main statement is
`LiveMarkup.Playground.body_compiled`.
-/

namespace LiveMarkup

namespace Playground

/-! ### Reading a body -/

theorem flatten_pieces (sizes : List Nat) (s : Bytes) : (pieces sizes s).flatten = s := by
  induction sizes generalizing s with
  | nil => simp [pieces]
  | cons n ns ih => rw [pieces, List.flatten_cons, ih, List.take_append_drop]

/-- **What is read of a body depends on its octets only**, and not on the pieces. -/
theorem readPieces_eq {left : Int} (hleft : 0 ≤ left) (read : Bytes) (fails : Bool)
    (ps : List Bytes) : readPieces left read fails ps =
      if left < ps.flatten.length then .error .tooLarge
      else if fails then .error .broken else .ok (read ++ ps.flatten) := by
  induction ps generalizing left read with
  | nil => simp [readPieces, Int.not_lt.mpr hleft]
  | cons p ps ih =>
    rw [readPieces, List.flatten_cons, List.length_append]
    by_cases hp : left < p.length
    · have hall : left < (p.length + ps.flatten.length : Nat) := by omega
      rw [if_pos hp, if_pos hall]
    · -- What is allowed of the rest is what the piece leaves.
      have hrest : left - p.length < ps.flatten.length ↔
          left < (p.length + ps.flatten.length : Nat) := by omega
      rw [if_neg hp, ih (by omega)]
      simp only [hrest, List.append_assoc]

theorem Request.readBody_eq (r : Request) {max : Int} (hmax : 0 ≤ max) :
    r.readBody max = if max < r.body.length then .error .tooLarge
      else if r.bodyFails then .error .broken else .ok r.body := by
  rw [readBody, readPieces_eq hmax, flatten_pieces, List.nil_append]

theorem Settings.maxSourceOctets_pos (s : Settings) : 0 < s.maxSourceOctets := by
  rw [maxSourceOctets]
  split_ifs <;> omega

/-! ### One request after another -/

namespace Server

/-- What the first request settles is what the settings name. -/
def Settled (v : Server) : Prop := ∀ log, v.keepsLog? = some log → log = v.settings.keepsLog

theorem Settled.getD_keepsLog? {v : Server} (h : v.Settled) :
    v.keepsLog?.getD v.settings.keepsLog = v.settings.keepsLog := by
  cases hlog : v.keepsLog? with
  | none => rfl
  | some log => exact h log hlog

/-- **One request leaves the playground as it was** for the next one. -/
theorem Settled.serve {v : Server} (h : v.Settled) (r : Request) :
    (v.serve r).1 = answer v.settings r ∧ (v.serve r).2.settings = v.settings ∧
      (v.serve r).2.Settled := by
  refine ⟨?_, rfl, ?_⟩
  · rw [Server.serve, h.getD_keepsLog?]
    rfl
  · rintro log hlog
    obtain rfl := Option.some.inj hlog
    exact h.getD_keepsLog?

/-- **Every request is answered as if it came first.** -/
theorem Settled.serveAll {v : Server} (h : v.Settled) (rs : List Request) :
    v.serveAll rs = rs.map (answer v.settings) := by
  induction rs generalizing v with
  | nil => rfl
  | cons r rs ih =>
    obtain ⟨hanswer, hsettings, hsettled⟩ := h.serve r
    rw [Server.serveAll, hanswer, ih hsettled, hsettings, List.map_cons]

end Server

/-! ### The answer to a body -/

variable {s : Settings} {r : Request}

/-- A request to compile is answered by what becomes of its body. -/
theorem answer_post (hupgrade : r.isUpgrade = false) (hpost : r.method = utf8 "POST") :
    answer s r = { answerCompile s r with
      record := ((requestRecord s r).append (answerCompile s r).record).kept s } := by
  have hpage : ¬(r.method = utf8 "GET" ∨ r.method = utf8 "HEAD") := by
    rw [hpost]
    decide
  rw [answer, Server.serve, respond, if_neg (by simp [hupgrade]), if_neg hpage, if_pos hpost]
  rfl

theorem answerCompile_eq (s : Settings) (r : Request) : answerCompile s r =
    if s.maxSourceOctets < r.body.length then refusal r 413
    else if r.bodyFails then failed r (utf8 "read request body: body failed")
    else answerSource s r r.body := by
  rw [answerCompile, r.readBody_eq (Int.le_of_lt s.maxSourceOctets_pos)]
  split_ifs <;> rfl

/-- **The compiler is that of sources**, unless it breaks off. -/
def Settings.CompilesSources (s : Settings) : Prop :=
  ∀ src c, s.compiler src = .ok c → c = Compiled.ofSource src

/-- **What the answer to a request to compile its body is**: one of four, by the number of octets,
by whether the body can be read to its end, and by what the compiler does. -/
structure IsCompilation (s : Settings) (r : Request) (a : Response) : Prop where
  tooLarge : s.maxSourceOctets < r.body.length → a.status = 413 ∧ a.record.errors = []
  broken : r.body.length ≤ s.maxSourceOctets → r.bodyFails →
    a.status = 500 ∧ a.record.errors = [utf8 "read request body: body failed"]
  /-- The compiler breaks off. -/
  stopped : r.body.length ≤ s.maxSourceOctets → ¬r.bodyFails →
    ∀ reason, s.compiler r.body = .error reason →
      a.status = 200 ∧ a.body = errorDocument (Settings.breakMessage reason) ∧
      a.headers = [documentHeader, (utf8 "X-Nml-Diagnostics", utf8 "0")] ∧
      a.record.errors = [Settings.breakMessage reason]
  /-- The compiler comes to its end. -/
  compiled : r.body.length ≤ s.maxSourceOctets → ¬r.bodyFails →
    (∀ reason, s.compiler r.body ≠ .error reason) →
      a.status = 200 ∧ a.body = Document.compile r.body ∧
      a.headers = [documentHeader, (utf8 "X-Nml-Diagnostics",
        decimalNat (SourceTree.ofSource r.body).diagnostics.length)] ∧
      a.record.errors = []

namespace IsCompilation

variable {a : Response} (h : IsCompilation s r a)

include h

theorem status_eq_200 (hlarge : r.body.length ≤ s.maxSourceOctets) (hfails : ¬r.bodyFails) :
    a.status = 200 := by
  by_cases hstops : ∃ reason, s.compiler r.body = .error reason
  · obtain ⟨reason, hreason⟩ := hstops
    exact (h.stopped hlarge hfails reason hreason).1
  · exact (h.compiled hlarge hfails fun reason hreason => hstops ⟨reason, hreason⟩).1

theorem status_eq_413_iff : a.status = 413 ↔ s.maxSourceOctets < r.body.length := by
  refine ⟨fun hstatus => ?_, fun hlarge => (h.tooLarge hlarge).1⟩
  by_contra hlarge
  rw [Int.not_lt] at hlarge
  by_cases hfails : r.bodyFails
  · rw [(h.broken hlarge hfails).1] at hstatus
    cases hstatus
  · rw [h.status_eq_200 hlarge hfails] at hstatus
    cases hstatus

theorem status_eq_500_iff :
    a.status = 500 ↔ ¬s.maxSourceOctets < r.body.length ∧ r.bodyFails := by
  constructor
  · intro hstatus
    by_cases hlarge : s.maxSourceOctets < r.body.length
    · rw [(h.tooLarge hlarge).1] at hstatus
      cases hstatus
    refine ⟨hlarge, ?_⟩
    by_contra hfails
    rw [h.status_eq_200 (Int.not_lt.mp hlarge) hfails] at hstatus
    cases hstatus
  · rintro ⟨hlarge, hfails⟩
    exact (h.broken (Int.not_lt.mp hlarge) hfails).1

end IsCompilation

theorem errors_requestRecord (s : Settings) (r : Request) : (requestRecord s r).errors = [] := by
  rw [requestRecord]
  split <;> rfl

/-- Where errors are received, all of them are kept. -/
theorem errors_kept (hbare : s.bare = false) (record : Record) :
    (((requestRecord s r).append record).kept s).errors = record.errors := by
  simp [Record.kept, Record.keep, Record.append, hbare, errors_requestRecord]

theorem status_answerSource (s : Settings) (r : Request) (src : Bytes) :
    (answerSource s r src).status = if r.writeFails then 500 else 200 := by
  rw [answerSource]
  dsimp only
  split <;> rfl

/-- A document is written, whether it is that of the source or that of an error. -/
theorem answerSource_of_written (hwrite : r.writeFails = false) (src : Bytes) :
    answerSource s r src =
      { headers := [documentHeader, countHeader (s.compile src).1]
        body := (s.compile src).1.document
        record := Record.compilation r.path (s.compile src).2 } := by
  rw [answerSource]
  simp [hwrite, Response.after, Record.append]

/-- **A body is answered as it should be**, by a request that comes first. -/
theorem isCompilation_answer (hbare : s.bare = false) (hcompiler : s.CompilesSources)
    (hupgrade : r.isUpgrade = false) (hpost : r.method = utf8 "POST")
    (hwrite : r.writeFails = false) : IsCompilation s r (answer s r) := by
  have hzero : decimalNat 0 = utf8 "0" := by decide
  rw [answer_post hupgrade hpost, answerCompile_eq]
  constructor
  · intro hlarge
    rw [if_pos hlarge]
    exact ⟨rfl, errors_kept hbare _⟩
  · intro hlarge hfails
    rw [if_neg (Int.not_lt.mpr hlarge), if_pos hfails]
    exact ⟨rfl, errors_kept hbare _⟩
  · -- The document is that of the error, and nothing is counted.
    intro hlarge hfails reason hreason
    rw [if_neg (Int.not_lt.mpr hlarge), if_neg hfails, answerSource_of_written hwrite,
      Settings.compile, hreason]
    refine ⟨rfl, rfl, ?_, errors_kept hbare _⟩
    dsimp only [countHeader]
    rw [List.length_nil, hzero]
  · -- A compiler that does not break off is that of sources.
    intro hlarge hfails hnot
    obtain ⟨c, hc⟩ : ∃ c, s.compiler r.body = .ok c := by
      cases hc : s.compiler r.body with
      | ok c => exact ⟨c, rfl⟩
      | error reason => exact absurd hc (hnot reason)
    obtain rfl := hcompiler r.body c hc
    rw [if_neg (Int.not_lt.mpr hlarge), if_neg hfails, answerSource_of_written hwrite,
      Settings.compile, hc]
    exact ⟨rfl, rfl, rfl, errors_kept hbare _⟩

/-- **A body is compiled, refused or reported, whatever came before it.** A request to compile, the
answer to which can be written, has one answer, the same after all requests that may come before it.
It is refused exactly if the body has more octets than are allowed, also if the body would fail
further on; else it fails, with one error, exactly if the body does; and else there is a document
with the number of diagnostics: that of the body, or if the compiler breaks off that of the error,
which is then the only one. -/
theorem body_compiled (s : Settings) (hbare : s.bare = false) (hcompiler : s.CompilesSources)
    (r : Request) (hupgrade : r.isUpgrade = false) (hpost : r.method = utf8 "POST")
    (hwrite : r.writeFails = false) :
    ∃ a : Response,
      (∀ before after : List Request,
        (Server.serveAll { settings := s } (before ++ r :: after))[before.length]? = some a) ∧
      (a.status = 413 ↔ s.maxSourceOctets < r.body.length) ∧
      (a.status = 500 ↔ ¬s.maxSourceOctets < r.body.length ∧ r.bodyFails) ∧
      IsCompilation s r a := by
  have ha := isCompilation_answer hbare hcompiler hupgrade hpost hwrite
  refine ⟨answer s r, fun before after => ?_, ha.status_eq_413_iff, ha.status_eq_500_iff, ha⟩
  have hsettled : Server.Settled { settings := s } := fun log hlog => by cases hlog
  rw [hsettled.serveAll, List.getElem?_map, List.getElem?_append_right (Nat.le_refl _)]
  simp

/-- A body with just as many octets as are allowed, in two pieces, on which the compiler breaks off:
once as the first request and once after a request that is refused. -/
theorem body_compiled_at_limit :
    let s : Settings :=
      { maxSource := 4
        compiler := fun src =>
          if src = utf8 "boom" then .error (utf8 "b") else .ok (Compiled.ofSource src) }
    let r : Request := { method := utf8 "POST", body := utf8 "boom", arrivals := [2] }
    s.bare = false ∧ s.CompilesSources ∧ r.isUpgrade = false ∧ r.method = utf8 "POST" ∧
      r.writeFails = false ∧ s.maxSourceOctets = r.body.length ∧
      ∃ a : Response, a.status = 200 ∧ a.body = errorDocument (Settings.breakMessage (utf8 "b")) ∧
        a.record.errors = [Settings.breakMessage (utf8 "b")] ∧
        (Server.serveAll { settings := s } [r])[0]? = some a ∧
        (Server.serveAll { settings := s } [{ r with body := utf8 "boom " }, r])[1]? = some a := by
  intro s r
  have hcompiler : s.CompilesSources := by
    intro src c hc
    dsimp only [s] at hc
    split_ifs at hc with hsrc
    exact (Except.ok.inj hc).symm
  obtain ⟨a, hserve, -, -, ha⟩ := body_compiled s rfl hcompiler r rfl rfl rfl
  obtain ⟨hstatus, hbody, -, herrors⟩ := ha.stopped (by decide) (by decide) (utf8 "b") rfl
  exact ⟨rfl, hcompiler, rfl, rfl, rfl, by decide, a, hstatus, hbody, herrors,
    hserve [] [], hserve [{ r with body := utf8 "boom " }] []⟩

end Playground

end LiveMarkup
