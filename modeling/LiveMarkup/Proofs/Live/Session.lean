import LiveMarkup.Live.Session
import LiveMarkup.Proofs.Document.WellFormed
import LiveMarkup.Proofs.Expression.Tokens
import LiveMarkup.Proofs.Live.Debounce
import LiveMarkup.Proofs.Text.Json

/-!
# The documents of a session follow its sources

A session is two processes that run side by side. The reader reads what the client sends, one frame
after another, and hands every source over to the publisher; it can go on only when the publisher
has taken the source. The publisher is the loop of `LiveMarkup.Debounce`: it compiles the latest
source once it has been quiet for a while, numbers the document and writes it to the client.

`LiveMarkup.Session.Moves` says what either of them can do next, and nothing about who is first: a
timer may expire while the reader holds a source, and the reader may have ended long before the
publisher notices. What holds in every state that can be reached so is
`LiveMarkup.Session.Protocol`. It is derived from three facts about one move: what it does to the
loop of the publisher (`LiveMarkup.Session.Moves.publisher_cases`), what it sends
(`LiveMarkup.Session.Moves.sent_cases`) and what it reads (`LiveMarkup.Session.Fed.moves`).

The sessions considered are those whose documents can be written as long as the connection is not
being closed. When the client closes it, or sends more than is read, the connection is closed in
answer, and a document that is written after that does not arrive
(`LiveMarkup.Session.World.write`): the publisher may still compile a source, but the write fails
and ends it. If the reading ends otherwise, the connection is as good as before for the publisher,
and the source that waits may still be published (`LiveMarkup.Session.publishes_after_drop`), but
nothing after it (`LiveMarkup.Session.sent_after_end`).

Documents are sent as characters, so that a document with a stray octet is not the one that arrives
(`LiveMarkup.Session.Answers`).

`LiveMarkup.Session.exists_reachable_run` says that the session with a clock, as it is run by
`LiveMarkup.Session.run`, is one of these.
-/

namespace LiveMarkup

namespace Session

open Playground Debounce

/-! ### Messages of the client -/

theorem sourceMessage_eq (src : Bytes) :
    sourceMessage src = 0x7b :: (scriptString (utf8 "source") ++
      octet ':' :: (scriptString src ++ 0x7d :: [octet '\n'])) := by
  have hkey : scriptString (utf8 "source") = utf8 "\"source\"" := by decide +kernel
  rw [sourceMessage, hkey, List.append_assoc]
  rfl

/-- **The source in a message is read back**, with its stray octets replaced. -/
theorem decode?_sourceMessage (src : Bytes) :
    decode? (sourceMessage src) = some (Utf8.repair src) := by
  have hkey : isSourceKey (Utf8.repair (utf8 "source")) = true := by decide +kernel
  rw [decode?, sourceMessage_eq, Json.read?_object]
  dsimp only
  rw [sourceOf?, if_pos hkey, sourceOf?]

/-! ### Two processes -/

/-- The source that a frame brings. -/
def source? (s : Settings) : Step → Option Bytes
  | .message m => receive? s m
  | _ => none

theorem source?_sourceMessage {s : Settings} {src : Bytes} (hvalid : Utf8.isValid src)
    (hshort : isTooLong s (sourceMessage src) = false) :
    source? s (.message (sourceMessage src)) = some src := by
  rw [source?, receive?, hshort, decode?_sourceMessage, Utf8.repair_eq_self_iff.mpr hvalid]
  rfl

/-- How a frame that brings no source ends the reading. -/
def readEnd : Step → ReadEnd
  | .message _ | .drop => .error
  | .close code => if isNormalClose code then .normal else .error

/-- Whether the connection is closed in answer to a frame: the client closes it, or has sent more
than is read. -/
def isClosing (s : Settings) : Step → Bool
  | .message m => isTooLong s m
  | .close _ => true
  | .drop => false

theorem isClosing_of_source? {s : Settings} {frame : Step} {src : Bytes}
    (h : source? s frame = some src) : isClosing s frame = false := by
  cases frame with
  | message m =>
    rw [source?, receive?] at h
    rw [isClosing]
    split at h
    · cases h
    · rename_i hlong
      simpa using hlong
  | _ => cases h

/-- Where the reader is. -/
inductive Reader
  | waiting
  /-- It has a source, which the publisher has not taken yet. -/
  | holding (src : Bytes)
  /-- It has ended after a frame. -/
  | ended (frame : Step)
  /-- It has given up with what it had, since the publisher has ended. -/
  | left (had : List Bytes)
  deriving DecidableEq

namespace Reader

/-- The reader after a frame. -/
def after (s : Settings) (frame : Step) : Reader :=
  match source? s frame with
  | some src => .holding src
  | none => .ended frame

/-- The source that the reader has. -/
def held : Reader → List Bytes
  | .holding src => [src]
  | .left had => had
  | _ => []

end Reader

/-- A session between two moves. -/
structure World where
  /-- What the client has sent and the reader has not read. -/
  inbox : List Step := []
  /-- What the reader has read. -/
  read : List Step := []
  reader : Reader := .waiting
  /-- The sources that the publisher has taken. -/
  handed : List Bytes := []
  publisher : State Bytes := {}
  /-- The number of the last document. -/
  seq : Nat := 0
  /-- The documents that were sent to the client. -/
  sent : List Message := []
  /-- The record of the publisher. -/
  record : Record := {}

namespace World

/-- Whether the connection is being closed. -/
def isClosed (s : Settings) (w : World) : Bool := w.read.any (isClosing s)

/-- The error of a document that cannot be written. -/
def writeError : Bytes := utf8 "write websocket message"

/-- The session after a document was written, and the error if it could not be: nothing can be
written to a connection that is being closed. -/
def write (s : Settings) (w : World) (m : Message) : World × Option Bytes :=
  if w.isClosed s then (w, some writeError) else ({ w with sent := w.sent ++ [m] }, none)

/-- The session after the timer of a source has expired: the source is compiled, and its document
written at some time. -/
def publish (s : Settings) (w : World) (n : Nat) (src : Bytes) (time : Int) : World :=
  let document := Session.publish s (w.seq + 1) (time, src)
  let written := w.write s document.1
  { written.1 with
    publisher := step (fun _ _ => written.2) w.publisher (.expire n)
    seq := w.seq + 1
    record := w.record.append document.2 }

end World

/-- **What can happen next** in a session. -/
inductive Moves (s : Settings) : World → World → Prop
  /-- The client sends a frame. -/
  | sends (w : World) (frame : Step) : Moves s w { w with inbox := w.inbox ++ [frame] }
  /-- The reader reads a frame. -/
  | reads (w : World) (frame : Step) (rest : List Step) (hreader : w.reader = .waiting)
      (hinbox : w.inbox = frame :: rest) :
      Moves s w
        { w with inbox := rest, read := w.read ++ [frame], reader := .after s frame }
  /-- The publisher takes the source that the reader has. -/
  | hands (w : World) (src : Bytes) (hreader : w.reader = .holding src)
      (hrunning : w.publisher.ending = none) :
      Moves s w
        { w with
          reader := .waiting
          handed := w.handed ++ [src]
          publisher := step act w.publisher (.receive src) }
  /-- A timer expires in vain. -/
  | passes (w : World) (n : Nat) (hcall : call? w.publisher (.expire n) = none) :
      Moves s w { w with publisher := step act w.publisher (.expire n) }
  /-- The timer of the source that waits expires. -/
  | publishes (w : World) (n : Nat) (src : Bytes) (time : Int)
      (hcall : call? w.publisher (.expire n) = some (n, src)) :
      Moves s w (w.publish s n src time)
  /-- The publisher notices that the reader has ended. -/
  | closes (w : World) (frame : Step) (hreader : w.reader = .ended frame) :
      Moves s w { w with publisher := step act w.publisher .close }
  /-- The publisher is cancelled: the reader has failed, or the server gives the session up. -/
  | cancels (w : World) (reason : Bytes) :
      Moves s w { w with publisher := step act w.publisher (.cancel reason) }
  /-- The reader gives up, since the publisher has ended. -/
  | leaves (w : World) (hended : w.publisher.ending ≠ none)
      (hreader : ∀ frame, w.reader ≠ .ended frame) :
      Moves s w { w with reader := .left w.reader.held }

/-- One state of a session is reached from another one. -/
abbrev Reaches (s : Settings) : World → World → Prop := Relation.ReflTransGen (Moves s)

/-- The states of a session that can be reached. -/
def Reachable (s : Settings) (w : World) : Prop := Reaches s {} w

variable {s : Settings} {w w' : World}

/-! ### One move -/

section Publish

variable {n : Nat} {src : Bytes} {time : Int}

/-- What is written while the connection is open arrives. -/
theorem World.publish_of_open (h : w.isClosed s = false) :
    w.publish s n src time =
      { w with
        publisher := step act w.publisher (.expire n)
        seq := w.seq + 1
        sent := w.sent ++ [(Session.publish s (w.seq + 1) (time, src)).1]
        record := w.record.append (Session.publish s (w.seq + 1) (time, src)).2 } := by
  rw [World.publish, World.write, if_neg (by simp [h])]
  rfl

/-- What is written later does not. -/
theorem World.publish_of_closed (h : w.isClosed s) :
    w.publish s n src time =
      { w with
        publisher := step (fun _ _ => some writeError) w.publisher (.expire n)
        seq := w.seq + 1
        record := w.record.append (Session.publish s (w.seq + 1) (time, src)).2 } := by
  rw [World.publish, World.write, if_pos h]

/-- What publishing does whether the document arrives or not. -/
theorem World.publish_frame (s : Settings) (w : World) (n : Nat) (src : Bytes) (time : Int) :
    (w.publish s n src time).read = w.read ∧ (w.publish s n src time).reader = w.reader ∧
      (w.publish s n src time).handed = w.handed ∧ (w.publish s n src time).seq = w.seq + 1 ∧
      (w.publish s n src time).record =
        w.record.append (Session.publish s (w.seq + 1) (time, src)).2 := by
  cases h : w.isClosed s with
  | false => simp [World.publish_of_open h]
  | true => simp [World.publish_of_closed h]

/-- What publishing does to the loop: it acts on the source, and goes on if the document arrives. -/
theorem World.publisher_publish (hcall : call? w.publisher (.expire n) = some (n, src))
    (time : Int) : (w.publish s n src time).publisher =
      { w.publisher with
        pending := none
        calls := w.publisher.calls ++ [(n, src)]
        ending := if w.isClosed s then some (.failed writeError) else none } := by
  cases h : w.isClosed s with
  | false =>
    rw [World.publish_of_open h]
    exact (step_of_call? act hcall).2.2
  | true =>
    rw [World.publish_of_closed h]
    exact (step_of_call? (fun _ _ => some writeError) hcall).2.2

theorem World.sent_publish (s : Settings) (w : World) (n : Nat) (src : Bytes) (time : Int) :
    (w.publish s n src time).sent =
      if w.isClosed s then w.sent else w.sent ++ [.of time (w.seq + 1) (s.compile src).1] := by
  cases h : w.isClosed s with
  | false =>
    rw [World.publish_of_open h]
    rfl
  | true =>
    rw [World.publish_of_closed h]
    rfl

end Publish

/-- What a move does to the loop of the publisher: nothing, or one step of it, where the values that
come are the sources that are handed over. -/
theorem Moves.publisher_cases (h : Moves s w w') :
    (w'.publisher = w.publisher ∧ w'.handed = w.handed) ∨
      ∃ (e : Event Bytes) (result : Option Bytes),
        w'.publisher = step (fun _ _ => result) w.publisher e ∧
        w'.handed = w.handed ++ e.value?.toList ∧
        (e.value?.isSome → w.publisher.ending = none) := by
  cases h with
  | sends frame => exact Or.inl ⟨rfl, rfl⟩
  | reads frame rest hreader hinbox => exact Or.inl ⟨rfl, rfl⟩
  | hands src hreader hrunning => exact Or.inr ⟨.receive src, none, rfl, rfl, fun _ => hrunning⟩
  | passes n hcall =>
    exact Or.inr ⟨.expire n, none, rfl, by simp [Event.value?], by simp [Event.value?]⟩
  | publishes n src time hcall =>
    refine Or.inr ⟨.expire n, (w.write s (Session.publish s (w.seq + 1) (time, src)).1).2, rfl, ?_,
      by simp [Event.value?]⟩
    rw [(World.publish_frame s w n src time).2.2.1]
    simp [Event.value?]
  | closes frame hreader =>
    exact Or.inr ⟨.close, none, rfl, by simp [Event.value?], by simp [Event.value?]⟩
  | cancels reason =>
    exact Or.inr ⟨.cancel reason, none, rfl, by simp [Event.value?], by simp [Event.value?]⟩
  | leaves hended hreader => exact Or.inl ⟨rfl, rfl⟩

/-- What a move sends to the client: nothing, or what publishing the source sends on which the loop
acts. -/
theorem Moves.sent_cases (h : Moves s w w') :
    (w'.sent = w.sent ∧ w'.record = w.record ∧ w'.seq = w.seq ∧
      w'.publisher.calls = w.publisher.calls) ∨
    ∃ (n : Nat) (src : Bytes) (time : Int), call? w.publisher (.expire n) = some (n, src) ∧
      w' = w.publish s n src time := by
  cases h with
  | sends frame => exact Or.inl ⟨rfl, rfl, rfl, rfl⟩
  | reads frame rest hreader hinbox => exact Or.inl ⟨rfl, rfl, rfl, rfl⟩
  | hands src hreader hrunning =>
    exact Or.inl ⟨rfl, rfl, rfl, by rw [calls_step]; simp [call?]⟩
  | passes n hcall => exact Or.inl ⟨rfl, rfl, rfl, by rw [calls_step, hcall]; simp⟩
  | publishes n src time hcall => exact Or.inr ⟨n, src, time, hcall, rfl⟩
  | closes frame hreader => exact Or.inl ⟨rfl, rfl, rfl, by rw [calls_step]; simp [call?]⟩
  | cancels reason => exact Or.inl ⟨rfl, rfl, rfl, by rw [calls_step]; simp [call?]⟩
  | leaves hended hreader => exact Or.inl ⟨rfl, rfl, rfl, rfl⟩

/-- What was read is not forgotten. -/
theorem Moves.exists_read (h : Moves s w w') : ∃ frames, w'.read = w.read ++ frames := by
  cases h with
  | reads frame rest hreader hinbox => exact ⟨[frame], rfl⟩
  | publishes n src time hcall =>
    exact ⟨[], by rw [(World.publish_frame s w n src time).1, List.append_nil]⟩
  | _ => exact ⟨[], (List.append_nil _).symm⟩

theorem Moves.isClosed (h : Moves s w w') (hw : w.isClosed s) : w'.isClosed s := by
  obtain ⟨frames, hframes⟩ := h.exists_read
  rw [World.isClosed] at hw ⊢
  rw [hframes, List.any_append, hw, Bool.true_or]

/-- A publisher that has ended does nothing. -/
theorem Moves.publisher_of_ending (h : Moves s w w') (hw : w.publisher.ending ≠ none) :
    w'.publisher = w.publisher := by
  obtain ⟨hpublisher, -⟩ | ⟨e, result, hpublisher, -⟩ := h.publisher_cases
  · exact hpublisher
  · rw [hpublisher, step_of_ending _ hw]

/-! ### What every state has in common -/

/-- **The loop of the publisher has seen a history** whose values are the sources that it has taken,
for some results of its actions. -/
theorem exists_history (h : Reachable s w) :
    ∃ (results : Nat → Bytes → Option Bytes) (es : List (Event Bytes)),
      w.publisher = Debounce.run results {} es ∧ w.handed = values (seen results {} es) := by
  induction h with
  | refl => exact ⟨act, [], rfl, rfl⟩
  | @tail w w' _ hmoves ih =>
    obtain ⟨results, es, hpublisher, hhanded⟩ := ih
    obtain ⟨hpublisher', hhanded'⟩ | ⟨e, result, hpublisher', hhanded', hrunning⟩ :=
      hmoves.publisher_cases
    · exact ⟨results, es, hpublisher'.trans hpublisher, hhanded'.trans hhanded⟩
    -- The result of the action that the event makes, if it makes one, comes after all others.
    let results' : Nat → Bytes → Option Bytes := fun k v =>
      if k = w.publisher.calls.length + 1 then result else results k v
    have hresults : ∀ k v, k ≤ (Debounce.run results {} es).calls.length →
        results' k v = results k v := by
      intro k v hk
      rw [← hpublisher] at hk
      exact if_neg (by omega)
    obtain ⟨hrun, hseen⟩ := run_congr results hresults
    refine ⟨results', es ++ [e], ?_, ?_⟩
    · rw [run_concat, hrun, ← hpublisher, hpublisher']
      exact step_congr _ fun n v hcall => (if_pos rfl).symm
    · rw [hhanded', hhanded, seen_append, values_append, hseen, hrun, ← hpublisher]
      congr 1
      cases he : e.value? with
      | none =>
        -- Whether the event is still seen or not, it brings nothing.
        rw [seen]
        split
        · rfl
        · rw [values_cons_of_none he]
          rfl
      | some v =>
        -- A source is handed over only while the loop runs, so the loop sees it.
        have hnone := hrunning (by simp [he])
        rw [seen, if_neg (by simp [hnone]), values, List.filterMap_cons_some he]
        rfl

/-- Documents and errors are those of the sources on which the loop has acted, in order, and the
documents are numbered from one on. A document is missing only if it could not be written, and then
it is the last one. -/
structure Issued (s : Settings) (w : World) : Prop where
  seq : w.seq = w.publisher.calls.length
  sent : ∀ (k : Nat) (m : Message), w.sent[k]? = some m → ∃ c : Nat × Bytes,
    w.publisher.calls[k]? = some c ∧ m = .of m.time (k + 1) (s.compile c.2).1
  complete : w.sent.length = w.publisher.calls.length ∨
    w.isClosed s ∧ w.publisher.calls.length = w.sent.length + 1 ∧
      w.publisher.ending = some (.failed World.writeError)
  errors : w.record.errors = w.publisher.calls.filterMap fun c => (s.compile c.2).2

theorem errors_publish (s : Settings) (seq : Nat) (call : Int × Bytes) :
    (publish s seq call).2.errors = (s.compile call.2).2.toList := by
  rw [publish]
  cases (s.compile call.2).2 <;> rfl

/-- A running loop has sent all its documents. -/
theorem Issued.length_sent (h : Issued s w) (hrunning : w.publisher.ending = none) :
    w.sent.length = w.publisher.calls.length := by
  refine h.complete.resolve_right ?_
  rintro ⟨-, -, hending⟩
  rw [hrunning] at hending
  cases hending

/-- Publishing keeps it: one more action, at most one more document and at most one more error. -/
theorem Issued.publish (h : Issued s w) {n : Nat} {src : Bytes}
    (hcall : call? w.publisher (.expire n) = some (n, src)) (time : Int) :
    Issued s (w.publish s n src time) := by
  obtain ⟨hrunning, -, -⟩ := step_of_call? act hcall
  obtain ⟨hread, -, -, hseq, hrecord⟩ := World.publish_frame s w n src time
  have hlength := h.length_sent hrunning
  have hpublisher := World.publisher_publish (s := s) hcall time
  have hcalls : (w.publish s n src time).publisher.calls = w.publisher.calls ++ [(n, src)] := by
    rw [hpublisher]
  have hold {k : Nat} {m : Message} (hm : w.sent[k]? = some m) : ∃ c : Nat × Bytes,
      (w.publisher.calls ++ [(n, src)])[k]? = some c ∧
        m = .of m.time (k + 1) (s.compile c.2).1 := by
    obtain ⟨c, hc, heq⟩ := h.sent k m hm
    obtain ⟨hlt, -⟩ := List.getElem?_eq_some_iff.mp hc
    exact ⟨c, by rw [List.getElem?_append_left hlt, hc], heq⟩
  refine ⟨?_, fun k m hm => ?_, ?_, ?_⟩
  · rw [hseq, hcalls, List.length_append, List.length_singleton, h.seq]
  · rw [hcalls]
    rw [World.sent_publish] at hm
    split at hm
    · exact hold hm
    rcases Nat.lt_or_ge k w.sent.length with hlt | hge
    · rw [List.getElem?_append_left hlt] at hm
      exact hold hm
    · -- The document that was written last is that of the last action.
      rw [List.getElem?_append_right hge, List.getElem?_singleton] at hm
      split at hm
      · obtain rfl : k = w.publisher.calls.length := by omega
        cases hm
        exact ⟨(n, src), by simp, by rw [h.seq]; rfl⟩
      · cases hm
  · rw [hcalls, World.sent_publish, List.length_append]
    cases hclosed : w.isClosed s with
    | false =>
      left
      rw [if_neg (by simp), List.length_append, hlength]
      rfl
    | true =>
      right
      refine ⟨by rwa [World.isClosed, hread], by rw [if_pos rfl, hlength]; rfl, ?_⟩
      rw [hpublisher, hclosed]
      rfl
  · rw [hcalls, hrecord, List.filterMap_append, ← h.errors, Record.append, errors_publish,
      List.filterMap_cons]
    cases (s.compile src).2 <;> rfl

theorem Issued.moves (h : Issued s w) (hmoves : Moves s w w') : Issued s w' := by
  obtain ⟨hsent, hrecord, hseq, hcalls⟩ | ⟨n, src, time, hcall, rfl⟩ := hmoves.sent_cases
  · refine ⟨by rw [hseq, hcalls, h.seq], by rw [hsent, hcalls]; exact h.sent, ?_,
      by rw [hrecord, hcalls, h.errors]⟩
    rw [hsent, hcalls]
    rcases h.complete with hlength | ⟨hclosed, hlength, hending⟩
    · exact Or.inl hlength
    · refine Or.inr ⟨hmoves.isClosed hclosed, hlength, ?_⟩
      rw [hmoves.publisher_of_ending (by simp [hending]), hending]
  · exact h.publish hcall time

/-- The sources of the frames that were read are those that were handed over and the one that the
reader has. -/
def Fed (s : Settings) (w : World) : Prop :=
  w.read.filterMap (source? s) = w.handed ++ w.reader.held

theorem Fed.moves (h : Fed s w) (hmoves : Moves s w w') : Fed s w' := by
  cases hmoves with
  | reads frame rest hreader hinbox =>
    -- The reader had nothing, and has the source of the frame now, if there is one.
    rw [Fed, hreader] at h
    rw [Fed, List.filterMap_append, h, List.append_assoc]
    dsimp only [Reader.held, Reader.after]
    cases hsource : source? s frame <;> simp [hsource]
  | hands src hreader hrunning =>
    rw [Fed, hreader] at h
    rw [Fed, h]
    simp [Reader.held]
  | publishes n src time hcall =>
    obtain ⟨hread, hreader, hhanded, -⟩ := World.publish_frame s w n src time
    rw [Fed, hread, hreader, hhanded]
    exact h
  | _ => exact h

theorem issued_of_reachable (h : Reachable s w) : Issued s w := by
  induction h with
  | refl => exact ⟨rfl, fun k m hm => absurd hm (by simp), Or.inl rfl, rfl⟩
  | tail _ hmoves ih => exact ih.moves hmoves

theorem fed_of_reachable (h : Reachable s w) : Fed s w := by
  induction h with
  | refl => rfl
  | tail _ hmoves ih => exact ih.moves hmoves

/-! ### The end -/

/-- Nothing can be published any more: the connection is being closed, or the loop of the publisher
has ended. -/
def World.IsOver (s : Settings) (w : World) : Prop := w.isClosed s ∨ w.publisher.ending ≠ none

theorem World.IsOver.moves (h : w.IsOver s) (hmoves : Moves s w w') :
    w'.IsOver s ∧ w'.sent = w.sent := by
  constructor
  · rcases h with h | h
    · exact Or.inl (hmoves.isClosed h)
    · refine Or.inr ?_
      rwa [hmoves.publisher_of_ending h]
  · obtain ⟨hsent, -⟩ | ⟨n, src, time, hcall, rfl⟩ := hmoves.sent_cases
    · exact hsent
    · rcases h with h | h
      · rw [World.sent_publish, if_pos h]
      · rw [call?_of_ending h] at hcall
        cases hcall

/-- **After the end nothing is sent any more.** -/
theorem World.IsOver.reaches (h : w.IsOver s) (hmoves : Reaches s w w') :
    w'.IsOver s ∧ w'.sent = w.sent := by
  induction hmoves with
  | refl => exact ⟨h, rfl⟩
  | tail _ hmove ih =>
    obtain ⟨hover, hsent⟩ := ih
    obtain ⟨hover', hsent'⟩ := hover.moves hmove
    exact ⟨hover', hsent'.trans hsent⟩

/-- **A publisher that has ended compiles nothing any more.** -/
theorem publisher_of_ending (h : w.publisher.ending ≠ none) (hmoves : Reaches s w w') :
    w'.publisher = w.publisher ∧ w'.record = w.record := by
  induction hmoves with
  | refl => exact ⟨rfl, rfl⟩
  | tail _ hmove ih =>
    obtain ⟨hpublisher, hrecord⟩ := ih
    rw [← hpublisher] at h
    refine ⟨(hmove.publisher_of_ending h).trans hpublisher, ?_⟩
    obtain ⟨-, hrecord', -⟩ | ⟨n, src, time, hcall, -⟩ := hmove.sent_cases
    · exact hrecord'.trans hrecord
    · rw [call?_of_ending h] at hcall
      cases hcall

/-- A frame that the client sends to a waiting reader is read. -/
theorem reaches_read (hinbox : w.inbox = []) (hreader : w.reader = .waiting) (frame : Step) :
    Reaches s w { w with inbox := [], read := w.read ++ [frame], reader := .after s frame } := by
  have hsends := Moves.sends (s := s) w frame
  have hreads := Moves.reads (s := s) { w with inbox := w.inbox ++ [frame] } frame [] hreader
    (by rw [hinbox, List.nil_append])
  exact (Relation.ReflTransGen.single hsends).tail hreads

/-- **If the connection breaks, the source that waits may still be published**: nothing was written
that says so. -/
theorem publishes_after_drop (hinbox : w.inbox = []) (hreader : w.reader = .waiting)
    (hopen : w.isClosed s = false) {n : Nat} {src : Bytes}
    (hcall : call? w.publisher (.expire n) = some (n, src)) (time : Int) :
    ∃ v v', Reaches s w v ∧ v.reader = .ended .drop ∧ Moves s v v' ∧
      v'.sent = w.sent ++ [.of time (w.seq + 1) (s.compile src).1] := by
  let v : World := { w with inbox := [], read := w.read ++ [.drop], reader := .ended .drop }
  have hv : v.isClosed s = false := by
    rw [World.isClosed, List.any_append, ← World.isClosed, hopen]
    rfl
  refine ⟨v, _, reaches_read hinbox hreader .drop, rfl, .publishes v n src time hcall, ?_⟩
  rw [World.sent_publish, if_neg (by simp [hv])]

/-! ### Another compiler -/

/-- Which frames close the connection is not for the compiler to say. -/
theorem isClosed_compiler (s : Settings) (compiler : Bytes → Except Bytes Compiled) (w : World) :
    w.isClosed { s with compiler } = w.isClosed s := by
  have hclosing : isClosing { s with compiler } = isClosing s := by
    funext frame
    cases frame <;> rfl
  rw [World.isClosed, World.isClosed, hclosing]

/-- Two sessions that differ only in what their documents and records say. -/
structure Alike (w v : World) : Prop where
  inbox : v.inbox = w.inbox
  read : v.read = w.read
  reader : v.reader = w.reader
  handed : v.handed = w.handed
  publisher : v.publisher = w.publisher
  seq : v.seq = w.seq
  times : v.sent.map Message.time = w.sent.map Message.time

/-- **With another compiler a session makes the same moves.** -/
theorem Alike.moves {v : World} (h : Alike w v) (hmoves : Moves s w w')
    (compiler : Bytes → Except Bytes Compiled) :
    ∃ v', Moves { s with compiler } v v' ∧ Alike w' v' := by
  obtain ⟨hinbox', hread', hreader', hhanded', hpublisher', hseq', htimes'⟩ := h
  cases hmoves with
  | sends frame => exact ⟨_, .sends v frame, ⟨by rw [hinbox'], hread', hreader', hhanded',
      hpublisher', hseq', htimes'⟩⟩
  | reads frame rest hreader hinbox =>
    exact ⟨_, .reads v frame rest (hreader'.trans hreader) (hinbox'.trans hinbox),
      ⟨rfl, by rw [hread'], rfl, hhanded', hpublisher', hseq', htimes'⟩⟩
  | hands src hreader hrunning =>
    exact ⟨_, .hands v src (hreader'.trans hreader) (by rw [hpublisher', hrunning]),
      ⟨hinbox', hread', rfl, by rw [hhanded'], by rw [hpublisher'], hseq', htimes'⟩⟩
  | passes n hcall =>
    exact ⟨_, .passes v n (by rw [hpublisher', hcall]),
      ⟨hinbox', hread', hreader', hhanded', by rw [hpublisher'], hseq', htimes'⟩⟩
  | publishes n src time hcall =>
    have hclosed : v.isClosed { s with compiler } = w.isClosed s := by
      rw [isClosed_compiler, World.isClosed, hread']
      rfl
    refine ⟨_, .publishes v n src time (by rw [hpublisher', hcall]), ?_⟩
    cases h : w.isClosed s with
    | true =>
      rw [World.publish_of_closed h, World.publish_of_closed (hclosed.trans h)]
      exact ⟨hinbox', hread', hreader', hhanded', by rw [hpublisher'], by rw [hseq'], htimes'⟩
    | false =>
      rw [World.publish_of_open h, World.publish_of_open (hclosed.trans h)]
      refine ⟨hinbox', hread', hreader', hhanded', by rw [hpublisher'], by rw [hseq'], ?_⟩
      rw [List.map_append, htimes', List.map_append]
      rfl
  | closes frame hreader =>
    exact ⟨_, .closes v frame (hreader'.trans hreader),
      ⟨hinbox', hread', hreader', hhanded', by rw [hpublisher'], hseq', htimes'⟩⟩
  | cancels reason =>
    exact ⟨_, .cancels v reason,
      ⟨hinbox', hread', hreader', hhanded', by rw [hpublisher'], hseq', htimes'⟩⟩
  | leaves hended hreader =>
    exact ⟨_, .leaves v (by rwa [hpublisher']) (by rwa [hreader']),
      ⟨hinbox', hread', by rw [hreader'], hhanded', hpublisher', hseq', htimes'⟩⟩

theorem exists_alike (h : Reachable s w) (compiler : Bytes → Except Bytes Compiled) :
    ∃ v, Reachable { s with compiler } v ∧ Alike w v := by
  induction h with
  | refl => exact ⟨{}, .refl, ⟨rfl, rfl, rfl, rfl, rfl, rfl, rfl⟩⟩
  | tail _ hmoves ih =>
    obtain ⟨v, hv, halike⟩ := ih
    obtain ⟨v', hmoves', halike'⟩ := halike.moves hmoves compiler
    exact ⟨v', hv.tail hmoves', halike'⟩

/-! ### The session with a clock -/

theorem publishAll_concat (s : Settings) (calls : List (Int × Bytes)) (call : Int × Bytes) :
    publishAll s (calls ++ [call]) = publishAll s calls ++ [publish s (calls.length + 1) call] := by
  rw [publishAll, publishAll, List.zipIdx_append, List.map_append]
  simp

theorem length_publishAll (s : Settings) (calls : List (Int × Bytes)) :
    (publishAll s calls).length = calls.length := by
  rw [publishAll, List.length_map, List.length_zipIdx]

theorem timeline_cons_of_some {t : Timeline} {time : Int} {frame : Step}
    {steps : List (Int × Step)} {src : Bytes} (h : source? s frame = some src) :
    timeline s t ((time, frame) :: steps) =
      timeline s (t.send act (timing s) time src) steps := by
  cases frame with
  | message m =>
    rw [source?] at h
    rw [timeline.eq_def]
    dsimp only
    rw [h]
  | _ => cases h

theorem timeline_cons_of_none {t : Timeline} {time : Int} {frame : Step}
    {steps : List (Int × Step)} (h : source? s frame = none) :
    timeline s t ((time, frame) :: steps) =
      (t.stop act (timing s) time .close, readEnd frame) := by
  cases frame with
  | message m =>
    rw [source?] at h
    rw [timeline.eq_def]
    dsimp only
    rw [h]
    rfl
  | _ => rfl

/-- The publisher of a session is where the one with a clock is. -/
structure Shows (s : Settings) (t : Timeline) (w : World) : Prop where
  publisher : w.publisher = t.state
  seq : w.seq = t.calls.length
  sent : w.sent = (publishAll s t.calls).map Prod.fst
  record : w.record = ((publishAll s t.calls).map Prod.snd).foldl Record.append {}

/-- A session is where the one with a clock is, before the next step of its client. -/
structure Follows (s : Settings) (t : Timeline) (w : World) : Prop extends Shows s t w where
  running : t.state.ending = none
  inbox : w.inbox = []
  reader : w.reader = .waiting
  isOpen : w.isClosed s = false

section Follows

variable {t : Timeline}

/-- Waiting is publishing, or nothing. -/
theorem Follows.wait (h : Follows s t w) (time : Int) :
    ∃ w', Reaches s w w' ∧
      Follows s (t.wait act (timing s) time) w' ∧ w'.read = w.read := by
  obtain ⟨hstate, hcalls⟩ | ⟨n, src, hending, hpending, hstate, hcalls⟩ :=
    Timeline.wait_cases act (timing s) time t
  · refine ⟨w, .refl, ⟨⟨?_, ?_, ?_, ?_⟩, ?_, h.inbox, h.reader, h.isOpen⟩, rfl⟩
    · rw [hstate, h.publisher]
    · rw [hcalls, h.seq]
    · rw [hcalls, h.sent]
    · rw [hcalls, h.record]
    · rw [hstate, h.running]
  · -- The timer was due before the client goes on, when the reader still waits.
    have hcall : call? w.publisher (.expire n) = some (n, src) := by
      rw [h.publisher, call?, hending, hpending]
      simp
    have hmoves := Moves.publishes (s := s) w n src t.due hcall
    rw [World.publish_of_open h.isOpen] at hmoves
    refine ⟨_, .single hmoves, ⟨⟨?_, ?_, ?_, ?_⟩, ?_, h.inbox, h.reader, h.isOpen⟩, rfl⟩
    · rw [hstate, h.publisher]
    · rw [hcalls, h.seq, List.length_append, List.length_singleton]
    · rw [hcalls, publishAll_concat, List.map_append, ← h.sent, ← h.seq, List.map_singleton]
    · rw [hcalls, publishAll_concat, List.map_append, List.foldl_append, ← h.record, ← h.seq,
        List.map_singleton, List.foldl_cons, List.foldl_nil]
    · rw [hstate, (step_of_call? act (h.publisher ▸ hcall)).2.2]
      rfl

theorem Follows.isOver_eq_false (h : Follows s t w) : t.isOver = false := by
  rw [Timeline.isOver, h.running]
  rfl

/-- A frame with a source is read, and its source handed over. -/
theorem Follows.send (h : Follows s t w) (time : Int) (frame : Step) {src : Bytes}
    (hsource : source? s frame = some src) :
    ∃ w', Reaches s w w' ∧
      Follows s (t.send act (timing s) time src) w' ∧ w'.read = w.read ++ [frame] := by
  obtain ⟨v, hmoves, hv, hread⟩ := h.wait time
  have hholds : Reader.after s frame = .holding src := by rw [Reader.after, hsource]
  have hhands := Moves.hands (s := s)
    { v with inbox := [], read := v.read ++ [frame], reader := .after s frame } src hholds
    (by rw [hv.publisher, hv.running])
  have hreads : Reaches s v _ := reaches_read hv.inbox hv.reader frame
  refine ⟨_, (hmoves.trans hreads).tail hhands, ?_, by rw [hread]⟩
  rw [Timeline.send]
  dsimp only
  rw [hv.isOver_eq_false]
  have hopen : (v.read ++ [frame]).any (isClosing s) = false := by
    rw [List.any_append, ← World.isClosed, hv.isOpen, List.any_cons,
      isClosing_of_source? hsource]
    rfl
  refine ⟨⟨by rw [hv.publisher]; rfl, hv.seq, hv.sent, hv.record⟩, ?_, rfl, rfl, hopen⟩
  change (step act (t.wait act (timing s) time).state (.receive src)).ending = none
  rw [step.eq_def, hv.running]

/-- A frame without a source is read, and ends both the reader and the publisher. -/
theorem Follows.stop (h : Follows s t w) (time : Int) (frame : Step)
    (hsource : source? s frame = none) :
    ∃ w', Reaches s w w' ∧
      Shows s (t.stop act (timing s) time .close) w' ∧ w'.publisher.ending = some .closed ∧
      w'.reader = .ended frame ∧ w'.read = w.read ++ [frame] := by
  obtain ⟨v, hmoves, hv, hread⟩ := h.wait time
  have hended : Reader.after s frame = .ended frame := by rw [Reader.after, hsource]
  have hcloses := Moves.closes (s := s)
    { v with inbox := [], read := v.read ++ [frame], reader := .after s frame } frame hended
  have hreads : Reaches s v _ := reaches_read hv.inbox hv.reader frame
  refine ⟨_, (hmoves.trans hreads).tail hcloses, ?_, ?_, hended, by rw [hread]⟩
  · rw [Timeline.stop]
    dsimp only
    rw [hv.isOver_eq_false]
    exact ⟨by rw [hv.publisher]; rfl, hv.seq, hv.sent, hv.record⟩
  · change (step act v.publisher .close).ending = some .closed
    rw [step.eq_def, hv.publisher, hv.running]

/-- **A session with a clock can be followed to its end.** -/
theorem Follows.timeline (h : Follows s t w) (steps : List (Int × Step)) :
    ∃ (w' : World) (frame : Step), Reaches s w w' ∧
      Shows s (timeline s t steps).1 w' ∧ w'.publisher.ending = some .closed ∧
      w'.reader = .ended frame ∧ (timeline s t steps).2 = readEnd frame ∧
      w'.read <+: w.read ++ (steps.map Prod.snd ++ [.close 1000]) := by
  induction steps generalizing t w with
  | nil =>
    obtain ⟨w', hmoves, hshows, hending, hreader, hread⟩ :=
      h.stop (t.now + patience) (.close 1000) rfl
    exact ⟨w', .close 1000, hmoves, hshows, hending, hreader, rfl, hread ▸ List.prefix_refl _⟩
  | cons y steps ih =>
    obtain ⟨time, frame⟩ := y
    cases hsource : source? s frame with
    | none =>
      obtain ⟨w', hmoves, hshows, hending, hreader, hread⟩ := h.stop time frame hsource
      rw [timeline_cons_of_none hsource]
      refine ⟨w', frame, hmoves, hshows, hending, hreader, rfl, ?_⟩
      rw [hread, List.prefix_append_right_inj]
      exact ⟨_, rfl⟩
    | some src =>
      obtain ⟨v, hmoves, hv, hread⟩ := h.send time frame hsource
      obtain ⟨w', last, hmoves', hshows, hending, hreader, hend, hstarts⟩ := ih hv
      rw [timeline_cons_of_some hsource]
      refine ⟨w', last, hmoves.trans hmoves', hshows, hending, hreader, hend, ?_⟩
      rwa [hread, List.append_assoc] at hstarts

end Follows

/-- The record of a session that has ended with a frame, where the publisher has its own record. -/
def recordOf (s : Settings) (w : World) (frame : Step) : Record :=
  let start := Record.log (utf8 "DEBUG Start session remote_addr=" ++ client)
  let finish := Record.log (utf8 "DEBUG End session remote_addr=" ++ client ++ utf8 " documents="
    ++ decimalNat w.seq)
  let failure : Record :=
    if readEnd frame = .error then .failure url (utf8 "read websocket message") else {}
  (((start.append w.record).append finish).append failure).kept s

/-- Joining records from the left is joining the first one with all the others. -/
theorem foldl_append_record (r : Record) (rs : List Record) :
    rs.foldl Record.append r = r.append (rs.foldl Record.append {}) := by
  induction rs generalizing r with
  | nil => simp [Record.append]
  | cons r' rs ih =>
    rw [List.foldl_cons, List.foldl_cons, ih, ih (Record.append {} r')]
    simp [Record.append]

/-- **The session with a clock is one of the sessions**: it ends after a frame, and its documents
and its record are those of the publisher. -/
theorem exists_reachable_run (s : Settings) (steps : List (Int × Step)) :
    ∃ (w : World) (frame : Step), Reachable s w ∧ w.publisher.ending = some .closed ∧
      w.reader = .ended frame ∧ w.read <+: steps.map Prod.snd ++ [.close 1000] ∧
      (run s steps).messages = w.sent ∧ (run s steps).record = recordOf s w frame := by
  have hstart : Follows s {} {} := ⟨⟨rfl, rfl, rfl, rfl⟩, rfl, rfl, rfl, rfl⟩
  obtain ⟨w, frame, hmoves, hshows, hending, hreader, hend, hread⟩ := hstart.timeline steps
  refine ⟨w, frame, hmoves, hending, hreader, hread, hshows.sent.symm, ?_⟩
  rw [run, recordOf]
  dsimp only
  rw [hend, foldl_append_record, ← hshows.record, hshows.seq, length_publishAll]
  cases readEnd frame <;> rfl

/-! ### The protocol -/

/-- A message is the answer to a source: what the compiler gives, or a document that says why the
compiler broke off, without diagnostics. What is not well-formed arrives with replacement characters
for its stray octets. -/
structure Answers (s : Settings) (src : Bytes) (m : Message) : Prop where
  document : ∀ c, s.compiler src = .ok c → m.document = Utf8.repair c.document ∧
    (m.document = c.document ↔ Utf8.isValid c.document)
  diagnostics : ∀ c, s.compiler src = .ok c →
    m.diagnostics = c.diagnostics.map fun d =>
      ⟨d.position.line, d.position.column, d.severity.name, Utf8.repair d.message⟩
  broken : ∀ reason, s.compiler src = .error reason →
    m.document = Utf8.repair (errorDocument (Settings.breakMessage reason)) ∧ m.diagnostics = []

/-- The error that is reported for a source. -/
def fault? (s : Settings) (src : Bytes) : Option Bytes :=
  match s.compiler src with
  | .ok _ => none
  | .error reason => some (Settings.breakMessage reason)

theorem snd_compile (s : Settings) (src : Bytes) : (s.compile src).2 = fault? s src := by
  rw [Settings.compile, fault?]
  cases s.compiler src <;> rfl

theorem answers_of (s : Settings) (src : Bytes) (time : Int) (seq : Nat) :
    Answers s src (.of time seq (s.compile src).1) := by
  constructor
  · intro c hc
    rw [Settings.compile, hc]
    exact ⟨rfl, Utf8.repair_eq_self_iff⟩
  · intro c hc
    rw [Settings.compile, hc]
    rfl
  · intro reason hreason
    rw [Settings.compile, hreason]
    exact ⟨rfl, rfl⟩

theorem Issued.answered (h : Issued s w) {k : Nat} {m : Message} (hm : w.sent[k]? = some m) :
    m.seq = k + 1 ∧ ∃ c : Nat × Bytes, w.publisher.calls[k]? = some c ∧ Answers s c.2 m := by
  obtain ⟨c, hc, heq⟩ := h.sent k m hm
  rw [heq]
  exact ⟨rfl, c, hc, answers_of s c.2 m.time (k + 1)⟩

/-- What one move publishes: nothing, or the latest source. While the connection is open its
document arrives, whether the compiler breaks off or not, and the publisher goes on. -/
def Latest (s : Settings) (w w' : World) : Prop :=
  (w'.sent = w.sent ∧ w'.record = w.record ∧ w'.publisher.calls = w.publisher.calls) ∨
  ∃ src, w.handed.getLast? = some src ∧ w.publisher.ending = none ∧
    w'.publisher.calls = w.publisher.calls ++ [(w.handed.length, src)] ∧
    w'.record.errors = w.record.errors ++ (fault? s src).toList ∧
    (¬ w.IsOver s ∧ ¬ w'.IsOver s ∧ (∃ m, w'.sent = w.sent ++ [m] ∧
        m.seq = w.sent.length + 1 ∧ Answers s src m) ∨
      w.isClosed s ∧ w'.sent = w.sent ∧
        w'.publisher.ending = some (.failed World.writeError))

/-- **What is published is the latest source.** -/
theorem latest_of_moves (h : Reachable s w) (hmoves : Moves s w w') : Latest s w w' := by
  obtain ⟨hsent, hrecord, -, hcalls⟩ | ⟨n, src, time, hcall, rfl⟩ := hmoves.sent_cases
  · exact Or.inl ⟨hsent, hrecord, hcalls⟩
  obtain ⟨results, es, hes, hhanded⟩ := exists_history h
  have hissued := issued_of_reachable h
  obtain ⟨hrunning, -, -⟩ := step_of_call? act hcall
  -- The loop acts on what waits, and this is the last source that it has seen.
  obtain ⟨hending, -, hwaits⟩ := (call?_run_iff results).mp (hes ▸ hcall)
  rw [← seen_of_running results hending] at hwaits
  have hlast : w.handed.getLast? = some src := by rw [hhanded, hwaits.getLast?_values]
  have hlength : w.handed.length = n := by rw [hhanded, hwaits.length_values]
  have herrors : (w.publish s n src time).record.errors =
      w.record.errors ++ (fault? s src).toList := by
    rw [(World.publish_frame s w n src time).2.2.2.2, Record.append, errors_publish, snd_compile]
  have hpublisher := World.publisher_publish (s := s) hcall time
  refine Or.inr ⟨src, hlast, hrunning, by rw [hpublisher, hlength], herrors, ?_⟩
  cases hclosed : w.isClosed s with
  | true =>
    refine Or.inr ⟨rfl, by rw [World.sent_publish, if_pos hclosed], ?_⟩
    rw [hpublisher, hclosed]
    rfl
  | false =>
    have hending' : (w.publish s n src time).publisher.ending = none := by
      rw [hpublisher, hclosed]
      rfl
    have hclosed' : (w.publish s n src time).isClosed s = false := by
      rw [World.isClosed, (World.publish_frame s w n src time).1, ← World.isClosed, hclosed]
    refine Or.inl ⟨?_, ?_, .of time (w.seq + 1) (s.compile src).1, ?_, ?_, ?_⟩
    · rintro (h | h)
      · exact absurd h (by simp [hclosed])
      · exact h hrunning
    · rintro (h | h)
      · exact absurd h (by simp [hclosed'])
      · exact h hending'
    · rw [World.sent_publish, if_neg (by simp [hclosed])]
    · rw [hissued.length_sent hrunning, ← hissued.seq]
      rfl
    · exact answers_of s src time (w.seq + 1)

/-- What can still be published when the reader has ended: at most one document, for the last source
that was handed over. -/
def AtMostOne (s : Settings) (w w' : World) : Prop :=
  w'.sent = w.sent ∨ ∃ (src : Bytes) (m : Message), w.handed.getLast? = some src ∧
    w'.sent = w.sent ++ [m] ∧ m.seq = w.sent.length + 1 ∧ Answers s src m

/-- A reader that has ended hands nothing over, so nothing new waits. -/
theorem Moves.of_ended (h : Moves s w w') {frame : Step} (hreader : w.reader = .ended frame) :
    w'.reader = .ended frame ∧ w'.handed = w.handed ∧
      (w.publisher.pending = none → w'.publisher.pending = none) := by
  have hframe : w'.reader = .ended frame ∧ w'.handed = w.handed := by
    cases h with
    | reads frame' rest hwaiting hinbox => cases hreader.symm.trans hwaiting
    | hands src hholding hrunning => cases hreader.symm.trans hholding
    | publishes n src time hcall =>
      obtain ⟨-, hreader', hhanded, -⟩ := World.publish_frame s w n src time
      exact ⟨hreader'.trans hreader, hhanded⟩
    | leaves hended hother => exact absurd hreader (hother frame)
    | _ => exact ⟨hreader, rfl⟩
  refine ⟨hframe.1, hframe.2, fun hpending => ?_⟩
  obtain ⟨hpublisher, -⟩ | ⟨e, result, hpublisher, hhanded, -⟩ := h.publisher_cases
  · rw [hpublisher, hpending]
  · rw [hframe.2, List.self_eq_append_right, Option.toList_eq_nil_iff] at hhanded
    rw [hpublisher, pending_step_of_none _ hpending hhanded]

/-- **When the reader has ended, at most one document follows.** -/
theorem sent_after_end (h : Reachable s w) {frame : Step} (hreader : w.reader = .ended frame)
    (hmoves : Reaches s w w') : w'.reader = .ended frame ∧ w'.handed = w.handed ∧
      (w'.sent = w.sent ∨ w'.publisher.pending = none) ∧ AtMostOne s w w' := by
  induction hmoves with
  | refl => exact ⟨hreader, rfl, Or.inl rfl, Or.inl rfl⟩
  | @tail v v' hv hmove ih =>
    obtain ⟨hreader', hhanded, hpending, hone⟩ := ih
    obtain ⟨hreader'', hhanded', hpending'⟩ := hmove.of_ended hreader'
    refine ⟨hreader'', hhanded'.trans hhanded, ?_⟩
    obtain ⟨hsent, -⟩ | ⟨n, src, time, hcall, rfl⟩ := hmove.sent_cases
    · rw [AtMostOne, hsent]
      exact ⟨hpending.imp_right hpending', hone⟩
    · -- The source that waited is published now, so it is the first one after the end.
      have hvsent : v.sent = w.sent := by
        refine hpending.resolve_right ?_
        rw [(step_of_call? act hcall).2.1]
        simp
      refine ⟨Or.inr (by rw [World.publisher_publish hcall]), ?_⟩
      obtain ⟨hsent, -⟩ |
          ⟨src', hlast, -, -, -, ⟨-, -, m, hsent, hseq, hanswers⟩ | ⟨-, hsent, -⟩⟩ :=
        latest_of_moves (h.trans hv) hmove
      · exact Or.inl (hsent.trans hvsent)
      · rw [hhanded] at hlast
        rw [hvsent] at hsent hseq
        exact Or.inr ⟨src', m, hlast, hsent, hseq, hanswers⟩
      · exact Or.inl (hsent.trans hvsent)

/-- **The protocol of a session.** -/
structure Protocol (s : Settings) (w : World) : Prop where
  /-- The documents are numbered from one on, and each one is the answer to a source on which the
  publisher has acted. -/
  answered : ∀ (k : Nat) (m : Message), w.sent[k]? = some m → m.seq = k + 1 ∧
    ∃ c : Nat × Bytes, w.publisher.calls[k]? = some c ∧ Answers s c.2 m
  /-- There is one for each of these sources, unless the last one was written to a connection that
  is being closed. -/
  complete : w.sent.length = w.publisher.calls.length ∨
    w.isClosed s ∧ w.publisher.calls.length = w.sent.length + 1 ∧
      w.publisher.ending = some (.failed World.writeError)
  /-- The publisher acts on the sources that it was handed, in order and on none of them twice. -/
  increasing : (w.publisher.calls.map Prod.fst).Pairwise (· < ·)
  received : ∀ c ∈ w.publisher.calls, 0 < c.1 ∧ w.handed[c.1 - 1]? = some c.2
  subsequence : (w.publisher.calls.map Prod.snd).Sublist w.handed
  /-- It was handed what the client has sent. -/
  handed : w.handed <+: w.read.filterMap (source? s)
  latest : ∀ w', Moves s w w' → Latest s w w'
  /-- Each source on which the compiler breaks off is reported once. -/
  reported : w.record.errors = w.publisher.calls.filterMap fun c => fault? s c.2
  /-- When the client has closed the connection or the publisher has ended, nothing is sent any
  more. -/
  closed : w.IsOver s → ∀ w', Reaches s w w' → w'.sent = w.sent
  /-- A publisher that has ended drops the source that waits. -/
  stopped : w.publisher.ending ≠ none → ∀ w', Reaches s w w' →
    w'.sent = w.sent ∧ w'.record = w.record ∧ w'.publisher = w.publisher
  /-- When the reading has ended, however it was, at most one document follows. -/
  unread : ∀ frame, w.reader = .ended frame → ∀ w', Reaches s w w' → AtMostOne s w w'
  /-- What the compiler does on one source makes no difference for the others. -/
  independent : ∀ compiler : Bytes → Except Bytes Compiled, ∃ v,
    Reachable { s with compiler } v ∧ v.read = w.read ∧ v.publisher = w.publisher ∧
      ∀ (k : Nat) (c : Nat × Bytes), w.publisher.calls[k]? = some c →
        compiler c.2 = s.compiler c.2 → v.sent[k]? = w.sent[k]?

theorem Alike.getElem?_sent {compiler : Bytes → Except Bytes Compiled} {v : World}
    (h : Alike w v) (hw : Issued s w) (hv : Issued { s with compiler } v) {k : Nat}
    {c : Nat × Bytes} (hc : w.publisher.calls[k]? = some c)
    (hcompiler : compiler c.2 = s.compiler c.2) : v.sent[k]? = w.sent[k]? := by
  have hcompile : Settings.compile { s with compiler } c.2 = s.compile c.2 := by
    rw [Settings.compile, Settings.compile, ← hcompiler]
  -- Both sessions have a message with this number or none has, and both are known from their times.
  have htimes := congrArg (·[k]?) h.times
  simp only [List.getElem?_map] at htimes
  cases hm : w.sent[k]? with
  | none =>
    rw [hm, Option.map_none, Option.map_eq_none_iff] at htimes
    exact htimes
  | some m =>
    rw [hm, Option.map_some, Option.map_eq_some_iff] at htimes
    obtain ⟨m', hm', htime⟩ := htimes
    obtain ⟨c', hc', hmeq⟩ := hw.sent k m hm
    obtain ⟨c'', hc'', hmeq'⟩ := hv.sent k m' hm'
    cases hc'.symm.trans hc
    rw [h.publisher] at hc''
    cases hc''.symm.trans hc
    rw [hm', hmeq', hmeq, htime, hcompile]

/-- **Every session keeps the protocol**, whatever the order is in which its client sends, its
timers expire and its processes move; and the session with a clock is one of these sessions. -/
theorem session_keeps_protocol (s : Settings) :
    (∀ w, Reachable s w → Protocol s w) ∧
    ∀ steps : List (Int × Step), ∃ (w : World) (frame : Step), Reachable s w ∧
      w.publisher.ending = some .closed ∧
      w.reader = .ended frame ∧ w.read <+: steps.map Prod.snd ++ [.close 1000] ∧
      (run s steps).messages = w.sent ∧ (run s steps).record = recordOf s w frame := by
  constructor
  · intro w h
    obtain ⟨results, es, hes, hhanded⟩ := exists_history h
    have hissued := issued_of_reachable h
    refine
      { answered := fun k m => hissued.answered
        complete := hissued.complete
        increasing := hes ▸ (ordered_run results es).increasing
        received := ?_
        subsequence := by rw [hes, hhanded]; exact calls_sublist results es
        handed := ⟨w.reader.held, (fed_of_reachable h).symm⟩
        latest := fun w' => latest_of_moves h
        reported := ?_
        closed := fun hover w' hmoves => (hover.reaches hmoves).2
        stopped := fun hending w' hmoves => ?_
        unread := fun frame hreader w' hmoves => (sent_after_end h hreader hmoves).2.2.2
        independent := fun compiler => ?_ }
    · intro c hc
      rw [hes] at hc
      rw [hhanded]
      exact getElem?_values_of_mem_calls results hc
    · rw [hissued.errors]
      exact congrArg (List.filterMap · _) (funext fun c => snd_compile s c.2)
    · obtain ⟨hpublisher, hrecord⟩ := publisher_of_ending hending hmoves
      exact ⟨(World.IsOver.reaches (Or.inr hending) hmoves).2, hrecord, hpublisher⟩
    · obtain ⟨v, hv, halike⟩ := exists_alike h compiler
      exact ⟨v, hv, halike.read, halike.publisher,
        fun k c => halike.getElem?_sent hissued (issued_of_reachable hv)⟩
  · exact exists_reachable_run s

/-- The first source is replaced in time, the compiler breaks off on the second one, and the last
one is dropped when the client leaves. -/
theorem session_keeps_protocol_breaking :
    let s : Settings :=
      { compiler := fun src => if src = utf8 "b" then .error (utf8 "x") else .ok ⟨src, []⟩ }
    let frames : List Bytes := [utf8 "a", utf8 "b", utf8 "c", utf8 "d"]
    let steps : List (Int × Step) :=
      ([0, 100, 1000, 2000].zip (frames.map fun src => .message (sourceMessage src))) ++
        [(2100, .close 1001)]
    (run s steps).messages.map (fun m => (m.seq, m.document, m.diagnostics.length)) =
      [(1, errorDocument (utf8 "compile source: panic: x"), 0), (2, utf8 "c", 0)] ∧
    (run s steps).record.errors = [utf8 "compile source: panic: x"] ∧
    ∃ w, Reachable s w ∧ Protocol s w ∧ w.IsOver s ∧ (run s steps).messages = w.sent := by
  intro s frames steps
  obtain ⟨hprotocol, hrun⟩ := session_keeps_protocol s
  obtain ⟨w, frame, hw, hending, -, -, hmessages, -⟩ := hrun steps
  have htimeline : (timeline s {} steps).1.calls = [(900, utf8 "b"), (1800, utf8 "c")] ∧
      (timeline s {} steps).2 = .normal := by
    have hsource (src : String) (hshort : isTooLong s (sourceMessage (utf8 src)) = false) :=
      source?_sourceMessage (Utf8.isValid_utf8 src) hshort
    change (timeline s {} [(0, _), (100, _), (1000, _), (2000, _), (2100, _)]).1.calls = _ ∧
      (timeline s {} [(0, _), (100, _), (1000, _), (2000, _), (2100, _)]).2 = _
    rw [timeline_cons_of_some (hsource "a" (by decide +kernel)),
      timeline_cons_of_some (hsource "b" (by decide +kernel)),
      timeline_cons_of_some (hsource "c" (by decide +kernel)),
      timeline_cons_of_some (hsource "d" (by decide +kernel)), timeline_cons_of_none rfl]
    decide
  refine ⟨?_, ?_, w, hw, hprotocol w hw, Or.inr (by simp [hending]), hmessages⟩
  · rw [run]
    dsimp only
    rw [htimeline.1]
    have hvalid : Utf8.isValid (errorDocument (utf8 "compile source: panic: x")) :=
      Utf8.isValid_of_ascii (by decide +kernel)
    change [(1, Utf8.repair (errorDocument (utf8 "compile source: panic: x")), 0),
      (2, Utf8.repair (utf8 "c"), 0)] = _
    rw [Utf8.repair_eq_self_iff.mpr hvalid, Utf8.repair_eq_self_iff.mpr (Utf8.isValid_utf8 "c")]
  · rw [run]
    dsimp only
    rw [htimeline.1, htimeline.2]
    rfl

/-- A document with a stray octet is not what the client gets. -/
theorem document_not_sent :
    let src := utf8 "p \"\\xff\""
    ∃ m, (run {} [(0, .message (sourceMessage src))]).messages = [m] ∧
      m.document = Utf8.repair (Document.compile src) ∧ m.document ≠ Document.compile src := by
  intro src
  have hinvalid : Utf8.isValid (Document.compile src) = false := by
    rw [Document.isValid_compile (Utf8.isValid_utf8 _)]
    decide +kernel
  have hsource : source? {} (.message (sourceMessage src)) = some src :=
    source?_sourceMessage (Utf8.isValid_utf8 _) (by decide +kernel)
  have hcalls : (timeline {} {} [(0, .message (sourceMessage src))]).1.calls = [(800, src)] := by
    rw [timeline_cons_of_some hsource]
    rfl
  refine ⟨.of 800 1 (Compiled.ofSource src), ?_, rfl, fun h => ?_⟩
  · rw [run]
    dsimp only
    rw [hcalls]
    rfl
  · have hvalid : Utf8.isValid (Document.compile src) := Utf8.repair_eq_self_iff.mp h
    rw [hinvalid] at hvalid
    cases hvalid

end Session

end LiveMarkup
