import LiveMarkup.Proofs.Live.Session
import LiveMarkup.Proofs.Playground.Requests
import Mathlib.Algebra.Order.Ring.Int

/-!
# The size of a source

A source can reach the compiler in the body of a request or in a message of a session. The body of a
request is the source, and it is refused if it has more octets than the settings allow. A message
has a frame around the source and escapes in it, and what is limited is the whole message: to twice
the size of a source and a bit more, in 64-bit arithmetic.

So the two limits are not the same. Whether a message is taken is a matter of its length alone
(`LiveMarkup.Session.receive?_of_decode?`), however the source is written in it. How long the usual
message for a source is, is said by `LiveMarkup.Session.length_sourceMessage`, and where the limit
of messages is, by `LiveMarkup.Playground.Settings.maxMessageOctets_eq`.
-/

namespace LiveMarkup

/-! ### The length of a message -/

theorem Utf8.length_encodeAll (cs : List Char) :
    (encodeAll cs).length = (cs.map Char.utf8Size).sum := by
  induction cs with
  | nil => rfl
  | cons c cs ih =>
    rw [encodeAll_cons, List.length_append, length_encode, ih, List.map_cons, List.sum_cons]

namespace Session

open Playground

/-- **How long the message for a source is.** -/
theorem length_sourceMessage (src : Bytes) :
    (sourceMessage src).length = 14 + ((Utf8.lossy src).map ScriptString.width).sum := by
  have hliteral : (scriptString src).length =
      2 + ((Utf8.lossy src).map ScriptString.width).sum := by
    rw [scriptString_eq, List.length_cons, List.length_append, List.length_flatMap,
      List.length_singleton, List.map_congr_left fun c _ => ScriptString.length_char c]
    omega
  rw [sourceMessage, List.length_append, List.length_append, hliteral]
  change 10 + _ + 2 = _
  omega

/-- Escapes make a source at most six times as long. -/
theorem length_sourceMessage_bounds {src : Bytes} (hvalid : Utf8.isValid src) :
    src.length + 14 ≤ (sourceMessage src).length ∧
      (sourceMessage src).length ≤ 6 * src.length + 14 := by
  obtain ⟨cs, rfl⟩ := Utf8.isValid_iff.mp hvalid
  rw [length_sourceMessage, Utf8.lossy_encodeAll, Utf8.length_encodeAll]
  induction cs with
  | nil => simp
  | cons c cs ih =>
    have ih := ih (Utf8.isValid_iff.mpr ⟨cs, rfl⟩)
    have hle := ScriptString.utf8Size_le_width c
    have hge := ScriptString.width_le c
    simp only [List.map_cons, List.sum_cons]
    omega

/-- The message for a source that repeats one character. -/
theorem length_sourceMessage_replicate {c : Char} (hc : c.toNat < 0x80) (n : Nat) :
    Utf8.isValid (List.replicate n (octet c)) ∧
      (sourceMessage (List.replicate n (octet c))).length = 14 + n * ScriptString.width c := by
  have hencode : Utf8.encodeAll (List.replicate n c) = List.replicate n (octet c) := by
    induction n with
    | zero => rfl
    | succ n ih =>
      rw [List.replicate_succ, Utf8.encodeAll_cons, ih, Utf8.encode_of_lt hc, List.replicate_succ,
        List.singleton_append]
  rw [← hencode, length_sourceMessage, Utf8.lossy_encodeAll, List.map_replicate,
    List.sum_replicate_nat]
  exact ⟨Utf8.isValid_iff.mpr ⟨_, rfl⟩, rfl⟩

/-! ### The two limits -/

/-- **A session takes a message with a source, or refuses it**, by its length alone. -/
theorem receive?_of_decode? (s : Settings) {frame src : Bytes} (h : decode? frame = some src) :
    receive? s frame =
      if 0 < s.maxMessageOctets ∧ s.maxMessageOctets < frame.length then none else some src := by
  rw [receive?, isTooLong, h]
  simp only [decide_eq_true_eq]

theorem decode?_sourceMessage_of_isValid {src : Bytes} (hvalid : Utf8.isValid src) :
    decode? (sourceMessage src) = some src := by
  rw [decode?_sourceMessage, Utf8.repair_eq_self_iff.mpr hvalid]

end Session

namespace Playground

/-- **The limit of messages wraps around** for large limits of sources. -/
theorem Settings.maxMessageOctets_eq {s : Settings} (hmax : s.maxSourceOctets < 2 ^ 63) :
    s.maxMessageOctets = if s.maxSourceOctets < 2 ^ 62 - 512 then 2 * s.maxSourceOctets + 1024
      else 2 * s.maxSourceOctets + 1024 - 2 ^ 64 := by
  have hpos := s.maxSourceOctets_pos
  -- The sum is below `2 ^ 64 + 1024`, so that it wraps around at most once.
  rw [maxMessageOctets, wrap64, Int.bmod_def]
  split_ifs <;> omega

/-- **A request is refused for its size** if and only if the source is too long. -/
theorem status_answer_post (s : Settings) {r : Request} (hupgrade : r.isUpgrade = false)
    (hmethod : r.method = utf8 "POST") :
    (answer s r).status = 413 ↔ s.maxSourceOctets < r.body.length := by
  rw [answer_post hupgrade hmethod, answerCompile_eq]
  dsimp only
  split_ifs with hlarge hfails
  · exact iff_of_true rfl hlarge
  · exact iff_of_false (fun h => by cases h) hlarge
  · rw [status_answerSource]
    split_ifs <;> exact iff_of_false (fun h => by cases h) hlarge

theorem Settings.quietPeriod_pos (s : Settings) : 0 < s.quietPeriod := by
  rw [quietPeriod]
  split_ifs <;> omega

end Playground

namespace Session

open Playground Debounce

/-- A client that sends one message and leaves after the quiet period. -/
def oneMessage (s : Settings) (frame : Bytes) : List (Int × Step) :=
  [(0, .message frame), (s.quietPeriod, .close 1000)]

/-- A message that is taken is compiled. -/
theorem messages_of_received {s : Settings} {frame src : Bytes}
    (h : receive? s frame = some src) :
    (run s (oneMessage s frame)).messages.map Message.document =
      [Utf8.repair (s.compile src).1.document] := by
  have hcalls : (timeline s {} (oneMessage s frame)).1.calls = [(s.quietPeriod, src)] := by
    have hsource : source? s (.message frame) = some src := h
    have hquiet := s.quietPeriod_pos
    rw [oneMessage, timeline_cons_of_some hsource, timeline_cons_of_none rfl]
    simp [Timeline.stop, Timeline.send, Timeline.wait, Timeline.advance, Timeline.isOver, step,
      timing, act, Int.max_eq_left hquiet.le]
  rw [run]
  dsimp only
  rw [hcalls]
  rfl

/-- A message that is refused ends the session with an error. -/
theorem messages_of_refused {s : Settings} {frame : Bytes} (h : receive? s frame = none) :
    (run s (oneMessage s frame)).messages = [] ∧
      (s.bare = false →
        (run s (oneMessage s frame)).record.errors = [utf8 "read websocket message"]) := by
  have hsource : source? s (.message frame) = none := h
  have htimeline : (timeline s {} (oneMessage s frame)).1.calls = [] ∧
      (timeline s {} (oneMessage s frame)).2 = .error := by
    rw [oneMessage, timeline_cons_of_none hsource]
    exact ⟨rfl, rfl⟩
  rw [run]
  dsimp only
  rw [htimeline.1, htimeline.2]
  refine ⟨rfl, fun hbare => ?_⟩
  rw [Record.kept, hbare]
  rfl

end Session

namespace Playground

open Session

/-- What a limit of messages means for the messages with a source. What is taken is compiled, and
what is not ends the session. -/
structure LimitsMessages (s : Settings) (src : Bytes) (limit : Int) : Prop where
  taken : ∀ frame, decode? frame = some src →
    (receive? s frame = some src ↔ limit ≤ 0 ∨ frame.length ≤ limit)
  compiled : ∀ frame, receive? s frame = some src →
    (run s (oneMessage s frame)).messages.map Message.document =
      [Utf8.repair (s.compile src).1.document]
  refused : ∀ frame, decode? frame = some src → receive? s frame ≠ some src →
    receive? s frame = none ∧ (run s (oneMessage s frame)).messages = [] ∧
      (s.bare = false →
        (run s (oneMessage s frame)).record.errors = [utf8 "read websocket message"])

theorem limitsMessages (s : Settings) (src : Bytes) :
    LimitsMessages s src s.maxMessageOctets := by
  refine ⟨fun frame h => ?_, fun frame => messages_of_received, fun frame h hne => ?_⟩
  · rw [receive?_of_decode? s h]
    split_ifs with hlong
    · simp only [false_iff]
      omega
    · simp only [true_iff]
      omega
  · have hnone : receive? s frame = none := by
      rw [receive?_of_decode? s h] at hne ⊢
      split_ifs at hne ⊢
      · rfl
      · exact absurd rfl hne
    exact ⟨hnone, messages_of_refused hnone⟩

/-- **The limits of requests and of sessions.** A request is refused for its size exactly if the
source has more octets than the settings allow. A session takes a message with a source, however it
is written, exactly if the message has not more octets than twice as many and 1024; where this is
beyond 64 bits there is no limit, or a small one.

So for the usual message both agree on a source with at most a third of the octets allowed, and on
one with more than twice as many; between these it depends on the characters of the source. -/
theorem request_and_session_limits (s : Settings) (hmax : s.maxSourceOctets < 2 ^ 63) (src : Bytes)
    (hvalid : Utf8.isValid src) :
    let m := s.maxSourceOctets
    let frame := sourceMessage src
    (∀ r : Request, r.isUpgrade = false → r.method = utf8 "POST" → r.body = src →
      ((answer s r).status = 413 ↔ m < src.length)) ∧
    (m < 2 ^ 62 - 512 → LimitsMessages s src (2 * m + 1024)) ∧
    (2 ^ 62 - 512 ≤ m → LimitsMessages s src (2 * m + 1024 - 2 ^ 64)) ∧
    decode? frame = some src ∧
    frame.length = 14 + ((Utf8.lossy src).map ScriptString.width).sum ∧
    (m < 2 ^ 62 - 512 → src.length ≤ m → 3 * src.length ≤ m + 505 →
      receive? s frame = some src) ∧
    (m < 2 ^ 62 - 512 → 2 * m + 1010 < src.length → receive? s frame = none) := by
  intro m frame
  have hpos : 0 < m := s.maxSourceOctets_pos
  have hlimit : s.maxMessageOctets =
      if m < 2 ^ 62 - 512 then 2 * m + 1024 else 2 * m + 1024 - 2 ^ 64 :=
    Settings.maxMessageOctets_eq hmax
  have hsmall : m < 2 ^ 62 - 512 → LimitsMessages s src (2 * m + 1024) := by
    intro hm
    rw [if_pos hm] at hlimit
    exact hlimit ▸ limitsMessages s src
  have hframe : decode? frame = some src := decode?_sourceMessage_of_isValid hvalid
  have hbounds : src.length + 14 ≤ frame.length ∧ frame.length ≤ 6 * src.length + 14 :=
    length_sourceMessage_bounds hvalid
  refine ⟨?_, hsmall, fun hm => ?_, hframe, length_sourceMessage src, fun hm hle hthird => ?_,
    fun hm hlt => ?_⟩
  · rintro r hupgrade hmethod rfl
    exact status_answer_post s hupgrade hmethod
  · rw [if_neg (by omega)] at hlimit
    exact hlimit ▸ limitsMessages s src
  · rw [(hsmall hm).taken frame hframe]
    omega
  · refine ((hsmall hm).refused frame hframe fun h => ?_).1
    rw [(hsmall hm).taken frame hframe] at h
    omega

/-- A source with two octets where one is allowed. -/
theorem request_and_session_limits_small :
    let s : Settings := { maxSource := 1 }
    let src := utf8 "pp"
    let r : Request := { method := utf8 "POST", body := src }
    s.maxSourceOctets < 2 ^ 63 ∧ Utf8.isValid src ∧ (answer s r).status = 413 ∧
      receive? s (sourceMessage src) = some src ∧
      (run s (oneMessage s (sourceMessage src))).messages.map Message.document =
        [Utf8.repair (s.compile src).1.document] := by
  intro s src r
  have hvalid : Utf8.isValid src := by decide +kernel
  obtain ⟨hpost, hsession, -, hframe, hlength, -⟩ :=
    request_and_session_limits s (by decide) src hvalid
  have hlimits := hsession (by decide)
  have hreceive : receive? s (sourceMessage src) = some src := by
    have hsum : ((Utf8.lossy src).map ScriptString.width).sum = 2 := by decide +kernel
    rw [hlimits.taken _ hframe, hlength, hsum]
    decide
  exact ⟨by decide, hvalid, (hpost r rfl rfl rfl).mpr (by decide), hreceive,
    hlimits.compiled _ hreceive⟩

/-- **The limits differ in both directions.** Where one octet is allowed, a session takes two. Where
253 are allowed, it refuses so many angle brackets, since each of them is written with six octets.
And where as many are allowed as there can be, it refuses a source with 1009. -/
theorem session_limit_differs :
    let taken (max : Int) (src : Bytes) :=
      receive? ({ maxSource := max } : Settings) (sourceMessage src) = some src
    let allowed (max : Int) (src : Bytes) :=
      (src.length : Int) ≤ ({ maxSource := max } : Settings).maxSourceOctets
    let angles := List.replicate 253 (octet '<')
    let letters (n : Nat) := List.replicate n (octet 'p')
    (Utf8.isValid (letters 2) ∧ taken 1 (letters 2) ∧ ¬ allowed 1 (letters 2)) ∧
    (Utf8.isValid angles ∧ ¬ taken 253 angles ∧ allowed 253 angles) ∧
    (Utf8.isValid (letters 1009) ∧ ¬ taken (2 ^ 63 - 1) (letters 1009) ∧
      allowed (2 ^ 63 - 1) (letters 1009)) := by
  intro taken allowed angles letters
  have htaken (max : Int) {c : Char} (hc : c.toNat < 0x80) (n : Nat) :
      Utf8.isValid (List.replicate n (octet c)) ∧ (taken max (List.replicate n (octet c)) ↔
        ¬(0 < ({ maxSource := max } : Settings).maxMessageOctets ∧
          ({ maxSource := max } : Settings).maxMessageOctets <
            ((14 + n * ScriptString.width c : Nat) : Int))) := by
    obtain ⟨hvalid, hlength⟩ := length_sourceMessage_replicate hc n
    refine ⟨hvalid, ?_⟩
    rw [← hlength]
    dsimp only [taken]
    rw [receive?_of_decode? _ (decode?_sourceMessage_of_isValid hvalid)]
    split_ifs with h <;> simp [h]
  have hangles := htaken 253 (c := '<') (by decide) 253
  have htwo := htaken 1 (c := 'p') (by decide) 2
  have hmany := htaken (2 ^ 63 - 1) (c := 'p') (by decide) 1009
  refine ⟨⟨htwo.1, htwo.2.mpr (by decide), ?_⟩,
    ⟨hangles.1, fun h => hangles.2.mp h (by decide), ?_⟩,
    ⟨hmany.1, fun h => hmany.2.mp h (by decide), ?_⟩⟩
  · decide
  · simp only [allowed, angles, List.length_replicate]
    decide
  · simp only [allowed, letters, List.length_replicate]
    decide

end Playground

end LiveMarkup
