import LiveMarkup.Text.Bytes

/-!
# Debouncing

Values arrive one after another, and only the latest one is acted on, once no other has arrived for
a quiet period. `LiveMarkup.Debounce.step` is the loop that does this, on what it can see: a value,
the expiry of a timer, the end of the input and a cancellation. Every value starts a timer of its
own, so the timer of a value that was replaced has no effect any more.

`LiveMarkup.Debounce.Timeline` adds a clock: when a value is received, when its timer expires, and
for how long the loop is busy with an action.
-/

namespace LiveMarkup

namespace Debounce

/-! ### The loop -/

/-- What the loop sees. -/
inductive Event (α : Type)
  | receive (value : α)
  /-- The timer of the value with this number expires; the first value has number one. -/
  | expire (number : Nat)
  | close
  /-- The loop is told to stop, with a reason. -/
  | cancel (reason : Bytes)
  deriving DecidableEq, Repr

/-- Why the loop has ended. -/
inductive Ending
  | closed
  | cancelled (reason : Bytes)
  | failed (reason : Bytes)
  deriving DecidableEq, Repr

/-- The error that an ending is reported as. -/
def Ending.error? : Ending → Option Bytes
  | .closed => none
  | .cancelled reason | .failed reason => some reason

/-- The state of the loop. -/
structure State (α : Type) where
  /-- How many values were received. -/
  received : Nat := 0
  /-- The value that waits for its timer, with its number. -/
  pending : Option (Nat × α) := none
  /-- The values that were acted on, with their numbers. -/
  calls : List (Nat × α) := []
  ending : Option Ending := none
  deriving DecidableEq, Repr

/-- The loop after one more event. `act` gives the error of an action from its number, counted from
one, and the value. -/
def step {α : Type} (act : Nat → α → Option Bytes) (s : State α) (e : Event α) : State α :=
  match s.ending with
  | some _ => s
  | none =>
    match e with
    | .receive v => { s with received := s.received + 1, pending := some (s.received + 1, v) }
    | .expire k =>
      match s.pending with
      | none => s
      | some (n, v) =>
        if k = n then
          { s with
            pending := none
            calls := s.calls ++ [(n, v)]
            ending := (act (s.calls.length + 1) v).map .failed }
        else s
    | .close => { s with ending := some .closed }
    | .cancel reason => { s with ending := some (.cancelled reason) }

/-- The loop after a list of events. -/
def run {α : Type} (act : Nat → α → Option Bytes) (s : State α) (es : List (Event α)) : State α :=
  es.foldl (step act) s

/-! ### The clock -/

/-- How long things take. -/
structure Timing where
  /-- How long no value may arrive before the last one is acted on. -/
  quiet : Int
  /-- How long an action takes. -/
  busy : Int := 0

/-- The loop with a clock. -/
structure Timeline where
  state : State Bytes := {}
  /-- When the last step of the sender was done. -/
  now : Int := 0
  /-- From when on the loop waits for events. -/
  free : Int := 0
  /-- When the timer of the pending value expires. -/
  due : Int := 0
  /-- When the values were acted on. -/
  calls : List (Int × Bytes) := []
  /-- When the loop ended. -/
  ended : Int := 0

namespace Timeline

variable (act : Nat → Bytes → Option Bytes) (timing : Timing)

/-- Whether the loop has ended. -/
def isOver (t : Timeline) : Bool := t.state.ending.isSome

/-- The timeline at a time: if the timer of the pending value has expired by then, the value was
acted on. -/
def advance (time : Int) (t : Timeline) : Timeline :=
  match t.state.ending, t.state.pending with
  | none, some (n, v) =>
    if t.due ≤ time then
      let free := t.due + timing.busy
      { t with
        state := step act t.state (.expire n)
        calls := t.calls ++ [(t.due, v)]
        free
        ended := free }
    else t
  | _, _ => t

/-- The start of a step: the sender waits for its time. -/
def wait (time : Int) (t : Timeline) : Timeline :=
  let start := max time t.now
  { advance act timing start t with now := start }

/-- Sends a value. It is received when the loop is free, or dropped when the loop has ended. -/
def send (time : Int) (v : Bytes) (t : Timeline) : Timeline :=
  let s := wait act timing time t
  if s.isOver then { s with now := max s.now s.ended }
  else
    let received := max s.now s.free
    { s with
      state := step act s.state (.receive v)
      due := received + max timing.quiet 0
      now := received }

/-- Ends the input or cancels the loop. The loop sees it when it is free. -/
def stop (time : Int) (e : Event Bytes) (t : Timeline) : Timeline :=
  let s := wait act timing time t
  if s.isOver then s
  else { s with state := step act s.state e, ended := max s.now s.free }

end Timeline

/-! ### Schedules -/

/-- The reason of a loop that is stopped before its time. -/
def stopReason : Bytes := utf8 "context canceled"

/-- A step of the sender. -/
inductive Command
  | send (value : Bytes)
  | close
  | cancel
  deriving DecidableEq, Repr

/-- What became of a step. -/
inductive Fate
  | sent | dropped | done
  deriving DecidableEq, Repr

/-- The name of a fate. -/
def Fate.name : Fate → Bytes
  | .sent => utf8 "sent"
  | .dropped => utf8 "dropped"
  | .done => utf8 "done"

/-- An action that fails at one call, counted from one. -/
def failingAt (call : Int) (n : Nat) (_ : Bytes) : Option Bytes :=
  if (n : Int) = call then some (utf8 "call " ++ decimalNat n ++ utf8 " failed") else none

/-- The timeline after a step, and what became of the step. -/
def perform (act : Nat → Bytes → Option Bytes) (timing : Timing) (t : Timeline) (time : Int)
    (c : Command) : Timeline × Fate :=
  match c with
  | .send v =>
    let s := t.send act timing time v
    (s, if s.isOver then .dropped else .sent)
  | .close => (t.stop act timing time .close, .done)
  | .cancel => (t.stop act timing time (.cancel stopReason), .done)

/-- The timeline after a list of steps, and when each of them was done and what became of it. -/
def performAll (act : Nat → Bytes → Option Bytes) (timing : Timing) :
    Timeline → List (Int × Command) → Timeline × List (Int × Fate)
  | t, [] => (t, [])
  | t, (time, c) :: cs =>
    let first := perform act timing t time c
    let more := performAll act timing first.1 cs
    (more.1, (first.1.now, first.2) :: more.2)

/-- How long after the last step an input is closed that was not. -/
def patience : Int := 10000

/-- The timeline of a schedule up to its end, and what became of its steps. -/
def schedule (act : Nat → Bytes → Option Bytes) (timing : Timing) (cs : List (Int × Command)) :
    Timeline × List (Int × Fate) :=
  let r := performAll act timing {} cs
  if cs.any fun c => c.2 = .close then r
  else (r.1.stop act timing (r.1.now + patience) .close, r.2)

end Debounce

end LiveMarkup
