import Mathlib.Data.Int.Notation
import Mathlib.Data.List.Basic
import Mathlib.Logic.Function.Basic
import Orisun.Lib.Transition

/-!
# Signals of new events

`Notify` leaves a token in the channel of every signal registered for a boundary, at once or by a
timer. A relay holds a signal: it publishes until it has succeeded once, waits for a token, and
publishes again. When its lease or its context ends it stops the signal, and the last signal of a
boundary takes the boundary's timer with it, unless the timer has fired already.
-/

namespace Orisun.Sqlite

inductive TimerState where
  /-- Not fired, and not stopped. -/
  | scheduled
  /-- The callback has been started, and has not got the notifier's lock yet. -/
  | fired
  | finished
  deriving DecidableEq, Repr

structure Timer where
  boundary : String
  state : TimerState
  deriving DecidableEq, Repr

def Timer.isArmed (t : Timer) : Bool := decide (t.state ≠ .finished)

/-- Where a relay is. How many calls of `Notify` there had been is kept from when it consumed the
token it publishes for, and from when its attempt began. -/
inductive RelayState where
  /-- At the top of the publish loop. -/
  | publishing (consumed : Option ℕ)
  /-- In a call of `Publish`. -/
  | attempting (consumed : Option ℕ) (began : ℕ)
  | waiting
  /-- Returning with an error, before the signal is stopped. -/
  | returning (consumed : Option ℕ)
  | stopped
  deriving DecidableEq, Repr

/-- A signal with its relay, and when the latest attempt to publish began that has succeeded. -/
structure EventSignal where
  boundary : String
  registeredAt : ℕ
  registered : Bool
  token : Bool
  relay : RelayState
  published : ℕ
  deriving DecidableEq, Repr

/-- The signals and timers made so far, and the timer the notifier has of each boundary. The calls
of `Notify` are recorded in their order. -/
structure SqliteEventNotifier where
  notifies : List String
  signals : List EventSignal
  timers : List Timer
  current : String → Option ℕ

namespace SqliteEventNotifier

def initial : SqliteEventNotifier := ⟨[], [], [], fun _ => none⟩

variable (n : SqliteEventNotifier)

/-- `len(n.signals[boundary]) > 0`. -/
def hasSignals (boundary : String) : Bool :=
  n.signals.any fun s => s.registered && decide (s.boundary = boundary)

def signal (boundary : String) : SqliteEventNotifier :=
  { n with signals := n.signals ++
      [⟨boundary, n.notifies.length, true, false, .publishing none, 0⟩] }

def notifyLocked (boundary : String) : SqliteEventNotifier :=
  { n with signals := n.signals.map fun s =>
      if s.registered ∧ s.boundary = boundary then { s with token := true } else s }

/-- The call of `Notify` is put on record. -/
def called (boundary : String) : SqliteEventNotifier :=
  { n with notifies := n.notifies ++ [boundary] }

def addTimer (boundary : String) : SqliteEventNotifier :=
  { n with
    timers := n.timers ++ [⟨boundary, .scheduled⟩]
    current := Function.update n.current boundary (some n.timers.length) }

/-- The delay is that of the constructor, which takes a negative one for none. -/
def notify (wakeDelay : ℤ) (boundary : String) : SqliteEventNotifier :=
  if n.hasSignals boundary = false then n.called boundary
  else if wakeDelay > 0 then
    if (n.current boundary).isSome then n.called boundary
    else (n.called boundary).addTimer boundary
  else (n.called boundary).notifyLocked boundary

def setTimer (k : ℕ) (t : Timer) (state : TimerState) : SqliteEventNotifier :=
  { n with timers := n.timers.set k { t with state := state } }

def fire (k : ℕ) : Option SqliteEventNotifier :=
  match n.timers[k]? with
  | some t => if t.state = .scheduled then some (n.setTimer k t .fired) else none
  | none => none

/-- The callback deletes whatever timer the notifier has of the boundary. -/
def callback (k : ℕ) : Option SqliteEventNotifier :=
  match n.timers[k]? with
  | some t =>
    if t.state = .fired then
      some ({ n.setTimer k t .finished with
        current := Function.update n.current t.boundary none }.notifyLocked t.boundary)
    else none
  | none => none

/-- `timer.Stop()` and `delete(n.timers, boundary)`. A timer that has fired is not stopped. -/
def stopTimer (boundary : String) : SqliteEventNotifier :=
  match n.current boundary with
  | none => n
  | some k =>
    match n.timers[k]? with
    | none => n
    | some t =>
      { n.setTimer k t (if t.state = .scheduled then .finished else t.state) with
        current := Function.update n.current boundary none }

def setSignal (i : ℕ) (s : EventSignal) : SqliteEventNotifier :=
  { n with signals := n.signals.set i s }

def removeSignal (i : ℕ) (s : EventSignal) : SqliteEventNotifier :=
  n.setSignal i { s with registered := false, relay := .stopped }

def unregister (i : ℕ) (s : EventSignal) : SqliteEventNotifier :=
  if (n.removeSignal i s).hasSignals s.boundary then n.removeSignal i s
  else (n.removeSignal i s).stopTimer s.boundary

end SqliteEventNotifier

inductive RelayAction where
  /-- `lease.Check` and the beginning of `Publish`. -/
  | attempt
  | leaseLost
  | published
  /-- The relay waits after a failure, or is cancelled while it does. -/
  | failed (cancelled : Bool)
  | receive
  | cancelled
  deriving DecidableEq, Repr

/-- A move of the relay that holds the signal, after so many calls of `Notify`. -/
def EventSignal.advance (clock : ℕ) (s : EventSignal) (action : RelayAction) :
    Option EventSignal :=
  match action, s.relay with
  | .attempt, .publishing consumed => some { s with relay := .attempting consumed clock }
  | .leaseLost, .publishing consumed => some { s with relay := .returning consumed }
  | .published, .attempting _ began =>
    some { s with relay := .waiting, published := max s.published began }
  | .failed cancelled, .attempting consumed _ =>
    some { s with relay := if cancelled then .returning consumed else .publishing consumed }
  | .receive, .waiting =>
    if s.token then some { s with relay := .publishing (some clock), token := false } else none
  | .cancelled, .waiting => some { s with relay := .returning none }
  | _, _ => none

namespace SqliteEventNotifier

variable (n : SqliteEventNotifier)

/-- The deferred `signal.Stop()`. -/
def stop (i : ℕ) (s : EventSignal) : Option SqliteEventNotifier :=
  match s.relay with
  | .returning _ => some (n.unregister i s)
  | _ => none

inductive Action where
  | signal (boundary : String)
  | notify (boundary : String)
  | fire (timer : ℕ)
  | callback (timer : ℕ)
  | relay (signal : ℕ) (action : RelayAction)
  | stop (signal : ℕ)
  deriving DecidableEq, Repr

def step (wakeDelay : ℤ) : Action → Option SqliteEventNotifier
  | .signal boundary => some (n.signal boundary)
  | .notify boundary => some (n.notify wakeDelay boundary)
  | .fire k => n.fire k
  | .callback k => n.callback k
  | .relay i action =>
    match n.signals[i]? with
    | some s => (s.advance n.notifies.length action).map (n.setSignal i)
    | none => none
  | .stop i =>
    match n.signals[i]? with
    | some s => n.stop i s
    | none => none

/-- The `k`-th call of `Notify` was for the signal, after its registration. -/
def Notified (s : EventSignal) (k : ℕ) : Prop :=
  s.registeredAt ≤ k ∧ n.notifies[k]? = some s.boundary

/-- A timer for the boundary will put a token into its signals. -/
def Armed (boundary : String) : Prop := ∃ t ∈ n.timers, t.boundary = boundary ∧ t.isArmed = true

end SqliteEventNotifier

namespace RelayState

/-- The relay has consumed a token after the `k`-th call of `Notify`, and is in its publish loop. -/
def inLoopSince (k : ℕ) : RelayState → Bool
  | publishing consumed | attempting consumed _ => consumed.any fun c => decide (k < c)
  | _ => false

/-- The relay has consumed a token after the `k`-th call of `Notify`, and its lease or its context
has ended before it has published. -/
def returningSince (k : ℕ) : RelayState → Bool
  | returning consumed => consumed.any fun c => decide (k < c)
  | _ => false

end RelayState

namespace SqliteEventNotifier

/-- What becomes of the `k`-th call of `Notify`. -/
def Reaches (n : SqliteEventNotifier) (s : EventSignal) (k : ℕ) : Prop :=
  k < s.published ∨ s.token = true ∨ n.Armed s.boundary ∨ s.relay.inLoopSince k = true

variable {n : SqliteEventNotifier} {s : EventSignal} {k : ℕ}

instance : Decidable (n.Notified s k) := inferInstanceAs (Decidable (_ ∧ _))

instance {boundary : String} : Decidable (n.Armed boundary) :=
  inferInstanceAs (Decidable (∃ t ∈ n.timers, _ ∧ _))

instance : Decidable (n.Reaches s k) := inferInstanceAs (Decidable (_ ∨ _ ∨ _ ∨ _))

end SqliteEventNotifier

end Orisun.Sqlite
