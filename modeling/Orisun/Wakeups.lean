import Orisun.Delivery

/-!
# Wake-ups of a subscription

Any number of goroutines receive hints and call `wake` while the subscription's reader consumes
wake-ups, reads and delivers. A read returns what is readable when its snapshot is taken.
-/

namespace Orisun

/-- The readable events, what was readable at the last read and at the first, the calls of `wake` in
progress with what was readable when they started, and the most of that over the calls that have
put their wake-up or found one pending. -/
structure Subscription where
  log : List Event
  snapshot : ℕ
  origin : Option ℕ
  reader : Reader
  calls : ℕ → Option ℕ
  woken : ℕ

inductive SubscriptionAction where
  | append (event : Event)
  | call (goroutine : ℕ)
  | send (goroutine : ℕ)
  | read
  | reader (action : ReaderAction)

namespace Subscription

variable (p : Event → Bool)

def append (s : Subscription) (event : Event) : Option Subscription :=
  if ∀ x ∈ s.log, x.position < event.position then some { s with log := s.log ++ [event] }
  else none

def call (s : Subscription) (g : ℕ) : Option Subscription :=
  match s.calls g with
  | none => some { s with calls := Function.update s.calls g (some s.log.length) }
  | some _ => none

def send (s : Subscription) (g : ℕ) : Option Subscription :=
  match s.calls g with
  | none => none
  | some readable => some { s with
      reader := s.reader.wake
      calls := Function.update s.calls g none
      woken := max s.woken readable }

def read (s : Subscription) : Option Subscription :=
  (s.reader.receiveBatch (getBatch p s.log s.reader.drain.request)).map fun reader =>
    { s with
      snapshot := s.log.length
      origin := if s.reader.drain.initialized then s.origin else some s.log.length
      reader := reader }

def step (s : Subscription) : SubscriptionAction → Option Subscription
  | .append event => s.append event
  | .call g => s.call g
  | .send g => s.send g
  | .read => s.read p
  | .reader action => (s.reader.step action).map fun reader => { s with reader := reader }

def initial (start : Option Position) : Subscription :=
  ⟨[], 0, none, .initial start, fun _ => none, 0⟩

/-- Where the reader blocks without a wake-up, every match that was readable when a call of `wake`
started has been delivered, or does not come after the start, which without a start position is the
match the initial read delivered. -/
def NoLostWakeup (start : Option Position) (s : Subscription) : Prop :=
  s.reader.state = .waiting → s.reader.drain.pending = false →
    ∀ e ∈ s.log.take s.woken, p e = true →
      e ∈ s.reader.delivered ∨ (∃ a, start = some a ∧ e.position ≤ a) ∨
        start = none ∧ ∃ n first, s.origin = some n ∧
          ((s.log.take n).filter p).getLast? = some first ∧ first ∈ s.reader.delivered ∧
          e.position ≤ first.position

end Subscription

end Orisun
