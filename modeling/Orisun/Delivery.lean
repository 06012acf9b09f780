import Orisun.Lib.GrowingLog
import Orisun.Lib.Transition
import Orisun.SubscriptionDrain

/-!
# Delivery from a growing log

The readable events of a boundary are a log that grows at its end. A read answers from a snapshot of
the log that is no older than that of the read before; reads, checks and handlers fail as they like,
and a reader that has stopped is restarted from its cursor.
-/

namespace Orisun

/-- The first matches at or after the position, or the last ones at or before it. -/
def getBatch (p : Event → Bool) (snapshot : List Event) (req : GetEventsRequest) : List Event :=
  match req.direction with
  | .asc => (GrowingLog.since Event.position req.fromPosition (snapshot.filter p)).take req.count
  | .desc => ((snapshot.filter p).filter fun e =>
      req.fromPosition.all fun q => e.position ≤ q).reverse.take req.count

/-- The log, how much of it the last read has seen, and the snapshots of the first read of all and
of the last read without a cursor. -/
structure Delivery where
  log : List Event
  seen : ℕ
  firstRead : Option ℕ
  origin : Option ℕ
  reader : Reader

inductive DeliveryAction where
  | append (event : Event)
  | wake
  | read (snapshot : ℕ)
  | reader (action : ReaderAction)
  | restart

namespace Delivery

variable (p : Event → Bool)

def append (d : Delivery) (event : Event) : Option Delivery :=
  if ∀ x ∈ d.log, x.position < event.position then some { d with log := d.log ++ [event] }
  else none

def read (d : Delivery) (snapshot : ℕ) : Option Delivery :=
  if d.seen ≤ snapshot ∧ snapshot ≤ d.log.length then
    (d.reader.receiveBatch (getBatch p (d.log.take snapshot) d.reader.drain.request)).map
      fun reader =>
        { d with
          seen := snapshot
          firstRead := d.firstRead.or (some snapshot)
          origin := if d.reader.drain.initialized then d.origin else some snapshot
          reader := reader }
  else none

def step (d : Delivery) : DeliveryAction → Option Delivery
  | .append event => d.append event
  | .wake => some { d with reader := d.reader.wake }
  | .read snapshot => d.read p snapshot
  | .reader action => (d.reader.step action).map fun reader => { d with reader := reader }
  | .restart => d.reader.restart.map fun reader => { d with reader := reader }

def initial (start : Option Position) : Delivery := ⟨[], 0, none, none, .initial start⟩

end Delivery

/-- The events a subscription is for: those after its start position, and without one, the latest of
the matches its first read has seen and the matches after that. -/
def expected (p : Event → Bool) (start : Option Position) (origin : Option ℕ) (log : List Event) :
    List Event :=
  match start, origin with
  | some _, _ => GrowingLog.after Event.position start (log.filter p)
  | none, some n => ((log.take n).filter p).getLast?.toList ++ (log.drop n).filter p
  | none, none => []

def upTo (cursor : Option Position) (events : List Event) : List Event :=
  events.filter fun e => cursor.any fun c => e.position ≤ c

/-- A step of a call of `drain`. -/
def DeliveryAction.isDrain : DeliveryAction → Bool
  | .read _ => true
  | .reader (.check _ _) => true
  | .reader (.fail _ _) => true
  | .reader .skip => true
  | .reader (.handle _ _ _) => true
  | .reader .finish => true
  | _ => false

def ReaderState.inDrain : ReaderState → Bool
  | checking => true
  | reading => true
  | delivering _ _ => true
  | _ => false

/-- What holds of a subscription from `start` in every state it reaches. -/
structure SubscriptionDelivery (p : Event → Bool) (start : Option Position) (d : Delivery) :
    Prop where
  increasing : GrowingLog.Sorted Event.position d.reader.delivered
  delivered : d.reader.delivered = upTo d.reader.drain.cursor (expected p start d.origin d.log)
  /-- The cursor moves only with a call of the handler that succeeds, to the event handed over. -/
  cursor_moves : ∀ a d', d.step p a = some d' → d'.reader.drain.cursor ≠ d.reader.drain.cursor →
    ∃ page event rest, d.reader.state = .delivering page (event :: rest) ∧
      a = .reader (.handle none none none) ∧ d'.reader.drain.cursor = some event.position ∧
      d'.reader.delivered = d.reader.delivered ++ [event]
  /-- The page of an event that is handed over has been validated as a whole. -/
  validated : ∀ ctxErr check handler d', d.step p (.reader (.handle ctxErr check handler)) = some d' →
    ∃ page event rest, d.reader.state = .delivering page (event :: rest) ∧
      event :: rest <:+ page.batch ∧
      SubscriptionDrain.validate page.cursor page.batch page.limit = .ok ()
  /-- A call of `drain` on a log that does not grow ends after so many steps. -/
  terminates : ∀ actions d', (∀ a ∈ actions, a.isDrain = true ∨ a = .wake) →
    Transition.run (Delivery.step p) d actions = some d' →
      (actions.filter DeliveryAction.isDrain).length ≤
        (SubscriptionDrain.batchSize + 4) * (d.log.length + 1)
  /-- Until then it has a step to take that does not stop it. -/
  continues : d.reader.state.inDrain = true → ∃ a d', a.isDrain = true ∧ d.step p a = some d' ∧
    ∀ e, d'.reader.state ≠ .stopped e

end Orisun
