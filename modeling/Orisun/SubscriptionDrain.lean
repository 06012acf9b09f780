import Orisun.Meaning

/-!
# The reader of a subscription

Hints only leave a wake-up in a channel of capacity one. The reader consumes it, reads pages forward
from its cursor, inclusively, and stops at the first short page. A page is validated as a whole;
then its events are handed over one by one, and the cursor follows the calls that succeed. A reader
without a cursor first asks for the latest match alone.
-/

namespace Orisun

inductive Direction where
  | asc
  | desc
  deriving DecidableEq, Repr

def Direction.before (dir : Direction) (p q : Position) : Bool :=
  match dir with
  | asc => p ≤ q
  | desc => q ≤ p

structure GetEventsRequest where
  direction : Direction
  count : ℕ
  fromPosition : Option Position
  deriving DecidableEq, Repr

inductive PageError where
  | tooMany (returned limit : ℕ)
  | nonAdvancing (index : ℕ)
  deriving DecidableEq, Repr

inductive DrainError where
  | context (cause : String)
  | inactive (cause : String)
  | readFailed (cause : String)
  | invalidBatch (e : PageError)
  | handlerFailed (cause : String)
  deriving DecidableEq, Repr

structure SubscriptionDrain where
  cursor : Option Position
  initialized : Bool
  pending : Bool
  deriving DecidableEq, Repr

def newSubscriptionDrain (after : Option Position) : SubscriptionDrain :=
  ⟨after, after.isSome, false⟩

namespace SubscriptionDrain

def wake (d : SubscriptionDrain) : SubscriptionDrain := { d with pending := true }

def batchSize : ℕ := 100

def request (d : SubscriptionDrain) : GetEventsRequest :=
  if d.initialized then ⟨.asc, batchSize, d.cursor⟩ else ⟨.desc, 1, none⟩

/-- The context's error comes before that of the subscription's own check. -/
def checkActive (ctxErr check : Option String) : Option DrainError :=
  match ctxErr with
  | some cause => some (.context cause)
  | none => check.map .inactive

def readError (ctxErr : Option String) (cause : String) : DrainError :=
  match ctxErr with
  | some ctx => .context ctx
  | none => .readFailed cause

/-- The events from index `i` on advance; only the first of a page may stay where the cursor is. -/
def validateFrom : ℕ → Option Position → List Event → Except PageError Unit
  | _, _, [] => .ok ()
  | i, none, event :: batch => validateFrom (i + 1) (some event.position) batch
  | i, some previous, event :: batch =>
    if !positionValuesAfter event.position.commitPosition event.position.preparePosition
        previous.commitPosition previous.preparePosition ∧
        (i ≠ 0 ∨ event.position.commitPosition ≠ previous.commitPosition ∨
          event.position.preparePosition ≠ previous.preparePosition)
    then .error (.nonAdvancing i)
    else validateFrom (i + 1) (some event.position) batch

def validate (cursor : Option Position) (batch : List Event) (count : ℕ) : Except PageError Unit :=
  if batch.length > count then .error (.tooMany batch.length count)
  else validateFrom 0 cursor batch

end SubscriptionDrain

/-- A page with the cursor and the limit it was requested under. -/
structure Page where
  cursor : Option Position
  batch : List Event
  limit : ℕ

/-- Where the reader is: blocked in `run`, at the top of the loop of `drain`, in its read, or with
a page of which `rest` is left. -/
inductive ReaderState where
  | waiting
  | checking
  | reading
  | delivering (page : Page) (rest : List Event)
  | stopped (e : DrainError)

/-- The reader's goroutine, with the events its handler has succeeded on. -/
structure Reader where
  drain : SubscriptionDrain
  state : ReaderState
  delivered : List Event

/-- What the reader and its handler do, apart from the read itself. -/
inductive ReaderAction where
  | receive
  | cancel (cause : String)
  | check (ctxErr check : Option String)
  | fail (ctxErr : Option String) (cause : String)
  | skip
  | handle (ctxErr check handler : Option String)
  | finish

namespace Reader

open SubscriptionDrain

def wake (r : Reader) : Reader := { r with drain := r.drain.wake }

def receive (r : Reader) : Option Reader :=
  match r.state, r.drain.pending with
  | .waiting, true => some { r with drain := { r.drain with pending := false }, state := .checking }
  | _, _ => none

def cancel (r : Reader) (cause : String) : Option Reader :=
  match r.state with
  | .waiting => some { r with state := .stopped (.context cause) }
  | _ => none

def check (r : Reader) (ctxErr check : Option String) : Option Reader :=
  match r.state with
  | .checking => some { r with state := (checkActive ctxErr check).elim .reading .stopped }
  | _ => none

def fail (r : Reader) (ctxErr : Option String) (cause : String) : Option Reader :=
  match r.state with
  | .reading => some { r with state := .stopped (readError ctxErr cause) }
  | _ => none

def receiveBatch (r : Reader) (batch : List Event) : Option Reader :=
  match r.state with
  | .reading =>
    match validate r.drain.cursor batch r.drain.request.count with
    | .error e => some { r with state := .stopped (.invalidBatch e) }
    | .ok () =>
      some { r with state := .delivering ⟨r.drain.cursor, batch, r.drain.request.count⟩ batch }
  | _ => none

def skip (r : Reader) : Option Reader :=
  match r.state with
  | .delivering page (event :: rest) =>
    if r.drain.cursor = some event.position then some { r with state := .delivering page rest }
    else none
  | _ => none

def handle (r : Reader) (ctxErr check handler : Option String) : Option Reader :=
  match r.state with
  | .delivering page (event :: rest) =>
    if r.drain.cursor = some event.position then none
    else match checkActive ctxErr check, handler with
      | some e, _ => some { r with state := .stopped e }
      | none, some cause => some { r with state := .stopped (.handlerFailed cause) }
      | none, none => some
          { drain := { r.drain with cursor := some event.position }
            state := .delivering page rest
            delivered := r.delivered ++ [event] }
  | _ => none

/-- The end of a page: a short one ends the call, except for the match the reader began with. -/
def finish (r : Reader) : Option Reader :=
  match r.state with
  | .delivering page [] => some
      { r with
        drain := { r.drain with initialized := true }
        state := if page.batch.length = 0 ∨
            (r.drain.initialized ∧ page.batch.length < batchSize) then .waiting else .checking }
  | _ => none

def step (r : Reader) : ReaderAction → Option Reader
  | .receive => r.receive
  | .cancel cause => r.cancel cause
  | .check ctxErr check => r.check ctxErr check
  | .fail ctxErr cause => r.fail ctxErr cause
  | .skip => r.skip
  | .handle ctxErr check handler => r.handle ctxErr check handler
  | .finish => r.finish

/-- A new reader takes over at the last cursor of one that has stopped. -/
def restart (r : Reader) : Option Reader :=
  match r.state with
  | .stopped _ => some { r with drain := newSubscriptionDrain r.drain.cursor, state := .waiting }
  | _ => none

def initial (after : Option Position) : Reader := ⟨newSubscriptionDrain after, .waiting, []⟩

end Reader

end Orisun
