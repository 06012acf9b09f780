import Orisun.Admin.BoundaryLifecycle
import Orisun.Lib.GrowingLog

/-!
# The count of events

The projector of the dashboard keeps one number for a boundary. For every event it reads the number,
saves it one higher, publishes it, and then stores the position of the event. Where no number is
saved yet, or it cannot be read, the events of the boundary are counted instead. Events are appended
all the while.
-/

namespace Orisun.Sqlite

open Admin (Fault)

/-- The saved number, or the number of events in the table. -/
def getEventsCount (log : List Position) (saved : Option ℕ) (cacheFails countFails : Bool) :
    Option ℕ :=
  match cacheFails, saved with
  | false, some count => some count
  | _, _ => if countFails then none else some log.length

/-- Where the projector is: between events, at the start of `Project`, before it saves the number,
before it publishes it, or about to store the event's position. -/
inductive EventCountProcess where
  | waiting (cursor : Position)
  | projecting (e : Position)
  | saving (e : Position) (newCount : ℕ)
  | publishing (e : Position)
  | storing (e : Position)
  deriving DecidableEq, Repr

/-- The positions of the boundary's events, the row of `events_count`, the stored position and the
projector. -/
structure EventCount where
  log : List Position
  saved : Option ℕ
  checkpoint : Position
  process : Option EventCountProcess
  deriving DecidableEq, Repr

namespace EventCount

def initial : EventCount := ⟨[], none, notExistsPosition, none⟩

inductive Action where
  | append (position : Position)
  | start
  | stop
  | deliver
  | read (cacheFails countFails : Bool)
  | save (fault : Fault)
  /-- Publishing fails without a message id. -/
  | publish (fails : Bool)
  | store (fault : Fault)
  deriving DecidableEq, Repr

def next (log : List Position) (position : Position) : Option Position :=
  log.find? fun p => decide (position < p)

def step (s : EventCount) : Action → Option EventCount
  | .append position =>
    if notExistsPosition < position ∧ ∀ p ∈ s.log, p < position then
      some { s with log := s.log ++ [position] }
    else none
  | .start =>
    match s.process with
    | none => some { s with process := some (.waiting s.checkpoint) }
    | some _ => none
  | .stop => some { s with process := none }
  | .deliver =>
    match s.process with
    | some (.waiting cursor) =>
      (next s.log cursor).map fun e => { s with process := some (.projecting e) }
    | _ => none
  | .read cacheFails countFails =>
    match s.process with
    | some (.projecting e) =>
      match getEventsCount s.log s.saved cacheFails countFails with
      | none => some s
      | some count => some { s with process := some (.saving e (count + 1)) }
    | _ => none
  | .save fault =>
    match s.process with
    | some (.saving e newCount) =>
      match fault with
      | .lost => some { s with process := some (.publishing e) }
      | .none | .unacknowledged =>
        some { s with saved := some newCount, process := some (.publishing e) }
    | _ => none
  | .publish fails =>
    match s.process with
    | some (.publishing e) =>
      some { s with process := some (if fails then .projecting e else .storing e) }
    | _ => none
  | .store fault =>
    match s.process with
    | some (.storing e) =>
      match fault with
      | .none => some { s with checkpoint := e, process := some (.waiting e) }
      | .lost => some { s with process := some (.projecting e) }
      | .unacknowledged => some { s with checkpoint := e, process := some (.projecting e) }
    | _ => none

def atRest (s : EventCount) : Bool :=
  match s.process with
  | none | some (.waiting _) => true
  | _ => false

/-- Nothing fails, and the projector is stopped only between events. -/
def failureFree (s : EventCount) : Action → Bool
  | .append _ | .start | .deliver => true
  | .stop => s.atRest
  | .read cacheFails countFails => !cacheFails && !countFails
  | .save fault | .store fault => decide (fault = .none)
  | .publish fails => !fails

def handled (s : EventCount) : ℕ := (GrowingLog.upTo id s.checkpoint s.log).length

end EventCount

end Orisun.Sqlite
