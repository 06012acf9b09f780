import Orisun.Admin.UserProjection

/-!
# The count of users

The projector of the dashboard keeps one number. It reads the number, saves it one higher or lower,
publishes it, and then stores the position of the event. Whether the save has failed is not asked;
if a later part fails, the event is projected again from the start.
-/

namespace Orisun.Admin.Users

open OptimisticLog

def newCount (e : Event) (count : UInt32) : Option UInt32 :=
  if e.eventType = eventTypeUserCreated then some (count + 1)
  else if e.eventType = eventTypeUserDeleted then some (count - 1)
  else none

/-- Where the projector is: between events, at the start of `Project`, before it saves the number,
before it publishes it, or about to store the event's position. -/
inductive CountProcess where
  | waiting (cursor : Position)
  | projecting (e : Entry Position Event)
  | saving (e : Entry Position Event) (count : UInt32)
  | publishing (e : Entry Position Event)
  | storing (e : Entry Position Event)
  deriving DecidableEq, Repr

/-- The number in the table, `0` where it has no row, and the stored position. -/
structure UserCount where
  count : UInt32
  checkpoint : Position
  process : Option CountProcess
  deriving DecidableEq, Repr

namespace UserCount

def initial : UserCount := ⟨0, notExistsPosition, none⟩

inductive Action where
  | start
  | stop
  | deliver
  | read (fails : Bool)
  | save (fault : Fault)
  /-- Publishing fails without a message id. -/
  | publish (fails : Bool)
  | store (fault : Fault)
  deriving DecidableEq, Repr

def step (log : Log) (s : UserCount) : Action → Option UserCount
  | .start =>
    match s.process with
    | none => some { s with process := some (.waiting s.checkpoint) }
    | some _ => none
  | .stop => some { s with process := none }
  | .deliver =>
    match s.process with
    | some (.waiting cursor) =>
      (Projector.next log cursor).map fun e => { s with process := some (.projecting e) }
    | _ => none
  | .read fails =>
    match s.process with
    | some (.projecting e) =>
      match newCount e.event s.count with
      | none => some { s with process := some (.storing e) }
      | some count =>
        if fails then some s else some { s with process := some (.saving e count) }
    | _ => none
  | .save fault =>
    match s.process with
    | some (.saving e count) =>
      match fault with
      | .lost => some { s with process := some (.publishing e) }
      | .none | .unacknowledged => some { s with count := count, process := some (.publishing e) }
    | _ => none
  | .publish fails =>
    match s.process with
    | some (.publishing e) =>
      some { s with process := some (if fails then .projecting e else .storing e) }
    | _ => none
  | .store fault =>
    match s.process with
    | some (.storing e) =>
      match fault with
      | .none => some ⟨s.count, e.position, some (.waiting e.position)⟩
      | .lost => some { s with process := some (.projecting e) }
      | .unacknowledged => some ⟨s.count, e.position, some (.projecting e)⟩
    | _ => none

def atRest (s : UserCount) : Bool :=
  match s.process with
  | none | some (.waiting _) => true
  | _ => false

end UserCount

def Event.isCounted (e : Event) : Bool :=
  decide (e.eventType = eventTypeUserCreated ∨ e.eventType = eventTypeUserDeleted)

def creations (log : Log) : ℕ := log.countP fun e => decide (e.event.eventType = eventTypeUserCreated)

def deletions (log : Log) : ℕ := log.countP fun e => decide (e.event.eventType = eventTypeUserDeleted)

/-- Each `UserDeleted` is that of a user who was created before and not deleted yet. -/
def DeletionsFollow (log : Log) : Prop :=
  ∀ before e after, log = before ++ e :: after → e.event.eventType = eventTypeUserDeleted →
    ∃ userId, e.event.field "user_id" = some userId ∧
      (∃ f ∈ before, f.event.eventType = eventTypeUserCreated ∧
        f.event.field "user_id" = some userId) ∧
      ∀ f ∈ before, f.event.eventType = eventTypeUserDeleted →
        f.event.field "user_id" ≠ some userId

namespace UserCount

/-- Saves take effect, and from then on nothing comes between the save and the checkpoint. -/
def Uninterrupted (s : UserCount) : Action → Prop
  | .save fault => fault ≠ .lost
  | .publish fails => fails = false
  | .store fault => ∀ e, s.process = some (.storing e) → e.event.isCounted = true → fault = .none
  | .stop => ∀ e, s.process ≠ some (.publishing e) ∧
      (s.process = some (.storing e) → e.event.isCounted = false)
  | _ => True

/-- The number is that of the users created and not deleted up to the checkpoint. -/
def Accurate (log : Log) (s : UserCount) : Prop :=
  (s.count.toNat : ℤ) = creations (upTo log s.checkpoint) - deletions (upTo log s.checkpoint)

/-- A number that is about to be saved for a deletion is one less than the one in the table. -/
def NoWrap (s : UserCount) : Prop :=
  ∀ e count, s.process = some (.saving e count) → e.event.eventType = eventTypeUserDeleted →
    count.toNat + 1 = s.count.toNat

end UserCount

end Orisun.Admin.Users
