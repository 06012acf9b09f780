import Orisun.Admin.UserCommands
import Orisun.Postgres.Input

/-!
# The user projector

The projector handles the events of the admin log in their order, one at a time, and stores the
position of each after its effect on the table of users. It stops at any point, and starts again
from the position it stored last. The table holds what its columns make of the values they are given.
-/

namespace Orisun.Admin.Users

open OptimisticLog

/-- What the columns of the table store of an id and of the other texts, `none` where they refuse
the value. -/
structure Columns where
  id : String → Option String
  text : String → Option String

namespace Columns

def sqlite : Columns := ⟨some, some⟩

def postgres : Columns := ⟨Postgres.uuidIn, Postgres.varchar 255⟩

def row (cols : Columns) (user : User) : Option User := do
  let id ← cols.id user.id
  let name ← cols.text user.name
  let username ← cols.text user.username
  let hashedPassword ← cols.text user.hashedPassword
  return ⟨id, name, username, hashedPassword, user.roles⟩

/-- A column refuses the value or stores it as it is. -/
def Keeps (column : String → Option String) (s : String) : Prop := ∀ s', column s = some s' → s' = s

/-- Nothing the projector writes of the event is changed by its column. -/
def KeepsEvent (cols : Columns) : Event → Prop
  | .userCreated data => Keeps cols.id data.userId ∧ Keeps cols.text data.name ∧
      Keeps cols.text data.username ∧ Keeps cols.text data.passwordHash
  | .userDeleted userId => Keeps cols.id userId
  | .userPasswordChanged userId passwordHash =>
    Keeps cols.id userId ∧ Keeps cols.text passwordHash
  | _ => True

end Columns

inductive ProjectionError where
  | decode
  | notFound (userId : String)
  | usernameTaken (username : String)
  deriving DecidableEq, Repr

def createNewUser (t : Table) (user : User) : Except ProjectionError Table :=
  match t.upsert user with
  | none => .error (.usernameTaken user.username)
  | some t => .ok t

def isProjected (eventType : String) : Bool :=
  eventType ∈ [eventTypeUserCreated, eventTypeUserDeleted, eventTypeUserPasswordChanged]

def UserCreated.user (data : UserCreated) : User :=
  ⟨data.userId, data.name, data.username, data.passwordHash, data.roles⟩

/-- `handleEvent` run to its end. -/
def handleEvent (t : Table) : Event → Except ProjectionError Table
  | .userCreated data => createNewUser t data.user
  | .userDeleted userId => .ok (t.delete userId)
  | .userPasswordChanged userId passwordHash =>
    match t.getById userId with
    | none => .error (.notFound userId)
    | some user => createNewUser t { user with hashedPassword := passwordHash }
  | .undecodable eventType _ => if isProjected eventType then .error .decode else .ok t
  | .rolesChanged _ | .other _ => .ok t

def handleAll (log : Log) : Except ProjectionError Table :=
  log.foldlM (fun t e => handleEvent t e.event) []

/-- Where the projector is: between events, at the start of one, with the row it changes the password
of, or about to store the event's position. -/
inductive Process where
  | waiting (cursor : Position)
  | handling (e : Entry Position Event)
  | writing (e : Entry Position Event) (row : User) (passwordHash : String)
  | storing (e : Entry Position Event)
  deriving DecidableEq, Repr

/-- `halfHandled` records that an event above the checkpoint has had its effect. -/
structure Projector where
  table : Table
  checkpoint : Position
  process : Option Process
  halfHandled : Bool
  deriving DecidableEq, Repr

namespace Projector

def initial : Projector := ⟨[], notExistsPosition, none, false⟩

inductive Action where
  | start
  | stop
  | deliver
  | handle (fault : Fault)
  | write (fault : Fault)
  | store (fault : Fault)
  deriving DecidableEq, Repr

def next (log : Log) (position : Position) : Option (Entry Position Event) :=
  log.find? fun e => decide (position < e.position)

/-- A statement on the table takes place, if not for a fault, and is followed by `done` where its
answer arrives. Otherwise the event is handled again. -/
def effect (s : Projector) (e : Entry Position Event) (t : Table) (done : Process) :
    Fault → Projector
  | .none =>
    { s with
      table := t
      process := some done
      halfHandled := s.halfHandled || decide (s.checkpoint < e.position) }
  | .lost => { s with process := some (.handling e) }
  | .unacknowledged =>
    { s with
      table := t
      process := some (.handling e)
      halfHandled := s.halfHandled || decide (s.checkpoint < e.position) }

def handle (cols : Columns) (s : Projector) (e : Entry Position Event) (fault : Fault) : Projector :=
  match e.event with
  | .userCreated data =>
    match (cols.row data.user).bind s.table.upsert with
    | none => s
    | some t => s.effect e t (.storing e) fault
  | .userDeleted userId =>
    match cols.id userId with
    | none => s
    | some id => s.effect e (s.table.delete id) (.storing e) fault
  | .userPasswordChanged userId passwordHash =>
    match fault, (cols.id userId).bind s.table.getById with
    | .none, some row => { s with process := some (.writing e row passwordHash) }
    | _, _ => s
  | .undecodable eventType _ =>
    if isProjected eventType then s else { s with process := some (.storing e) }
  | .rolesChanged _ | .other _ => { s with process := some (.storing e) }

def step (cols : Columns) (log : Log) (s : Projector) : Action → Option Projector
  | .start =>
    match s.process with
    | none => some { s with process := some (.waiting s.checkpoint) }
    | some _ => none
  | .stop => some { s with process := none }
  | .deliver =>
    match s.process with
    | some (.waiting cursor) =>
      (next log cursor).map fun e => { s with process := some (.handling e) }
    | _ => none
  | .handle fault =>
    match s.process with
    | some (.handling e) => some (s.handle cols e fault)
    | _ => none
  | .write fault =>
    match s.process with
    | some (.writing e row passwordHash) =>
      match (cols.row { row with hashedPassword := passwordHash }).bind s.table.upsert with
      | none => some { s with process := some (.handling e) }
      | some t => some (s.effect e t (.storing e) fault)
    | _ => none
  | .store fault =>
    match s.process with
    | some (.storing e) =>
      match fault with
      | .none => some ⟨s.table, e.position, some (.waiting e.position), false⟩
      | .lost => some { s with process := some (.handling e) }
      | .unacknowledged => some ⟨s.table, e.position, some (.handling e), false⟩
    | _ => none

end Projector

def Event.hashFor (userId : String) : Event → Option String
  | .userCreated data => if data.userId = userId then some data.passwordHash else none
  | .userPasswordChanged u hash => if u = userId then some hash else none
  | _ => none

/-- The hash of the latest creation or password change of a user. -/
def latestHash (log : Log) (userId : String) : Option String :=
  (log.filterMap fun e => e.event.hashFor userId).getLast?

/-- The users created and not deleted, each with its latest hash. -/
def IsUser (log : Log) (user : User) : Prop :=
  ∃ e ∈ log, ∃ data, e.event = .userCreated data ∧
    (∀ f ∈ log, f.event ≠ .userDeleted data.userId) ∧
    latestHash log data.userId = some user.hashedPassword ∧
    user = { data.user with hashedPassword := user.hashedPassword }

def upTo (log : Log) (position : Position) : Log :=
  log.filter fun e => decide (e.position ≤ position)

end Orisun.Admin.Users
