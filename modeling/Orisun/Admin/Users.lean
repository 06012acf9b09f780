import Orisun.Lib.OptimisticLog
import Orisun.Position

/-!
# Users

Users are written down as events of the admin log and projected into a table. The events are looked
up by the tags of their data.
-/

namespace Orisun.Admin.Users

open OptimisticLog

inductive Role where
  | admin | operations
  deriving DecidableEq, Repr

structure User where
  id : String
  name : String
  username : String
  hashedPassword : String
  roles : List Role
  deriving DecidableEq, Repr

def eventTypeUserCreated : String := "$UserCreated"

def eventTypeUserDeleted : String := "$UserDeleted"

def eventTypeRolesChanged : String := "$RolesChanged"

def eventTypeUserPasswordChanged : String := "$UserPasswordChanged"

structure UserCreated where
  name : String
  userId : String
  username : String
  roles : List Role
  passwordHash : String
  deriving DecidableEq, Repr

/-- An event of the admin log. The data of an `undecodable` one has the id of a user and does not
decode otherwise. -/
inductive Event where
  | userCreated (data : UserCreated)
  | userDeleted (userId : String)
  | userPasswordChanged (userId passwordHash : String)
  | rolesChanged (userId : String)
  | undecodable (eventType userId : String)
  | other (eventType : String)
  deriving DecidableEq, Repr

namespace Event

def eventType : Event → String
  | userCreated _ => eventTypeUserCreated
  | userDeleted _ => eventTypeUserDeleted
  | userPasswordChanged _ _ => eventTypeUserPasswordChanged
  | rolesChanged _ => eventTypeRolesChanged
  | undecodable eventType _ => eventType
  | other eventType => eventType

def omitEmpty (s : String) : Option String := if s = "" then none else some s

def field (key : String) : Event → Option String
  | userCreated data =>
    if key = "name" then some data.name
    else if key = "user_id" then some data.userId
    else if key = "username" then some data.username
    else if key = "password_hash" then omitEmpty data.passwordHash
    else none
  | userPasswordChanged userId passwordHash =>
    if key = "user_id" then some userId
    else if key = "password_hash" then omitEmpty passwordHash
    else none
  | userDeleted userId | rolesChanged userId | undecodable _ userId =>
    if key = "user_id" then some userId else none
  | other _ => none

def tag (key : String) (e : Event) : Option String :=
  if key = "__eventType" then some e.eventType else e.field key

def isUserType (eventType : String) : Bool :=
  eventType ∈ [eventTypeUserCreated, eventTypeUserDeleted, eventTypeUserPasswordChanged,
    eventTypeRolesChanged]

end Event

structure Tag where
  key : String
  value : String
  deriving DecidableEq, Repr

/-- Criteria are alternatives; an event matches one by all its tags. -/
structure Query where
  criteria : List (List Tag)
  deriving DecidableEq, Repr

def Query.selects (q : Query) (e : Event) : Bool :=
  q.criteria.any fun tags => tags.all fun t => e.tag t.key == some t.value

abbrev Log := List (Entry Position Event)

def getEvents (q : Query) (count : ℕ) (log : Log) : Log :=
  (select q.selects log).reverse.take count

abbrev Table := List User

namespace Table

/-- The row is inserted, or replaces the one of its id. A username belongs to one row. -/
def upsert (t : Table) (u : User) : Option Table :=
  if t.any fun r => decide (r.username = u.username ∧ r.id ≠ u.id) then none
  else if t.any fun r => decide (r.id = u.id) then
    some (t.map fun r => if r.id = u.id then u else r)
  else some (t ++ [u])

def delete (t : Table) (id : String) : Table := t.filter fun r => decide (r.id ≠ id)

def getById (t : Table) (id : String) : Option User := t.find? fun r => decide (r.id = id)

def getByUsername (t : Table) (username : String) : Option User :=
  t.find? fun r => decide (r.username = username)

structure Keyed (t : Table) : Prop where
  ids : (t.map User.id).Nodup
  usernames : (t.map User.username).Nodup

end Table

end Orisun.Admin.Users
