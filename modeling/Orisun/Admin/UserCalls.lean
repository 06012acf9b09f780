import Orisun.Admin.UserProjection

/-!
# Calls on users with nothing else going on

A command that no other is interleaved with takes its steps one after the other on one log.
`ListUsers` reads the table, which may be behind the log, and looks up each of its users in the log.
-/

namespace Orisun.Admin.Users

open OptimisticLog

section Alone

variable (compare : String → String → Bool) (id : String) (hash : Option String)

/-- The next step of a command that is not about to append. The deletion is read before the password
changes; the log is the same for both. -/
def Handler.advance (log : Log) (h : Handler) : Option Handler :=
  (h.read log).or <| (h.readDeleted log).or <| (h.readChanged log).or <| h.decided compare id hash

/-- A command run to its end: the log it leaves, and what it returns. -/
def Handler.run (position : Position) (log : Log) :
    ℕ → Handler → Option (Log × Except UserError Unit)
  | _, .finished result => some (log, result)
  | 0, _ => none
  | fuel + 1, h =>
    match h.pending log with
    | some (event, holds) => some (appendEvent log event holds position .none)
    | none => (h.advance compare id hash log).bind (Handler.run position log fuel)

def callSteps : ℕ := 6

end Alone

def Event.creates (userId : String) (e : Event) : Bool :=
  e.tag "user_id" == some userId && e.eventType == eventTypeUserCreated

def Event.passwordHash : Event → Option String
  | .userCreated data => some data.passwordHash
  | .userPasswordChanged _ hash => some hash
  | _ => none

/-- The hash a user's password was changed to last, or the one it was created with. -/
def storedHash (log : Log) (userId : String) : Option String :=
  ((latest? (Event.changesPassword userId) log).or (latest? (Event.creates userId) log)).bind
    fun e => e.event.passwordHash

/-- The type looked for is not the one a deletion has: that one starts with a dollar sign. -/
def isUserDeleted (log : Log) (userId : String) : Bool :=
  !(getEvents ⟨[byUserId userId "UserDeleted"]⟩ 1 log).isEmpty

def listUsers (log : Log) (t : Table) : List User :=
  t.filter fun user => !isUserDeleted log user.id

end Orisun.Admin.Users
