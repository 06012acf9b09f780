import Orisun.Admin.BoundaryLifecycle
import Orisun.Admin.Users
import Orisun.Criteria

/-!
# Commands on users

`CreateUser`, `DeleteUser` and `ChangePassword` read the events of one user from the admin log and
append under an observation. Any number of them run interleaved, one step at a time; a step is one
read, the decision that follows the reads, or one append, and a command can stop between any two.
-/

namespace Orisun.Admin.Users

open OptimisticLog

def createdByUsername (username : String) : List Tag :=
  [⟨"username", username⟩, ⟨"__eventType", eventTypeUserCreated⟩]

/-- The tag is not one the data has: its key is `user_id` there. -/
def deletedByUserId (userId : String) : List Tag :=
  [⟨"__eventType", eventTypeUserDeleted⟩, ⟨"userId", userId⟩]

def byUserId (userId eventType : String) : List Tag :=
  [⟨"user_id", userId⟩, ⟨"__eventType", eventType⟩]

/-- What `CreateUser` observes. -/
def creationQuery (username userId : String) : Query :=
  ⟨[createdByUsername username, deletedByUserId userId]⟩

/-- What `DeleteUser` reads and observes. -/
def deletionQuery (userId : String) : Query :=
  ⟨[byUserId userId eventTypeUserCreated, byUserId userId eventTypeUserDeleted]⟩

/-- What `ChangePassword` observes. -/
def passwordQuery (userId : String) : Query :=
  ⟨[[⟨"__eventType", eventTypeUserPasswordChanged⟩, ⟨"user_id", userId⟩]]⟩

inductive UserError where
  | invalidTag
  | userExists (username : String)
  | hash
  | ownAccount
  | alreadyDeleted
  | notFound
  | decode
  | invalidCurrentPassword
  | conflict
  | appendFailed
  deriving DecidableEq, Repr

/-- `bcrypt` takes no more than 72 bytes; `generate` is the hash it makes of others. -/
def hashPassword (generate : String → String) (password : String) : Option String :=
  if 72 < password.utf8ByteSize then none else some (generate password)

structure NewUser where
  name : String
  username : String
  roles : List Role
  deriving DecidableEq, Repr

/-- The events are the user's creation and deletion, so far as they were found. -/
def createUserCommandHandler (user : NewUser) (userId : String) (hash : Option String)
    (events : List Event) : Except UserError UserCreated :=
  if (events.any fun e => e.eventType == eventTypeUserCreated) &&
      !events.any fun e => e.eventType == eventTypeUserDeleted then
    .error (.userExists user.username)
  else
    match hash with
    | none => .error .hash
    | some hash => .ok ⟨user.name, userId, user.username, user.roles, hash⟩

/-- The position a deletion is appended at: that of the last event read, the oldest one. -/
def deletionPosition (events : Log) : Except UserError Position :=
  match events.getLast? with
  | none => .error .notFound
  | some oldest =>
    if events.any fun e => e.event.eventType == eventTypeUserDeleted then .error .alreadyDeleted
    else .ok oldest.position

structure PasswordReads where
  created : Log
  deleted : Log
  changed : Log
  deriving DecidableEq, Repr

def currentPasswordHash (reads : PasswordReads) : Except UserError String :=
  match reads.changed, reads.created with
  | e :: _, _ =>
    match e.event with
    | .userPasswordChanged _ hash => .ok hash
    | _ => .error .decode
  | [], e :: _ =>
    match e.event with
    | .userCreated data => .ok data.passwordHash
    | _ => .error .decode
  | [], [] => .error .notFound

/-- Where the password changes stand, or the creation where there is none. -/
def expectedPosition (reads : PasswordReads) (created : Entry Position Event) : Position :=
  match reads.changed with
  | e :: _ => e.position
  | [] => created.position

section Commands

-- `ComparePassword`: whether a hash is one of a password
variable (compare : String → String → Bool)

/-- What `ChangePassword` appends, and at which position. -/
def changePasswordDecision (currentPassword : String) (hash : Option String)
    (reads : PasswordReads) : Except UserError (String × Position) :=
  match reads.created, reads.deleted with
  | [], _ => .error .notFound
  | _, _ :: _ => .error .notFound
  | created :: _, [] =>
    match currentPasswordHash reads with
    | .error e => .error e
    | .ok current =>
      if compare current currentPassword then
        match hash with
        | none => .error .hash
        | some hash => .ok (hash, expectedPosition reads created)
      else .error .invalidCurrentPassword

inductive Handler where
  | creating (user : NewUser)
  | creatingOver (user : NewUser) (created : UserCreated)
  | decidingCreation (user : NewUser) (events : List Event)
  | appendingCreated (data : UserCreated)
  | deleting (userId : String)
  | appendingDeleted (userId : String) (position : Position)
  | changing (userId currentPassword : String)
  | changingReads (userId currentPassword : String) (created : Log) (deleted changed : Option Log)
  | appendingPassword (userId hash : String) (position : Position)
  | finished (result : Except UserError Unit)

/-- The first read refuses a tag whose value has a NUL byte, here and in the commands below. -/
def Handler.createUser (name username : String) (roles : List Role) : Handler :=
  if containsNul (trimSpace username) then .finished (.error .invalidTag)
  else .creating ⟨name, trimSpace username, roles⟩

def Handler.deleteUser (userId currentUserId : String) : Handler :=
  if trimSpace userId = trimSpace currentUserId then .finished (.error .ownAccount)
  else if containsNul (trimSpace userId) then .finished (.error .invalidTag)
  else .deleting (trimSpace userId)

def Handler.changePassword (userId currentPassword : String) : Handler :=
  if containsNul userId then .finished (.error .invalidTag) else .changing userId currentPassword

def Handler.read (log : Log) : Handler → Option Handler
  | .creating user => some <|
    match getEvents ⟨[createdByUsername user.username]⟩ 1 log with
    | [] => .decidingCreation user []
    | e :: _ =>
      match e.event with
      | .userCreated data => .creatingOver user data
      | _ => .finished (.error .decode)
  | .creatingOver user data => some <|
    .decidingCreation user
      (.userCreated data ::
        (getEvents ⟨[deletedByUserId data.userId]⟩ 1 log).map Entry.event)
  | .deleting userId => some <|
    match deletionPosition (getEvents (deletionQuery userId) 2 log) with
    | .error e => .finished (.error e)
    | .ok position => .appendingDeleted userId position
  | .changing userId currentPassword => some <|
    .changingReads userId currentPassword
      (getEvents ⟨[byUserId userId eventTypeUserCreated]⟩ 1 log) none none
  | _ => none

/-- The two concurrent reads of `ChangePassword`. -/
def Handler.readDeleted (log : Log) : Handler → Option Handler
  | .changingReads userId currentPassword created none changed => some <|
    .changingReads userId currentPassword created
      (some (getEvents ⟨[byUserId userId eventTypeUserDeleted]⟩ 1 log)) changed
  | _ => none

@[inherit_doc Handler.readDeleted]
def Handler.readChanged (log : Log) : Handler → Option Handler
  | .changingReads userId currentPassword created deleted none => some <|
    .changingReads userId currentPassword created deleted
      (some (getEvents ⟨[byUserId userId eventTypeUserPasswordChanged]⟩ 1 log))
  | _ => none

/-- The command decides, with an id and a hash of its own. -/
def Handler.decided (id : String) (hash : Option String) : Handler → Option Handler
  | .decidingCreation user events => some <|
    match createUserCommandHandler user id hash events with
    | .error e => .finished (.error e)
    | .ok data => .appendingCreated data
  | .changingReads userId currentPassword created (some deleted) (some changed) => some <|
    match changePasswordDecision compare currentPassword hash ⟨created, deleted, changed⟩ with
    | .error e => .finished (.error e)
    | .ok (hash, position) => .appendingPassword userId hash position
  | _ => none

/-- The event a command is about to append, with the observation it is appended under. -/
def Handler.pending (log : Log) : Handler → Option (Event × Bool)
  | .appendingCreated data =>
    some (.userCreated data,
      standsAt notExistsPosition (creationQuery data.username data.userId).selects log ==
        notExistsPosition)
  | .appendingDeleted userId position =>
    some (.userDeleted userId,
      standsAt notExistsPosition (deletionQuery userId).selects log == position)
  | .appendingPassword userId hash position =>
    some (.userPasswordChanged userId hash,
      standsAt notExistsPosition (passwordQuery userId).selects log == position)
  | _ => none

structure World where
  log : Log
  handlers : List Handler

inductive Action where
  | createUser (name username : String) (roles : List Role)
  | deleteUser (userId currentUserId : String)
  | changePassword (userId currentPassword : String)
  | read (i : ℕ)
  | readDeleted (i : ℕ)
  | readChanged (i : ℕ)
  | decide (i : ℕ) (id : String) (hash : Option String)
  | append (i : ℕ) (position : Position) (fault : Fault)
  | crash (i : ℕ)
  | other (position : Position) (eventType : String)

def nextPosition (log : Log) (position : Position) : Bool :=
  decide (notExistsPosition < position) && log.all fun e => decide (e.position < position)

def Handler.newId : Handler → Option String
  | .appendingCreated data => some data.userId
  | _ => none

/-- An id that no event has and that no other command is about to give away. -/
def World.freshId (w : World) (id : String) : Bool :=
  (w.log.all fun e => e.event.tag "user_id" != some id) &&
    w.handlers.all fun h => h.newId != some id

/-- The log after an append, and what the append returns. -/
def appendEvent (log : Log) (event : Event) (holds : Bool) (position : Position) :
    Fault → Log × Except UserError Unit
  | .lost => (log, .error .appendFailed)
  | .none => if holds then (log ++ [⟨position, event⟩], .ok ()) else (log, .error .conflict)
  | .unacknowledged =>
    if holds then (log ++ [⟨position, event⟩], .error .appendFailed) else (log, .error .conflict)

def World.setHandler (w : World) (i : ℕ) (h : Handler) : World :=
  { w with handlers := w.handlers.set i h }

def World.move (w : World) (i : ℕ) (f : Handler → Option Handler) : Option World := do
  let h ← w.handlers[i]?
  let h ← f h
  return w.setHandler i h

def World.step (w : World) : Action → Option World
  | .createUser name username roles =>
    some { w with handlers := w.handlers ++ [.createUser name username roles] }
  | .deleteUser userId currentUserId =>
    some { w with handlers := w.handlers ++ [.deleteUser userId currentUserId] }
  | .changePassword userId currentPassword =>
    some { w with handlers := w.handlers ++ [.changePassword userId currentPassword] }
  | .read i => w.move i (Handler.read w.log)
  | .readDeleted i => w.move i (Handler.readDeleted w.log)
  | .readChanged i => w.move i (Handler.readChanged w.log)
  | .decide i id hash => if w.freshId id then w.move i (Handler.decided compare id hash) else none
  | .append i position fault => do
    let h ← w.handlers[i]?
    let (event, holds) ← h.pending w.log
    if nextPosition w.log position then
      let (log, result) := appendEvent w.log event holds position fault
      return { log, handlers := w.handlers.set i (.finished result) }
    else none
  | .crash i => w.move i fun _ => some (.finished (.error .appendFailed))
  | .other position eventType =>
    if nextPosition w.log position && !Event.isUserType eventType then
      some { w with log := w.log ++ [⟨position, .other eventType⟩] }
    else none

end Commands

/-- Users are created once under a username and an id, and deleted once after that. -/
structure UniqueLifecycles (log : Log) : Prop where
  usernames : log.Pairwise fun e f => ∀ c d, e.event = .userCreated c → f.event = .userCreated d →
    trimSpace c.username ≠ trimSpace d.username
  ids : log.Pairwise fun e f => ∀ c d, e.event = .userCreated c → f.event = .userCreated d →
    c.userId ≠ d.userId
  deletedOnce : log.Pairwise fun e f => ∀ u v, e.event = .userDeleted u →
    f.event = .userDeleted v → u ≠ v
  createdBefore : ∀ before e after, log = before ++ e :: after → ∀ u, e.event = .userDeleted u →
    ∃ f ∈ before, ∃ c, f.event = .userCreated c ∧ c.userId = u

def Event.deletes (userId : String) (e : Event) : Bool :=
  e.tag "user_id" == some userId && e.eventType == eventTypeUserDeleted

def Event.changesPassword (userId : String) (e : Event) : Bool :=
  e.tag "user_id" == some userId && e.eventType == eventTypeUserPasswordChanged

/-- A password change of the user that has found no deletion. -/
def Handler.pastDeletionCheck (userId : String) : Handler → Bool
  | .changingReads u _ _ (some deleted) _ => u == userId && deleted.isEmpty
  | .appendingPassword u _ _ => u == userId
  | _ => false

/-- The user is deleted only while its password was never changed, or while no change of it is
between its look for a deletion and its end. -/
def World.Orderly (userId : String) (w : World) (a : Action) : Prop :=
  ∀ i position fault, a = .append i position fault →
    ∀ p, w.handlers[i]? = some (.appendingDeleted userId p) →
      (∀ e ∈ w.log, e.event.changesPassword userId = false) ∨
        ∀ h ∈ w.handlers, h.pastDeletionCheck userId = false

end Orisun.Admin.Users
