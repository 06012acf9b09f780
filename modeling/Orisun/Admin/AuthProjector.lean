import Orisun.Admin.Sessions
import Orisun.Admin.UserProjection
import Orisun.Delivery

/-!
# The auth projector

The sessions of a user are revoked by the calls that delete it or change its password, and by a
projector of every process that follows the admin log. Logins look a user up in the table that
another projector writes, and insert their session later. The auth projector's subscription has no
start position, and one that fails is followed by a new one.
-/

namespace Orisun.Admin.Sessions

open Orisun.Admin.Users

def authHandleEvent : Users.Event → Except ProjectionError (Option String)
  | .userPasswordChanged userId _ | .userDeleted userId | .rolesChanged userId =>
    .ok (Users.Event.omitEmpty userId)
  | .undecodable eventType userId =>
    if eventType = eventTypeUserPasswordChanged ∨ eventType = eventTypeUserDeleted then
      .error .decode
    else if eventType = eventTypeRolesChanged then .ok (Users.Event.omitEmpty userId)
    else .ok none
  | .userCreated _ | .other _ => .ok none

def Secures (userId : String) (e : Users.Event) : Prop :=
  e = .userDeleted userId ∨ ∃ hash, e = .userPasswordChanged userId hash

/-- The table after some events. -/
def tableAfter (events : List Users.Event) : Except ProjectionError Table :=
  events.foldlM handleEvent []

/-- A login: about to look the user up, or with the row it has verified. `reflects` is the number of
events the table reflected when the row was read. -/
inductive Login where
  | started (username password : String)
  | verified (user : User) (reflects : ℕ)
  | finished

structure Process where
  log : List Users.Event
  users : Table
  userHandled : ℕ
  authHandled : ℕ
  sessions : SessionTable
  reflects : String → ℕ
  logins : List Login
  revocations : List String

namespace Process

inductive Action where
  | append (event : Users.Event)
  | deleteUser (userId : String)
  | changePassword (userId hash : String)
  | revoke (i : ℕ)
  | login (username password : String)
  | verify (i : ℕ)
  | insert (i : ℕ) (token : String) (now : ℤ) (order : ℕ → Iteration)
  | validateToken (token : String) (now : ℤ)
  | projectUser
  | projectAuth

/-- A process starts without sessions, with each projector somewhere in the log. The table of users
is shared by all processes. -/
def initial (log : List Users.Event) (users : Table) (userHandled authHandled : ℕ) : Process :=
  ⟨log, users, userHandled, authHandled, .empty, fun _ => 0, [], []⟩

-- `ComparePassword`, `sessionTTL` and `maxUserSessions`
variable (compare : String → String → Bool) (sessionTTL maxUserSessions : ℤ)

def verify (s : Process) (username password : String) : Login :=
  match s.users.getByUsername username with
  | none => .finished
  | some user =>
    if compare user.hashedPassword password then .verified user s.userHandled else .finished

def step (s : Process) : Action → Option Process
  | .append event => some { s with log := s.log ++ [event] }
  | .deleteUser userId =>
    some { s with log := s.log ++ [.userDeleted userId], revocations := s.revocations ++ [userId] }
  | .changePassword userId hash =>
    some { s with
      log := s.log ++ [.userPasswordChanged userId hash]
      revocations := s.revocations ++ [userId] }
  | .revoke i =>
    (s.revocations[i]?).map fun userId =>
      { s with
        sessions := revokeUserSessions s.sessions userId
        revocations := s.revocations.eraseIdx i }
  | .login username password => some { s with logins := s.logins ++ [.started username password] }
  | .verify i =>
    match s.logins[i]? with
    | some (.started username password) =>
      some { s with logins := s.logins.set i (s.verify compare username password) }
    | _ => none
  | .insert i token now order =>
    match s.logins[i]? with
    | some (.verified user reflects) =>
      some { s with
        sessions := (enforceUserSessionLimit maxUserSessions user.id order
          (deleteExpiredSessions s.sessions now)).put ⟨token, user, now + sessionTTL⟩
        reflects := Function.update s.reflects token reflects
        logins := s.logins.set i .finished }
    | _ => none
  | .validateToken token now =>
    some { s with sessions := (Sessions.validateToken sessionTTL s.sessions token now).1 }
  | .projectUser =>
    match s.log[s.userHandled]? with
    | none => none
    | some e =>
      match handleEvent s.users e with
      | .error _ => none
      | .ok users => some { s with users, userHandled := s.userHandled + 1 }
  | .projectAuth =>
    match s.log[s.authHandled]? with
    | none => none
    | some e =>
      match authHandleEvent e with
      | .error _ => none
      | .ok none => some { s with authHandled := s.authHandled + 1 }
      | .ok (some userId) =>
        some { s with
          sessions := revokeUserSessions s.sessions userId
          authHandled := s.authHandled + 1 }

/-- No event from `reflects` on that the auth projector has handled revokes the user's sessions. -/
def Current (s : Process) (userId : String) (reflects : ℕ) : Prop :=
  ∀ k e, reflects ≤ k → k < s.authHandled → s.log[k]? = some e →
    authHandleEvent e ≠ .ok (some userId)

/-- A session is inserted only for a row that reflects what the auth projector has revoked the
user's sessions for. -/
def InsertsCurrent (s : Process) (a : Action) : Prop :=
  ∀ i token now order, a = .insert i token now order →
    ∀ user reflects, s.logins[i]? = some (.verified user reflects) → s.Current user.id reflects

end Process

/-- The auth projector's current subscription, and the events the ones before it handled. -/
structure AuthUserProjector where
  delivery : Delivery
  handled : List Orisun.Event

namespace AuthUserProjector

inductive Action where
  | append (event : Orisun.Event)
  | wake
  | read (snapshot : ℕ)
  | reader (action : ReaderAction)
  | restart

def initial : AuthUserProjector := ⟨.initial none, []⟩

def matchAll (_ : Orisun.Event) : Bool := true

/-- A subscription that has ended is followed by a new one. -/
def restart (s : AuthUserProjector) : Option AuthUserProjector :=
  match s.delivery.reader.state with
  | .stopped _ => some
      ⟨{ s.delivery with origin := none, reader := .initial none },
        s.handled ++ s.delivery.reader.delivered⟩
  | _ => none

def lift (s : AuthUserProjector) (a : DeliveryAction) : Option AuthUserProjector :=
  (s.delivery.step matchAll a).map fun delivery => { s with delivery }

def step (s : AuthUserProjector) : Action → Option AuthUserProjector
  | .append event => s.lift (.append event)
  | .wake => s.lift .wake
  | .read snapshot => s.lift (.read snapshot)
  | .reader action => s.lift (.reader action)
  | .restart => s.restart

/-- The calls of `RevokeUserSessions`, each with the event it was made for, where events have the
data `decode` makes of them. -/
def revocations (decode : Orisun.Event → Users.Event) (s : AuthUserProjector) :
    List (Orisun.Event × String) :=
  (s.handled ++ s.delivery.reader.delivered).filterMap fun e =>
    match authHandleEvent (decode e) with
    | .ok userId => userId.map (e, ·)
    | .error _ => none

/-- A subscription that has read is followed by another only when its cursor is past the security
events it is for; and no such event is appended before the new one's first read. -/
def EndsDrained (decode : Orisun.Event → Users.Event) (s : AuthUserProjector) : Action → Prop
  | .restart => ∀ first n, s.delivery.firstRead = some first → s.delivery.origin = some n →
      ∀ i e, first ≤ i → n ≤ i + 1 → s.delivery.log[i]? = some e →
        ∀ userId, Secures userId (decode e) →
          ∃ c, s.delivery.reader.drain.cursor = some c ∧ e.position ≤ c
  | .append event => s.delivery.firstRead.isSome → s.delivery.origin = none →
      ∀ userId, ¬Secures userId (decode event)
  | _ => True

end AuthUserProjector

end Orisun.Admin.Sessions
