import Mathlib.Data.List.Perm.Basic
import Orisun.Admin.Users

/-!
# Sessions

A login issues a token that stays valid for some time after each use. The table of sessions is a map
from tokens, which is ranged over in any order. What has happened to the tokens is recorded, from the
latest on, to say which of them are live.
-/

namespace Orisun.Admin.Sessions

open Orisun.Admin.Users

structure Session where
  token : String
  user : User
  expiresAt : ℤ
  deriving DecidableEq, Repr

structure SessionTable where
  all : List Session
  nodup : (all.map Session.token).Nodup

namespace SessionTable

def empty : SessionTable := ⟨[], List.nodup_nil⟩

def get (s : SessionTable) (token : String) : Option Session :=
  s.all.find? fun x => decide (x.token = token)

def keep (s : SessionTable) (p : Session → Bool) : SessionTable :=
  ⟨s.all.filter p, s.nodup.sublist (List.filter_sublist.map _)⟩

def delete (s : SessionTable) (token : String) : SessionTable :=
  s.keep fun x => decide (x.token ≠ token)

theorem nodup_put (s : SessionTable) (x : Session) :
    (((s.delete x.token).all ++ [x]).map Session.token).Nodup := by
  rw [List.map_append, List.nodup_append]
  refine ⟨(s.delete x.token).nodup, by simp, ?_⟩
  intro a ha b hb
  obtain ⟨y, hy, rfl⟩ := List.mem_map.1 ha
  obtain rfl : b = x.token := by simpa using hb
  simpa [delete, keep] using (List.mem_filter.1 hy).2

def put (s : SessionTable) (x : Session) : SessionTable :=
  ⟨(s.delete x.token).all ++ [x], s.nodup_put x⟩

end SessionTable

structure Iteration where
  order : List Session → List Session
  perm : ∀ l, (order l).Perm l

def deleteExpiredSessions (s : SessionTable) (now : ℤ) : SessionTable :=
  s.keep fun x => decide (now < x.expiresAt)

/-- How many sessions of a user a scan has met, and the one of them that expires first. -/
structure Oldest where
  count : ℕ
  token : String
  expiry : ℤ

def Oldest.scan (userId : String) (o : Oldest) (x : Session) : Oldest :=
  if x.user.id ≠ userId then o
  else if o.token = "" ∨ x.expiresAt < o.expiry then ⟨o.count + 1, x.token, x.expiresAt⟩
  else ⟨o.count + 1, o.token, o.expiry⟩

def oldest (userId : String) (l : List Session) : Oldest := l.foldl (Oldest.scan userId) ⟨0, "", 0⟩

/-- The rounds of `enforceUserSessionLimitLocked`. -/
def evict (maxUserSessions : ℤ) (userId : String) (order : ℕ → Iteration) :
    ℕ → SessionTable → SessionTable
  | 0, s => s
  | rounds + 1, s =>
    let o := oldest userId ((order rounds).order s.all)
    if (o.count : ℤ) < maxUserSessions then s
    else evict maxUserSessions userId order rounds (s.delete o.token)

/-- Each round deletes a session, so that there are at most as many as sessions. -/
def enforceUserSessionLimit (maxUserSessions : ℤ) (userId : String) (order : ℕ → Iteration)
    (s : SessionTable) : SessionTable :=
  if maxUserSessions ≤ 0 then s
  else evict maxUserSessions userId order (s.all.length + 1) s

def revokeUserSessions (s : SessionTable) (userId : String) : SessionTable :=
  s.keep fun x => decide (x.user.id ≠ userId)

/-- The table after a token was presented, and the user it is of. -/
def validateToken (sessionTTL : ℤ) (s : SessionTable) (token : String) (now : ℤ) :
    SessionTable × Option User :=
  match s.get token with
  | none => (s.delete token, none)
  | some x =>
    if now < x.expiresAt then (s.put { x with expiresAt := now + sessionTTL }, some x.user)
    else (s.delete token, none)

inductive Happening where
  | issued (token : String) (user : User) (at_ : ℤ)
  | evicted (token : String)
  | revoked (userId : String)
  | presented (token : String) (at_ : ℤ)
  deriving DecidableEq, Repr

def Happening.presentedAt (token : String) : Happening → Option ℤ
  | presented t now => if t = token then some now else none
  | _ => none

def Happening.issues (token : String) : Happening → Bool
  | issued t _ _ => t == token
  | _ => false

/-- A token of a user is live: it was issued, and since then it was not evicted, the user's sessions
were not revoked, and it was never left unused for the whole time to live. -/
def LiveAs (sessionTTL : ℤ) (history : List Happening) (token : String) (user : User) (now : ℤ) :
    Prop :=
  ∃ after issuedAt before, history = after ++ .issued token user issuedAt :: before ∧
    .evicted token ∉ after ∧ .revoked user.id ∉ after ∧
    List.IsChain (fun next last => next < last + sessionTTL)
      (now :: (after.filterMap (Happening.presentedAt token) ++ [issuedAt]))

structure Authenticator where
  sessions : SessionTable
  clock : ℤ
  history : List Happening

inductive Action where
  | login (user : User) (token : String) (now : ℤ) (order : ℕ → Iteration)
  | validateToken (token : String) (now : ℤ)
  | revokeUserSessions (userId : String)

namespace Authenticator

-- `sessionTTL` and `maxUserSessions` of the authenticator
variable (sessionTTL maxUserSessions : ℤ)

def initial (clock : ℤ) : Authenticator := ⟨.empty, clock, []⟩

def kept (a : Authenticator) (user : User) (now : ℤ) (order : ℕ → Iteration) : SessionTable :=
  enforceUserSessionLimit maxUserSessions user.id order (deleteExpiredSessions a.sessions now)

def evictions (a : Authenticator) (user : User) (now : ℤ) (order : ℕ → Iteration) : List Session :=
  (deleteExpiredSessions a.sessions now).all.filter fun x =>
    decide (x ∉ (a.kept maxUserSessions user now order).all)

def login (a : Authenticator) (user : User) (token : String) (now : ℤ) (order : ℕ → Iteration) :
    Authenticator where
  sessions := (a.kept maxUserSessions user now order).put ⟨token, user, now + sessionTTL⟩
  clock := now
  history :=
    .issued token user now ::
      ((a.evictions maxUserSessions user now order).map fun x => .evicted x.token) ++ a.history

/-- Tokens are uuids that no login issued before, and the clock does not go back. -/
def step (a : Authenticator) : Action → Option Authenticator
  | .login user token now order =>
    if a.clock ≤ now ∧ token ≠ "" ∧ ¬a.history.any (Happening.issues token) then
      some (a.login sessionTTL maxUserSessions user token now order)
    else none
  | .validateToken token now =>
    if a.clock ≤ now then
      some ⟨(Sessions.validateToken sessionTTL a.sessions token now).1, now,
        .presented token now :: a.history⟩
    else none
  | .revokeUserSessions userId =>
    some ⟨Sessions.revokeUserSessions a.sessions userId, a.clock, .revoked userId :: a.history⟩

end Authenticator

end Orisun.Admin.Sessions
