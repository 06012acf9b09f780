import Orisun.Admin.UserProjection

/-!
# The cache of users over PostgreSQL

`PostgresAdminDB` keeps the users it has seen under their usernames, and looks there before it asks
the table. A row holds what its columns make of the values they are given.
-/

namespace Orisun.Postgres

open Orisun.Admin.Users

/-- The row of a user, `none` where a column refuses its value. -/
def storedUser (user : User) : Option User := Columns.postgres.row user

structure PostgresAdminDB where
  users : Table
  userCache : String → Option User

inductive AdminDBError where
  | statement
  | userNotFound
  deriving DecidableEq, Repr

namespace PostgresAdminDB

def upsertUser (s : PostgresAdminDB) (user : User) : PostgresAdminDB × Except AdminDBError Unit :=
  match (storedUser user).bind s.users.upsert with
  | none => (s, .error .statement)
  | some users => (⟨users, Function.update s.userCache user.username (some user)⟩, .ok ())

def deleteUser (s : PostgresAdminDB) (id : String) : PostgresAdminDB × Except AdminDBError Unit :=
  match uuidIn id with
  | none => (s, .error .statement)
  | some id => ({ s with users := s.users.delete id }, .ok ())

def getUserByUsername (s : PostgresAdminDB) (username : String) :
    PostgresAdminDB × Except AdminDBError User :=
  match s.userCache username with
  | some user => (s, .ok user)
  | none =>
    match text username with
    | none => (s, .error .statement)
    | some username =>
      match s.users.getByUsername username with
      | none => (s, .error .userNotFound)
      | some row =>
        if row.id = "" then (s, .error .userNotFound)
        else ({ s with userCache := Function.update s.userCache username (some row) }, .ok row)

inductive Call where
  | upsertUser (user : User)
  | deleteUser (id : String)
  | getUserByUsername (username : String)

def call (s : PostgresAdminDB) : Call → PostgresAdminDB
  | .upsertUser user => (s.upsertUser user).1
  | .deleteUser id => (s.deleteUser id).1
  | .getUserByUsername username => (s.getUserByUsername username).1

/-- A user is stored as it is given and, like one that is deleted, has no row that is cached under a
username the table no longer has. -/
def Careful (s : PostgresAdminDB) : Call → Prop
  | .upsertUser user => ∀ row, storedUser user = some row → row = user ∧
    ∀ r ∈ s.users, r.id = user.id → r.username ≠ user.username → s.userCache r.username = none
  | .deleteUser id => ∀ r ∈ s.users, uuidIn id = some r.id → s.userCache r.username = none
  | .getUserByUsername _ => True

end PostgresAdminDB

end Orisun.Postgres
