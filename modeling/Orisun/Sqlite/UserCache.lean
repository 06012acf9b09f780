import Orisun.Admin.Users

/-!
# The cache of users over SQLite

A lookup tries the cache, reads the table and fills the cache, in three steps. A change of a user
holds the only write connection from its statement to its reset of the cache. The versions the table
has had, and when a change returned, are recorded to say what a lookup may return.
-/

namespace Orisun.Sqlite.UserCache

open Orisun.Admin.Users

/-- A lookup: about to read the table, about to fill the cache with the row it read, or at its end.
The versions are those at which each user's last change had returned when the lookup started. -/
inductive Lookup where
  | selecting (username : String) (since : String → ℕ)
  | filling (username : String) (row : User) (since : String → ℕ)
  | returned (result : Option User) (since : String → ℕ)

inductive Write where
  | upserted (user : User)
  | deleted (id : String)

def Write.id : Write → String
  | upserted user => user.id
  | deleted id => id

structure SqliteAdminDB where
  past : List Table
  users : Table
  userCache : String → Option User
  writer : Option Write
  lookups : List Lookup
  changed : String → ℕ

namespace SqliteAdminDB

def initial (users : Table) : SqliteAdminDB := ⟨[], users, fun _ => none, none, [], fun _ => 0⟩

def versions (s : SqliteAdminDB) : List Table := s.past ++ [s.users]

def version (s : SqliteAdminDB) : ℕ := s.past.length

inductive Action where
  | upsertUser (user : User)
  | deleteUser (id : String)
  | resetCache
  | getUserByUsername (username : String)
  | select (i : ℕ)
  | fill (i : ℕ)

/-- The statement of a change, which takes the write connection. -/
def write (s : SqliteAdminDB) (users : Table) (w : Write) : SqliteAdminDB :=
  { s with past := s.past ++ [s.users], users, writer := some w }

/-- A change of a user returns at the version the table has. -/
def settled (s : SqliteAdminDB) (id : String) : SqliteAdminDB :=
  { s with changed := Function.update s.changed id s.version }

def Write.cache : Write → String → Option User
  | .upserted user => Function.update (fun _ => none) user.username (some user)
  | .deleted _ => fun _ => none

def step (s : SqliteAdminDB) : Action → Option SqliteAdminDB
  | .upsertUser user =>
    match s.writer with
    | some _ => none
    | none =>
      match s.users.upsert user with
      | none => some (s.settled user.id)
      | some users => some (s.write users (.upserted user))
  | .deleteUser id =>
    match s.writer with
    | some _ => none
    | none => some (s.write (s.users.delete id) (.deleted id))
  | .resetCache =>
    s.writer.map fun w => { s.settled w.id with userCache := Write.cache w, writer := none }
  | .getUserByUsername username =>
    let lookup :=
      match s.userCache username with
      | some user => .returned (some user) s.changed
      | none => .selecting username s.changed
    some { s with lookups := s.lookups ++ [lookup] }
  | .select i =>
    match s.lookups[i]? with
    | some (.selecting username since) =>
      let lookup :=
        match s.users.getByUsername username with
        | some row => .filling username row since
        | none => .returned none since
      some { s with lookups := s.lookups.set i lookup }
    | _ => none
  | .fill i =>
    match s.lookups[i]? with
    | some (.filling username row since) =>
      some { s with
        userCache := Function.update s.userCache username (some row)
        lookups := s.lookups.set i (.returned (some row) since) }
    | _ => none

/-- A row the table has, or had before a change that will yet reset the cache. -/
def Tracked (s : SqliteAdminDB) (row : User) : Prop :=
  row ∈ s.users ∨ s.writer.isSome ∧ ∃ users, s.past.getLast? = some users ∧ row ∈ users

/-- The cache is not filled with a row that was changed since it was read. -/
def FillsTracked (s : SqliteAdminDB) (a : Action) : Prop :=
  ∀ i, a = .fill i → ∀ username row since, s.lookups[i]? = some (.filling username row since) →
    s.Tracked row

/-- A row that the table has had at some version from `since` on. -/
def HadSince (s : SqliteAdminDB) (row : User) (since : String → ℕ) : Prop :=
  ∃ k users, since row.id ≤ k ∧ s.versions[k]? = some users ∧ row ∈ users

end SqliteAdminDB

end Orisun.Sqlite.UserCache
