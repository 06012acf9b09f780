import Orisun.Clients
import Orisun.Sqlite.GetLatest
import Orisun.Sqlite.Serial

/-!
# SQLite as a backend

A batch is one flush on the writer's connection. A transaction that is rolled back leaves nothing.
-/

namespace Orisun.Sqlite

/-- The events of a save, its context's error at its turn and the clock then. -/
structure Payload where
  ctxErr : Option ContextError
  now : String
  inserts : List PreparedEventDocument

def saveAnswer : Except SaveError Position → Answer
  | .ok p => .accepted p
  | .error (.conflict _ _) => .conflict
  | .error _ => .failed

def EventRow.event (row : EventRow) : Event := ⟨row.position, row.data⟩

def Database.events (db : Database) : List Event := db.tables.events.map EventRow.event

def backend (sch : Schema) : Backend where
  State := Database
  events := Database.events
  getLatestByCriteria db criteria :=
    (getLatestByCriteria sch.fns db.tables criteria).toOption.map
      LatestByCriteriaBatch.contextPosition
  Payload := Payload
  Save := Save
  prepare checks payload := (marshalConsistency checks).toOption.map fun _ =>
    ⟨payload.ctxErr, payload.now, payload.inserts, checks⟩
  Env := Unit
  execute _ db saves :=
    match executeTransaction sch db (saves.map prepareSQLiteSave) with
    | (db, .ok outcomes) => some (db, outcomes.map saveAnswer)
    | (_, .error _) => none
  rollback _ db := db

end Orisun.Sqlite
