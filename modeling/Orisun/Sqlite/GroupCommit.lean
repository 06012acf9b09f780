import Mathlib.Algebra.Order.Ring.Int
import Orisun.Sqlite.Consistency

/-!
# Group commit on the single writer connection

`executeTransaction` runs the queued saves of one flush inside one immediate transaction. The next
position is carried in a variable and written back at the end; every save inserts inside a
savepoint, so what fails leaves the tables as they were. An event batch is inserted in chunks of as
many rows as a statement may have parameters.
-/

namespace Orisun.Sqlite

def maxInt64 : ℤ := 2 ^ 63 - 1

def sqliteMaxEventsPerInsert : ℕ := 999

/-- What the tables accept: a document under the checks, generated columns and index expressions
of the event table, and a context under the check of the write table. -/
structure Schema where
  fns : JsonFunctions
  rowOk : Json → Bool
  consistencyOk : List Observation → Bool

/-- An event's parsed document, `none` where it is not an object, and its metadata, `none` where
it does not encode. -/
structure PreparedEventDocument where
  eventId : String
  eventType : String
  metadata : Option Json
  object : Option (List (String × Json))

inductive ContextError where
  | canceled
  | deadlineExceeded
  deriving DecidableEq, Repr

/-- A queued save. `ctxErr` is its context's error at its turn and `now` the clock then. -/
structure PreparedSave where
  ctxErr : Option ContextError
  now : String
  inserts : List PreparedEventDocument
  consistency : List Observation
  preparedChecks : List PreparedConsistencyCheck

structure Tables where
  events : List EventRow
  writes : List WriteRow

structure Database where
  tables : Tables
  nextId : ℤ

inductive SaveError where
  | context (e : ContextError)
  | invalidCriteria (e : CriteriaError)
  | check (e : JsonPath.PathError)
  | conflict (expected actual : Position)
  | exhausted
  | writeContext
  | insertEvents
  | invalidSequence (nextId : ℤ)
  deriving DecidableEq, Repr

def positionedDocument (event : PreparedEventDocument) (gid transactionId : ℤ) (now : String) :
    Option Json := do
  let object ← event.object
  let metadata ← event.metadata
  return .object (Fields.concat object
    [("__commitPosition", .number (toString transactionId)),
     ("__dateCreated", .string now),
     ("__writeId", .string (writeIdText transactionId transactionId)),
     ("__eventId", .string event.eventId),
     ("__eventType", .string event.eventType),
     ("__metadata", metadata),
     ("__preparePosition", .number (toString gid))])

def positionedRow (event : PreparedEventDocument) (gid transactionId : ℤ) (now : String) :
    Option EventRow :=
  (positionedDocument event gid transactionId now).map fun data =>
    ⟨transactionId, gid, transactionId, data⟩

/-- The rows of events that follow `start` others of their save, if all their documents encode. -/
def positionedRows (firstId transactionId : ℤ) (now : String) (start : ℕ)
    (events : List PreparedEventDocument) : Option (List EventRow) :=
  (events.zipIdx start).mapM fun e => positionedRow e.1 (firstId + e.2) transactionId now

def Tables.Takes (sch : Schema) (t : Tables) (rows : List EventRow) : Prop :=
  (∀ row ∈ rows, sch.rowOk row.data) ∧ (rows.map EventRow.globalId).Nodup ∧
    ∀ row ∈ rows, row.globalId ∉ t.events.map EventRow.globalId

instance (sch : Schema) (t : Tables) (rows : List EventRow) : Decidable (t.Takes sch rows) :=
  inferInstanceAs (Decidable ((∀ row ∈ rows, _) ∧ _ ∧ ∀ row ∈ rows, _))

/-- One `INSERT`, which adds all rows or none. -/
def insertRows (sch : Schema) (t : Tables) (rows : List EventRow) :
    Tables × Except SaveError Unit :=
  if t.Takes sch rows then ({ t with events := t.events ++ rows }, .ok ())
  else (t, .error .insertEvents)

def insertChunk (sch : Schema) (firstId transactionId : ℤ) (now : String) (t : Tables)
    (start : ℕ) (chunk : List PreparedEventDocument) : Tables × Except SaveError Unit :=
  match positionedRows firstId transactionId now start chunk with
  | none => (t, .error .insertEvents)
  | some rows => insertRows sch t rows

/-- The loop over the chunks from `start` on, for at most `fuel` of them. -/
def insertChunks (sch : Schema) (events : List PreparedEventDocument) (firstId transactionId : ℤ)
    (now : String) : ℕ → ℕ → Tables → Tables × Except SaveError Unit
  | 0, _, t => (t, .ok ())
  | fuel + 1, start, t =>
    if start < events.length then
      match insertChunk sch firstId transactionId now t start
          ((events.drop start).take sqliteMaxEventsPerInsert) with
      | (t, .ok ()) =>
        insertChunks sch events firstId transactionId now fuel
          (start + sqliteMaxEventsPerInsert) t
      | (t, .error e) => (t, .error e)
    else (t, .ok ())

def insertEventBatch (sch : Schema) (events : List PreparedEventDocument)
    (firstId transactionId : ℤ) (now : String) (t : Tables) : Tables × Except SaveError Unit :=
  insertChunks sch events firstId transactionId now events.length 0 t

def insertWriteContext (sch : Schema) (t : Tables) (id : ℤ) (consistency : List Observation) :
    Tables × Except SaveError Unit :=
  if sch.consistencyOk consistency ∧ id ∉ t.writes.map WriteRow.writeId
  then ({ t with writes := t.writes ++ [⟨id, consistency⟩] }, .ok ())
  else (t, .error .writeContext)

def saveEventsOnConn (sch : Schema) (t : Tables) (req : PreparedSave) (firstId : ℤ) :
    Tables × Except SaveError Position :=
  if req.inserts.length = 0 ∨ (req.inserts.length : ℤ) > maxInt64 - firstId
  then (t, .error .exhausted)
  else
    let lastId := firstId + req.inserts.length - 1
    match insertWriteContext sch t lastId req.consistency with
    | (t, .error e) => (t, .error e)
    | (t, .ok ()) =>
      match insertEventBatch sch req.inserts firstId lastId req.now t with
      | (t, .error e) => (t, .error e)
      | (t, .ok ()) => (t, .ok ⟨lastId, lastId⟩)

/-- `SAVEPOINT`: an error rolls the tables back to where the savepoint was set. -/
def savepoint {α : Type} (t : Tables) (body : Tables → Tables × Except SaveError α) :
    Tables × Except SaveError α :=
  match body t with
  | (t', .ok a) => (t', .ok a)
  | (_, .error e) => (t, .error e)

def checkError (fns : JsonFunctions) (events : List EventRow) :
    List PreparedConsistencyCheck → Option SaveError
  | [] => none
  | check :: checks =>
    match check.queries with
    | .error e => some (.invalidCriteria e)
    | .ok queries =>
      match latestPreparedCriteriaPosition fns events queries with
      | .error e => some (.check e)
      | .ok latest =>
        if latest.commitPosition ≠ check.position.commitPosition ∨
            latest.preparePosition ≠ check.position.preparePosition
        then some (.conflict check.position latest)
        else checkError fns events checks

def saveSavepointed (sch : Schema) (t : Tables) (req : PreparedSave) (firstId : ℤ) :
    Tables × Except SaveError Position :=
  match checkError sch.fns t.events req.preparedChecks with
  | some e => (t, .error e)
  | none => savepoint t fun t => saveEventsOnConn sch t req firstId

structure Flush where
  tables : Tables
  nextId : ℤ
  outcomes : List (Except SaveError Position)
  accepted : ℕ

def runSave (sch : Schema) (f : Flush) (req : PreparedSave) : Flush :=
  match req.ctxErr with
  | some e => { f with outcomes := f.outcomes ++ [.error (.context e)] }
  | none =>
    match saveSavepointed sch f.tables req f.nextId with
    | (t, .error e) => { f with tables := t, outcomes := f.outcomes ++ [.error e] }
    | (t, .ok p) => ⟨t, p.preparePosition + 1, f.outcomes ++ [.ok p], f.accepted + 1⟩

/-- One flush: the outcomes of its saves, or the error that rolls all of it back. -/
def executeTransaction (sch : Schema) (db : Database) (live : List PreparedSave) :
    Database × Except SaveError (List (Except SaveError Position)) :=
  if db.nextId < 1 then (db, .error (.invalidSequence db.nextId))
  else
    let f := live.foldl (runSave sch) ⟨db.tables, db.nextId, [], 0⟩
    (⟨f.tables, if f.accepted > 0 then f.nextId else db.nextId⟩, .ok f.outcomes)

/-- What each save of a flush is answered; an error of the flush is everyone's. -/
def flush (sch : Schema) (db : Database) (live : List PreparedSave) :
    Database × List (Except SaveError Position) :=
  match executeTransaction sch db live with
  | (db, .ok outcomes) => (db, outcomes)
  | (db, .error e) => (db, live.map fun _ => .error e)

def runFlushes (sch : Schema) :
    Database → List (List PreparedSave) → Database × List (Except SaveError Position)
  | db, [] => (db, [])
  | db, live :: rest =>
    let r := flush sch db live
    let s := runFlushes sch r.1 rest
    (s.1, r.2 ++ s.2)

end Orisun.Sqlite
