import Orisun.Meaning
import Orisun.Sqlite.GroupCommit

/-!
# Saving one request at a time

What a flush stands for. A save is accepted when it is not cancelled, every query it observed can
be evaluated and still stands where it was observed, its positions fit and its rows meet the tables' constraints; its rows
are then added at the next positions. Otherwise nothing changes.
-/

namespace Orisun.Sqlite

/-- The field compares with the value: as text, or by order with a value of its own type. -/
def tagHolds (fns : JsonFunctions) (op : TagOperator) (key value : String) (data : Json) : Bool :=
  let ordered (op : OrderOperator) : Bool :=
    match fns.member data key with
    | some (.string _) => (scalarText fns data key).any fun s => op.holds (compareText s value)
    | some (.number token) => (compareJSONNumbers token value).any op.holds
    | _ => false
  match op with
  | .eq => scalarText fns data key == some value
  | .ne => (scalarText fns data key).any (· != value)
  | .gt => ordered .gt
  | .gte => ordered .gte
  | .lt => ordered .lt
  | .lte => ordered .lte

/-- The criteria of a query that have tags; a query with none of them is about every event. -/
def tagged (criteria : List ReadCriterion) : List ReadCriterion :=
  criteria.filter fun c => c.tags ≠ []

def queryHolds (fns : JsonFunctions) (criteria : List ReadCriterion) (data : Json) : Bool :=
  (tagged criteria).isEmpty ||
    (tagged criteria).any fun c => Meaning.tags (tagHolds fns) c.tags data

def Tables.latest (fns : JsonFunctions) (t : Tables) (criteria : List ReadCriterion) : Position :=
  latestPosition ((t.events.filter fun row => queryHolds fns criteria row.data).map
    EventRow.position)

/-- Every event is above the position of a query without matches. -/
def Placed (events : List EventRow) : Prop := ∀ row ∈ events, notExistsPosition < row.position

/-- Every tag has a supported operator and a value SQL can hold. -/
def Renderable (criteria : List ReadCriterion) : Prop :=
  ∀ c ∈ criteria, ∀ tag ∈ c.tags,
    (canonicalTagOperator tag.operator).isSome ∧ containsNul tag.value = false

instance (criteria : List ReadCriterion) : Decidable (Renderable criteria) :=
  inferInstanceAs (Decidable (∀ c ∈ criteria, ∀ tag ∈ c.tags, _))

/-- No lookup of the query's check fails on the stored documents. -/
def Tables.evaluates (fns : JsonFunctions) (t : Tables) (criteria : List ReadCriterion) : Bool :=
  match latestCriteriaQueries criteria with
  | .ok queries => queries.all fun parts => !fns.fails (documents t.events) [parts]
  | .error _ => true

structure Save where
  ctxErr : Option ContextError
  now : String
  inserts : List PreparedEventDocument
  checks : List ConsistencyCheck

def prepareSQLiteSave (s : Save) : PreparedSave :=
  ⟨s.ctxErr, s.now, s.inserts, s.checks.map storedObservation, prepareConsistencyChecks s.checks⟩

def Database.lastId (db : Database) (s : Save) : ℤ := db.nextId + s.inserts.length - 1

def Database.Unchanged (fns : JsonFunctions) (db : Database) (s : Save) : Prop :=
  ∀ check ∈ s.checks, Renderable check.criteria ∧ db.tables.evaluates fns check.criteria ∧
    db.tables.latest fns check.criteria = check.position

instance (fns : JsonFunctions) (db : Database) (s : Save) : Decidable (db.Unchanged fns s) :=
  inferInstanceAs (Decidable (∀ check ∈ s.checks, _))

/-- The rows of the save at the next positions, if all its documents encode. -/
def Database.rows (db : Database) (s : Save) : Option (List EventRow) :=
  positionedRows db.nextId (db.lastId s) s.now 0 s.inserts

def Database.Admits (sch : Schema) (db : Database) (s : Save) (rows : List EventRow) : Prop :=
  sch.consistencyOk (s.checks.map storedObservation) ∧
    db.lastId s ∉ db.tables.writes.map WriteRow.writeId ∧
    ∀ row ∈ rows, sch.rowOk row.data ∧ row.globalId ∉ db.tables.events.map EventRow.globalId

instance (sch : Schema) (db : Database) (s : Save) (rows : List EventRow) :
    Decidable (db.Admits sch s rows) :=
  inferInstanceAs (Decidable (_ ∧ _ ∧ ∀ row ∈ rows, _))

def Database.acceptedRows (sch : Schema) (db : Database) (s : Save) : Option (List EventRow) :=
  if 1 ≤ db.nextId ∧ s.ctxErr = none ∧ db.Unchanged sch.fns s ∧ s.inserts ≠ [] ∧
      db.nextId + s.inserts.length ≤ maxInt64
  then (db.rows s).filter fun rows => db.Admits sch s rows
  else none

/-- The database with the save's rows, its context and the next position. -/
def Database.accept (db : Database) (s : Save) (rows : List EventRow) : Database :=
  ⟨⟨db.tables.events ++ rows,
    db.tables.writes ++ [⟨db.lastId s, s.checks.map storedObservation⟩]⟩, db.lastId s + 1⟩

def Database.save (sch : Schema) (db : Database) (s : Save) : Database × Option Position :=
  match db.acceptedRows sch s with
  | none => (db, none)
  | some rows => (db.accept s rows, some ⟨db.lastId s, db.lastId s⟩)

def Database.saveAll (sch : Schema) : Database → List Save → Database × List (Option Position)
  | db, [] => (db, [])
  | db, s :: saves =>
    let r := db.save sch s
    let rs := Database.saveAll sch r.1 saves
    (rs.1, r.2 :: rs.2)

structure Boundary where
  db : Database
  placed : Placed db.tables.events

/-- What the writer's connection keeps: events are placed, and their saves lie below the next
position. -/
structure Database.Sound (db : Database) : Prop where
  placed : Placed db.tables.events
  below : ∀ row ∈ db.tables.events, row.transactionId < db.nextId

structure Store where
  db : Database
  sound : db.Sound

def freshStore : Store where
  db := ⟨⟨[], []⟩, 1⟩
  sound := ⟨by simp [Placed], by simp⟩

end Orisun.Sqlite
