import Orisun.Lib.Savepoints
import Orisun.Sqlite.Indexes

/-!
# Opening a database file, statement by statement

`initializeSchema` on a connection whose statements may fail, over a file with any schema version and
any objects. A file is brought to the supported version, or refused. Tables, views and indexes are
found by their names, whose case does not count; triggers have names of their own.
-/

namespace Orisun.Sqlite.Migration

open Savepoints

def sameName (a b : String) : Bool := a.toList.map Char.toLower == b.toList.map Char.toLower

abbrev Row := List String

/-- What an object is. The foreign keys of a table refer to its parents. -/
inductive Kind where
  | table (columns : String) (rows : List Row) (parents : List String)
  | view
  | index (table columns : String)
  | trigger (table : String)
  deriving DecidableEq, Repr

structure Object where
  name : String
  kind : Kind
  deriving DecidableEq, Repr

structure Database where
  userVersion : ℤ
  objects : List Object
  deriving DecidableEq, Repr

namespace Object

def isTable (o : Object) : Bool :=
  match o.kind with
  | .table .. => true
  | _ => false

def isView (o : Object) : Bool :=
  match o.kind with
  | .view => true
  | _ => false

def isIndex (o : Object) : Bool :=
  match o.kind with
  | .index .. => true
  | _ => false

def owner (o : Object) : Option String :=
  match o.kind with
  | .index table _ | .trigger table => some table
  | _ => none

def refersTo (table : String) (o : Object) : Bool :=
  match o.kind with
  | .table _ _ parents => parents.any fun p => sameName p table
  | _ => false

def isNamed (name : String) (o : Object) : Bool := sameName o.name name

def isIndexNamed (name : String) (o : Object) : Bool := o.isIndex && o.isNamed name

def belongsTo (table : String) (o : Object) : Bool :=
  (o.isTable && o.isNamed table) || o.owner.any fun t => sameName t table

/-- `INSERT OR IGNORE`: the row is ignored where its first column is taken. -/
def insertOrIgnore (table : String) (row : Row) (o : Object) : Object :=
  match o.kind with
  | .table columns rows parents =>
    if o.isNamed table && !rows.any fun r => r.head? == row.head? then
      ⟨o.name, .table columns (rows ++ [row]) parents⟩
    else o
  | _ => o

/-- `name LIKE 'sqlite_%'`: the underscore stands for any character. -/
def isLikeSqlite (o : Object) : Bool :=
  ((o.name.toList.take 6).map Char.toLower == "sqlite".toList) && decide (6 < o.name.length)

end Object

namespace Database

def findTable (db : Database) (name : String) : Option Object :=
  db.objects.find? fun o => (o.isTable || o.isView) && o.isNamed name

def findIndex (db : Database) (name : String) : Option Object :=
  db.objects.find? (Object.isIndexNamed name)

def add (db : Database) (o : Object) : Database := { db with objects := db.objects ++ [o] }

def removeTable (db : Database) (name : String) : Database :=
  { db with objects := db.objects.filter fun o => !o.belongsTo name }

def isReferenced (db : Database) (name : String) : Bool :=
  db.objects.any fun o => !o.isNamed name && o.refersTo name

def occupied (db : Database) : Bool := db.objects.any fun o => !o.isLikeSqlite

end Database

inductive SqlError where
  | alreadyExists (name : String)
  | noSuchTable (name : String)
  | noSuchIndex (name : String)
  | isView (name : String)
  | refused
  deriving DecidableEq, Repr

inductive SchemaError where
  | sql (err : SqlError)
  | unsupportedVersion (version required : ℤ)
  | unversioned
  deriving DecidableEq, Repr

inductive Statement where
  | createTable (ifNotExists : Bool) (name columns : String) (parents : List String)
  | createIndex (name table columns : String)
  | insertOrIgnore (table : String) (row : Row)
  | dropIndex (name : String)
  deriving DecidableEq, Repr

def Statement.effect (db : Database) : Statement → Except SqlError Database
  | .createTable ifNotExists name columns parents =>
    if (db.findTable name).isSome then
      if ifNotExists then .ok db else .error (.alreadyExists name)
    else if (db.findIndex name).isSome then .error (.alreadyExists name)
    else .ok (db.add ⟨name, .table columns [] parents⟩)
  | .createIndex name table columns =>
    match db.findTable table with
    | none => .error (.noSuchTable table)
    | some o =>
      if o.isView then .error (.isView table)
      else if (db.findTable name).isSome || (db.findIndex name).isSome then
        .error (.alreadyExists name)
      else .ok (db.add ⟨name, .index o.name columns⟩)
  | .insertOrIgnore table row =>
    match db.findTable table with
    | none => .error (.noSuchTable table)
    | some o =>
      if o.isView then .error (.isView table)
      else .ok { db with objects := db.objects.map (Object.insertOrIgnore table row) }
  | .dropIndex name =>
    if (db.findIndex name).isSome then
      .ok { db with objects := db.objects.filter fun o => !o.isIndexNamed name }
    else .error (.noSuchIndex name)

/-- What is beyond the objects: the statements SQLite refuses for the columns or the rows of a table,
and what foreign keys do when the rows of a table are deleted that others refer to. -/
structure Engine where
  refuses : Statement → Database → Bool
  deleteRows : String → Database → Except SqlError Database

/-- `DROP TABLE IF EXISTS`. -/
def dropTableIfExists (engine : Engine) (name : String) (db : Database) :
    Except SqlError Database :=
  match db.findTable name with
  | none => .ok db
  | some o =>
    if o.isView then .error (.isView name)
    else if db.isReferenced name then (engine.deleteRows name db).map (·.removeTable name)
    else .ok (db.removeTable name)

def eventTypeOrderIndexDDL : Statement :=
  .createIndex "idx_event_type_order" "orisun_es_event"
    (sqliteJSONScalarTextExpr "__eventType" ++ ", transaction_id DESC, global_id DESC")

def writeColumns : String :=
  "write_id INTEGER PRIMARY KEY, consistency TEXT NOT NULL CHECK (json_valid(consistency) AND " ++
  "json_type(consistency) = 'array')"

def eventColumns : String :=
  "data TEXT NOT NULL CHECK (json_valid(data) AND json_type(data) = 'object'), " ++
  "transaction_id INTEGER GENERATED ALWAYS AS (json_extract(data, '$.__commitPosition')) VIRTUAL " ++
  "NOT NULL, global_id INTEGER GENERATED ALWAYS AS (json_extract(data, '$.__preparePosition')) " ++
  "VIRTUAL NOT NULL UNIQUE, write_id INTEGER GENERATED ALWAYS AS (CAST(substr(json_extract(data, " ++
  "'$.__writeId'), instr(json_extract(data, '$.__writeId'), ':') + 1) AS INTEGER)) VIRTUAL " ++
  "REFERENCES orisun_es_write(write_id), metadata TEXT GENERATED ALWAYS AS (data -> '__metadata') " ++
  "VIRTUAL, date_created TEXT GENERATED ALWAYS AS (json_extract(data, '$.__dateCreated')) VIRTUAL " ++
  "NOT NULL"

def sequenceColumns : String :=
  "id INTEGER PRIMARY KEY CHECK (id = 1), next_id INTEGER NOT NULL DEFAULT 1"

def nowDefault : String := " TEXT NOT NULL DEFAULT (strftime('%Y-%m-%dT%H:%M:%fZ','now'))"

def indexMetadataColumns : String :=
  "name TEXT PRIMARY KEY, fields TEXT NOT NULL CHECK (json_valid(fields)), conditions TEXT NOT " ++
  "NULL DEFAULT '[]' CHECK (json_valid(conditions)), combinator TEXT NOT NULL DEFAULT 'AND', " ++
  "date_created" ++ nowDefault ++ ", date_updated" ++ nowDefault

def eventDDL : List Statement :=
  [.createTable false "orisun_es_write" writeColumns [],
    .createTable false "orisun_es_event" eventColumns ["orisun_es_write"],
    .createIndex "idx_global_order_covering" "orisun_es_event"
      "transaction_id DESC, global_id DESC",
    eventTypeOrderIndexDDL,
    .createTable true "orisun_es_seq" sequenceColumns [],
    .insertOrIgnore "orisun_es_seq" ["1", "1"],
    .createTable true "orisun_boundary_index_metadata" indexMetadataColumns []]

def eventsCountColumns : String :=
  "boundary TEXT PRIMARY KEY, event_count INTEGER NOT NULL, created_at" ++ nowDefault ++
  ", updated_at" ++ nowDefault

def projectorCheckpointColumns : String :=
  "id TEXT PRIMARY KEY, name TEXT NOT NULL UNIQUE, commit_position INTEGER NOT NULL, " ++
  "prepare_position INTEGER NOT NULL"

def usersColumns : String :=
  "id TEXT PRIMARY KEY, name TEXT NOT NULL, username TEXT NOT NULL UNIQUE, password_hash TEXT " ++
  "NOT NULL, roles TEXT NOT NULL, created_at" ++ nowDefault ++ ", updated_at" ++ nowDefault

def usersCountColumns : String :=
  "id TEXT PRIMARY KEY, user_count INTEGER NOT NULL, created_at" ++ nowDefault ++
  ", updated_at" ++ nowDefault

def metadataDDL : List Statement :=
  [.createTable true "events_count" eventsCountColumns [],
    .createTable true "projector_checkpoint" projectorCheckpointColumns [],
    .createTable true "users" usersColumns [],
    .createTable true "users_count" usersCountColumns []]

section Migration

variable (fs : Faults) (engine : Engine)

def execute (st : Statement) : Run Database SchemaError Unit :=
  statement fs fun db =>
    if engine.refuses st db then .error (.sql .refused)
    else
      match st.effect db with
      | .ok db => .ok (db, ())
      | .error e => .error (.sql e)

def executeAll : List Statement → Run Database SchemaError Unit
  | [] => pure ()
  | st :: sts => do
    execute fs engine st
    executeAll sts

def executeScript (sts : List Statement) : Run Database SchemaError Unit :=
  save fs (executeAll fs engine sts)

def schemaVersion : Run Database SchemaError ℤ := statement fs fun db => .ok (db, db.userVersion)

def setUserVersion (version : ℤ) : Run Database SchemaError Unit :=
  statement fs fun db => .ok ({ db with userVersion := version }, ())

def legacyTable : String := "orisun_last_published_event_position"

def dropLegacyTable : Run Database SchemaError Unit :=
  statement fs fun db =>
    match dropTableIfExists engine legacyTable db with
    | .ok db => .ok (db, ())
    | .error e => .error (.sql e)

/-- What runs under the savepoint of `initializeSchema`. -/
def migration (ddl : List Statement) (supported : ℤ) : Run Database SchemaError Unit := do
  let version ← schemaVersion fs
  if version = supported then pure ()
  else if supported = eventSchemaVersion ∧ (version = 6 ∨ version = 7) then do
    executeScript fs engine [.dropIndex "idx_event_type_order", eventTypeOrderIndexDDL]
    setUserVersion fs supported
  else if supported = metadataSchemaVersion ∧ version = 1 then do
    dropLegacyTable fs engine
    setUserVersion fs supported
  else if version ≠ 0 then Run.fail (.unsupportedVersion version supported)
  else do
    let occupied ← statement fs fun db => .ok (db, db.occupied)
    if occupied then Run.fail .unversioned
    else do
      executeScript fs engine ddl
      setUserVersion fs supported

def initializeSchema (ddl : List Statement) (supported : ℤ) : Run Database SchemaError Unit :=
  save fs (migration fs engine ddl supported)

end Migration

inductive FileSchema where
  | event | metadata
  deriving DecidableEq, Repr

namespace FileSchema

def ddl : FileSchema → List Statement
  | event => eventDDL
  | metadata => metadataDDL

def supported : FileSchema → ℤ
  | event => eventSchemaVersion
  | metadata => metadataSchemaVersion

def other : FileSchema → FileSchema
  | event => metadata
  | metadata => event

def builtIn : FileSchema → List Object
  | event =>
    [⟨"orisun_es_write", .table writeColumns [] []⟩,
      ⟨"orisun_es_event", .table eventColumns [] ["orisun_es_write"]⟩,
      ⟨"idx_global_order_covering", .index "orisun_es_event" "transaction_id DESC, global_id DESC"⟩,
      ⟨"idx_event_type_order", .index "orisun_es_event"
        (sqliteJSONScalarTextExpr "__eventType" ++ ", transaction_id DESC, global_id DESC")⟩,
      ⟨"orisun_es_seq", .table sequenceColumns [["1", "1"]] []⟩,
      ⟨"orisun_boundary_index_metadata", .table indexMetadataColumns [] []⟩]
  | metadata =>
    [⟨"events_count", .table eventsCountColumns [] []⟩,
      ⟨"projector_checkpoint", .table projectorCheckpointColumns [] []⟩,
      ⟨"users", .table usersColumns [] []⟩,
      ⟨"users_count", .table usersCountColumns [] []⟩]

/-- What an upgrade replaces or drops: the index on the event types, or the table that is not used any
more with its own indexes and triggers. -/
def upgraded : FileSchema → Object → Bool
  | event => Object.isIndexNamed "idx_event_type_order"
  | metadata => Object.belongsTo legacyTable

/-- `applyMigrations` or `applyMetadataMigrations`. -/
def migrate (s : FileSchema) (fs : Faults) (engine : Engine) : Run Database SchemaError Unit :=
  initializeSchema fs engine s.ddl s.supported

end FileSchema

end Orisun.Sqlite.Migration
