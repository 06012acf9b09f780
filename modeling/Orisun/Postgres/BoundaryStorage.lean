import Orisun.Admin.BoundaryLifecycle
import Orisun.Postgres.Identifiers

/-!
# Installing a boundary

A boundary's relations are created in one transaction. A relation that is there under the name of
the one to be created is left as it is and nothing is reported, whatever it is.
-/

namespace Orisun.Postgres

open SqlIdentifier

structure BoundaryToPostgresSchemaMapping where
  boundary : String
  schema : String
  deriving DecidableEq, Repr

/-- A relation, what it was created as, and for whom. A version table holds one version. -/
structure StoredRelation where
  relation : Relation
  object : BoundaryObject
  owner : BoundaryToPostgresSchemaMapping
  version : ℕ
  deriving DecidableEq, Repr

structure Database where
  schemas : List (List Char)
  relations : List StoredRelation
  deriving DecidableEq, Repr

def Database.fresh : Database := ⟨["public".toList], []⟩

inductive InstallError where
  | unsupportedBackend (boundary backend : String)
  | invalidBoundary (boundary : String) (e : Admin.NameError)
  | invalidSchema (schema : String) (e : Admin.NameError)
  | alreadyRegistered (boundary schema : String)
  | parseError
  | unacceptableSchema (schema : List Char)
  | undefinedSchema (schema : List Char)
  | undefinedColumn (o : BoundaryObject)
  | notTable (o : BoundaryObject)
  | unsupportedVersion (version : ℕ)
  | unversioned
  deriving DecidableEq, Repr

namespace Database

/-- `to_regclass`. -/
def lookup (db : Database) (rel : Relation) : Option StoredRelation :=
  db.relations.find? fun r => decide (r.relation = rel)

def boundarySchemaVersion : ℕ := 5

variable (K : Keywords) (m : BoundaryToPostgresSchemaMapping)

/-- The relation under an object's name was created as such an object. -/
def holds (o : BoundaryObject) (db : Database) : Bool :=
  ((created K m.schema m.boundary o).bind db.lookup).any fun r => decide (r.object = o)

def add (rel : Relation) (o : BoundaryObject) (db : Database) : Database :=
  { db with relations := db.relations ++
      [⟨rel, o, m, if o = .schemaVersion then boundarySchemaVersion else 0⟩] }

/-- `CREATE … IF NOT EXISTS`. What is created refers to columns of other objects. -/
def createIfNotExists (columnsOf : List BoundaryObject) (o : BoundaryObject) (db : Database) :
    Except InstallError Database :=
  match created K m.schema m.boundary o with
  | none => .error .parseError
  | some rel =>
    if rel.schema ∉ db.schemas then .error (.undefinedSchema rel.schema)
    else if (db.lookup rel).isSome then .ok db
    else match columnsOf.find? fun q => !db.holds K m q with
      | some q => .error (.undefinedColumn q)
      | none => .ok (db.add m rel o)

/-- `DROP TABLE IF EXISTS`. -/
def dropTableIfExists (o : BoundaryObject) (db : Database) : Except InstallError Database :=
  match created K m.schema m.boundary o with
  | none => .error .parseError
  | some rel =>
    match db.lookup rel with
    | none => .ok db
    | some r =>
      if r.object.isIndex || decide (r.object = .globalIdSeq) then .error (.notTable o)
      else .ok { db with relations := db.relations.filter fun r => decide (r.relation ≠ rel) }

def setVersion (rel : Relation) (version : ℕ) (db : Database) : Database :=
  { db with relations := db.relations.map fun r =>
      if r.relation = rel then { r with version := version } else r }

def requireBoundaryStorage (db : Database) : Except InstallError Database :=
  match created K m.schema m.boundary .schemaVersion with
  | none => .error .parseError
  | some versions =>
    match db.lookup versions with
    | some r =>
      if r.object ≠ .schemaVersion then .error (.undefinedColumn .schemaVersion)
      else if r.version = 4 then do
        let db ← db.dropTableIfExists K m .lastPublishedEventPosition
        return db.setVersion versions boundarySchemaVersion
      else if r.version ≠ boundarySchemaVersion then .error (.unsupportedVersion r.version)
      else .ok db
    | none =>
      if ((K.fromItem (quoteQualified m.schema (BoundaryObject.event.name m.boundary))).bind
          db.lookup).isSome then .error .unversioned
      else db.createIfNotExists K m [] .schemaVersion

/-- `UPDATE`s the `pg_xact_id` of events. -/
def clearStaleXactIds (db : Database) : Except InstallError Database :=
  if db.holds K m .event then .ok db else .error (.undefinedColumn .event)

def initializeBoundaryTables (db : Database) : Except InstallError Database := do
  let db ← db.createIfNotExists K m [] .write
  let db ← db.createIfNotExists K m [.write] .event
  let db ← db.createIfNotExists K m [.event] .globalIdSeq
  let db ← db.clearStaleXactIds K m
  let db ← db.createIfNotExists K m [.event] .idxGlobalOrderCovering
  let db ← db.createIfNotExists K m [.event] .idxEventTypeOrder
  let db ← db.createIfNotExists K m [.event] .idxEventOrderVisibilityCovering
  let db ← db.createIfNotExists K m [] .boundaryIndexMetadata
  let db ← db.createIfNotExists K m [] .eventsCount
  db.createIfNotExists K m [] .projectorCheckpoint

/-- The schema's name is written as it is. Names that start with `pg_` are the system's. -/
def createSchemaIfNotExists (db : Database) : Except InstallError Database :=
  match lexIdent m.schema.toList with
  | some (t, []) =>
    match K.colId t with
    | none => .error .parseError
    | some schema =>
      if "pg_".toList.isPrefixOf schema then .error (.unacceptableSchema schema)
      else if schema ∈ db.schemas then .ok db
      else .ok { db with schemas := db.schemas ++ [schema] }
  | _ => .error .parseError

def ensureSchema (db : Database) : Except InstallError Database :=
  if m.schema = "public" then .ok db else db.createSchemaIfNotExists K m

/-- A transaction on the relations is committed, or rolled back. -/
def initializeBoundary (db : Database) : Database × Except InstallError Unit :=
  match db.requireBoundaryStorage K m >>= initializeBoundaryTables K m with
  | .error e => (db, .error e)
  | .ok db => (db, .ok ())

def runDbScripts (db : Database) : Database × Except InstallError Unit :=
  match validateBoundaryName m.boundary with
  | .error e => (db, .error (.invalidBoundary m.boundary e))
  | .ok () =>
    match db.ensureSchema K m with
    | .error e => (db, .error e)
    | .ok db => db.initializeBoundary K m

end Database

def postgresPlacement (definition : Admin.Definition) : Except InstallError String :=
  if (Admin.trimSpace definition.placement.backend).toLower ≠ "postgres" then
    .error (.unsupportedBackend definition.name definition.placement.backend)
  else
    match validateBoundaryName definition.name with
    | .error e => .error (.invalidBoundary definition.name e)
    | .ok () =>
      match validateBoundaryName definition.placement.namespace with
      | .error e => .error (.invalidSchema definition.placement.namespace e)
      | .ok () => .ok definition.placement.namespace

/-- A process's registry and the boundaries it has migrated, over the shared database. -/
structure PostgresBoundaryProvisioner where
  registry : List BoundaryToPostgresSchemaMapping
  migrated : List BoundaryToPostgresSchemaMapping
  db : Database
  deriving DecidableEq, Repr

namespace PostgresBoundaryProvisioner

def fresh : PostgresBoundaryProvisioner := ⟨[], [], .fresh⟩

def lookup (p : PostgresBoundaryProvisioner) (boundary : String) :
    Option BoundaryToPostgresSchemaMapping :=
  p.registry.find? fun m => decide (m.boundary = boundary)

def register (p : PostgresBoundaryProvisioner) (m : BoundaryToPostgresSchemaMapping) :
    PostgresBoundaryProvisioner × Except InstallError Unit :=
  match p.lookup m.boundary with
  | some existing =>
    if existing.schema = m.schema then (p, .ok ())
    else (p, .error (.alreadyRegistered m.boundary existing.schema))
  | none => ({ p with registry := p.registry ++ [m] }, .ok ())

def installBoundary (K : Keywords) (p : PostgresBoundaryProvisioner)
    (definition : Admin.Definition) : PostgresBoundaryProvisioner × Except InstallError Unit :=
  match postgresPlacement definition with
  | .error e => (p, .error e)
  | .ok schema =>
    let m : BoundaryToPostgresSchemaMapping := ⟨definition.name, schema⟩
    if (p.lookup definition.name).isSome then p.register m
    else if m ∈ p.migrated then p.register m
    else
      match p.db.runDbScripts K m with
      | (db, .error e) => ({ p with db := db }, .error e)
      | (db, .ok ()) =>
        { p with
          db := db
          migrated := p.migrated.filter (fun n : BoundaryToPostgresSchemaMapping =>
            decide (n.boundary ≠ m.boundary)) ++ [m]
        }.register m

/-- Every definition is installed in turn, whether or not the ones before could be. -/
def installAll (K : Keywords) (p : PostgresBoundaryProvisioner) (ds : List Admin.Definition) :
    PostgresBoundaryProvisioner :=
  ds.foldl (fun p d => (p.installBoundary K d).1) p

end PostgresBoundaryProvisioner

/-- What initialisation creates for a boundary, in that order. -/
def boundaryObjects : List BoundaryObject :=
  [.schemaVersion, .write, .event, .globalIdSeq, .idxGlobalOrderCovering, .idxEventTypeOrder,
    .idxEventOrderVisibilityCovering, .boundaryIndexMetadata, .eventsCount, .projectorCheckpoint]

def mappingOf (d : Admin.Definition) : BoundaryToPostgresSchemaMapping :=
  ⟨d.name, d.placement.namespace⟩

def derivedRelations (K : Keywords) (d : Admin.Definition) : List Relation :=
  boundaryObjects.filterMap (created K d.placement.namespace d.name)

def relationOf (m : BoundaryToPostgresSchemaMapping) (o : BoundaryObject) : Relation :=
  ⟨m.schema.toList, truncate (o.name m.boundary)⟩

/-- A relation as its boundary needs it: its own, and created as what it is for. -/
def ownRelation (m : BoundaryToPostgresSchemaMapping) (o : BoundaryObject) : StoredRelation :=
  ⟨relationOf m o, o, m, if o = .schemaVersion then Database.boundarySchemaVersion else 0⟩

def ownRelations (d : Admin.Definition) : List StoredRelation :=
  boundaryObjects.map (ownRelation (mappingOf d))

/-- A schema that is there, or that can be created under its own name. -/
def CreatableSchema (K : Keywords) (schema : List Char) : Prop :=
  schema = "public".toList ∨
    (∀ c ∈ schema, isUpper c = false) ∧ K.reserved schema = false ∧ ¬ "pg_".toList <+: schema

/-- The place names the relation its object is created as; and if every boundary has such an object,
installing this one on an empty database leaves it there. -/
def Reference.Finds (K : Keywords) (m : BoundaryToPostgresSchemaMapping) (r : Reference) : Prop :=
  r.Resolves K m.schema m.boundary ∧ (r.object ∈ boundaryObjects →
    (K.fromItem r.text).bind (Database.fresh.runDbScripts K m).1.lookup =
      some (ownRelation m r.object))

end Orisun.Postgres
