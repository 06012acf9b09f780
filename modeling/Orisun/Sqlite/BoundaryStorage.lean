import Orisun.Admin.BoundaryLifecycle

/-!
# The files of a boundary

A boundary has two database files in the directory, one for its events and one for metadata, which
installation creates or opens. What a file is for is told by its schema version.
-/

namespace Orisun.Sqlite

/-- The same checks as of `Admin.validateName`, with other words in the errors. -/
def validateIdentifier (name : String) : Except Admin.NameError Unit := Admin.validateName name

/-- The name of an object, and the table it is or belongs to. -/
structure SchemaObject where
  name : String
  tblName : String
  deriving DecidableEq, Repr

/-- A file's `user_version`, and the objects of its schema that are not SQLite's own. -/
structure DatabaseFile where
  userVersion : ℤ
  objects : List SchemaObject
  deriving DecidableEq, Repr

inductive InstallError where
  | unsupportedBackend (name backend : String)
  | invalidName (name : String) (err : Admin.NameError)
  | foreignNamespace (name : String)
  | noSuchIndex (name : String)
  | unsupportedVersion (version required : ℤ)
  | unversioned
  | openBoundary (name : String) (err : InstallError)
  | openMetadata (name : String) (err : InstallError)
  | saverClosed (name : String)
  deriving DecidableEq, Repr

def eventSchemaVersion : ℤ := 8

def metadataSchemaVersion : ℤ := 2

def eventTypeOrderIndex : SchemaObject := ⟨"idx_event_type_order", "orisun_es_event"⟩

/-- What the statements of `eventDDL` create. -/
def eventDDL : List SchemaObject :=
  [⟨"orisun_es_write", "orisun_es_write"⟩, ⟨"orisun_es_event", "orisun_es_event"⟩,
    ⟨"idx_global_order_covering", "orisun_es_event"⟩, eventTypeOrderIndex,
    ⟨"orisun_es_seq", "orisun_es_seq"⟩,
    ⟨"orisun_boundary_index_metadata", "orisun_boundary_index_metadata"⟩]

/-- What the statements of `metadataDDL` create. -/
def metadataDDL : List SchemaObject :=
  ["events_count", "projector_checkpoint", "users", "users_count"].map fun name => ⟨name, name⟩

def initializeSchema (ddl : List SchemaObject) (supported : ℤ) (db : DatabaseFile) :
    Except InstallError DatabaseFile :=
  if db.userVersion = supported then .ok db
  else if supported = eventSchemaVersion ∧ (db.userVersion = 6 ∨ db.userVersion = 7) then
    if db.objects.any fun o => decide (o.name = eventTypeOrderIndex.name) then
      .ok ⟨supported, db.objects.filter (fun o => decide (o.name ≠ eventTypeOrderIndex.name)) ++
        [eventTypeOrderIndex]⟩
    else .error (.noSuchIndex "idx_event_type_order")
  else if supported = metadataSchemaVersion ∧ db.userVersion = 1 then
    -- a table is dropped with its indexes and triggers
    .ok ⟨supported, db.objects.filter fun o =>
      decide (o.tblName ≠ "orisun_last_published_event_position")⟩
  else if db.userVersion ≠ 0 then .error (.unsupportedVersion db.userVersion supported)
  else if db.objects ≠ [] then .error .unversioned
  else .ok ⟨supported, ddl⟩

def applyMigrations : DatabaseFile → Except InstallError DatabaseFile :=
  initializeSchema eventDDL eventSchemaVersion

def applyMetadataMigrations : DatabaseFile → Except InstallError DatabaseFile :=
  initializeSchema metadataDDL metadataSchemaVersion

abbrev Directory := String → Option DatabaseFile

def eventDBName (boundary : String) : String := boundary

def metadataDBNameForBoundary (boundary : String) : String := boundary ++ "_metadata"

def eventFile (boundary : String) : String := eventDBName boundary ++ ".db"

def metadataFile (boundary : String) : String := metadataDBNameForBoundary boundary ++ ".db"

/-- A file that is not there is created empty, and stays if the migration fails. -/
def openSQLitePools (dir : Directory) (file : String)
    (apply : DatabaseFile → Except InstallError DatabaseFile) : Directory × Except InstallError Unit :=
  let db := (dir file).getD ⟨0, []⟩
  match apply db with
  | .error e => (Function.update dir file (some db), .error e)
  | .ok db => (Function.update dir file (some db), .ok ())

def openBoundaryPools (dir : Directory) (boundary : String) :
    Directory × Except InstallError Unit :=
  openSQLitePools dir (eventFile boundary) applyMigrations

def openMetadataPools (dir : Directory) (boundary : String) :
    Directory × Except InstallError Unit :=
  openSQLitePools dir (metadataFile boundary) applyMetadataMigrations

/-- The boundaries whose pools are registered, over the directory. -/
structure SqliteBoundaryProvisioner where
  registry : List String
  saverClosed : Bool
  dir : Directory

namespace SqliteBoundaryProvisioner

def fresh : SqliteBoundaryProvisioner := ⟨[], false, fun _ => none⟩

end SqliteBoundaryProvisioner

/-- The letters that fold to one in ASCII, within it or outside. -/
def foldRune (c : Char) : Char :=
  if c.val = 0x17F then 's' else if c.val = 0x212A then 'k' else c.toLower

def validateDefinition (definition : Admin.Definition) : Except InstallError Unit :=
  if (Admin.trimSpace definition.placement.backend).map foldRune ≠ "sqlite" then
    .error (.unsupportedBackend definition.name definition.placement.backend)
  else
    match validateIdentifier definition.name with
    | .error e => .error (.invalidName definition.name e)
    | .ok () =>
      if Admin.trimSpace definition.placement.namespace ≠ definition.name then
        .error (.foreignNamespace definition.name)
      else .ok ()

namespace SqliteBoundaryProvisioner

def installBoundary (p : SqliteBoundaryProvisioner) (definition : Admin.Definition) :
    SqliteBoundaryProvisioner × Except InstallError Unit :=
  match validateDefinition definition with
  | .error e => (p, .error e)
  | .ok () =>
    if definition.name ∈ p.registry then (p, .ok ())
    else
      match openBoundaryPools p.dir definition.name with
      | (dir, .error e) => ({ p with dir := dir }, .error (.openBoundary definition.name e))
      | (dir, .ok ()) =>
        match openMetadataPools dir definition.name with
        | (dir, .error e) => ({ p with dir := dir }, .error (.openMetadata definition.name e))
        | (dir, .ok ()) =>
          if p.saverClosed then ({ p with dir := dir }, .error (.saverClosed definition.name))
          else ({ p with dir := dir, registry := p.registry ++ [definition.name] }, .ok ())

/-- Boundaries installed in turn, as long as each can be. -/
def installAll (p : SqliteBoundaryProvisioner) :
    List Admin.Definition → Except InstallError SqliteBoundaryProvisioner
  | [] => .ok p
  | d :: ds =>
    match p.installBoundary d with
    | (_, .error e) => .error e
    | (p, .ok ()) => p.installAll ds

/-- A boundary is installed: its pools are registered, and each of its files is what it is for. -/
def Installed (p : SqliteBoundaryProvisioner) (boundary : String) : Prop :=
  boundary ∈ p.registry ∧
    p.dir (eventFile boundary) = some ⟨eventSchemaVersion, eventDDL⟩ ∧
    p.dir (metadataFile boundary) = some ⟨metadataSchemaVersion, metadataDDL⟩

end SqliteBoundaryProvisioner

end Orisun.Sqlite
