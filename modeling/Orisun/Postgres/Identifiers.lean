import Orisun.Admin.BoundaryCatalog
import Orisun.Lib.SqlIdentifier

/-!
# The relations of a boundary

A boundary's relations carry its name and a suffix of their own. The scripts that create them quote
the whole name, and so do the statements built in the database. Other statements quote the name by
itself and write the suffix after it, put both between quotes at all times, or write them as they
are.
-/

namespace Orisun.Postgres

open SqlIdentifier

/-- The same checks as `ValidateName`. -/
def validateBoundaryName (boundary : String) : Except Admin.NameError Unit :=
  Admin.validateName boundary

inductive BoundaryObject where
  | write
  | event
  | globalIdSeq
  | idxGlobalOrderCovering
  | idxEventTypeOrder
  | idxEventOrderVisibilityCovering
  | boundaryIndexMetadata
  | eventsCount
  | projectorCheckpoint
  | schemaVersion
  | users
  | usersCount
  | lastPublishedEventPosition
  deriving DecidableEq, Repr

namespace BoundaryObject

def suffix : BoundaryObject → String
  | write => "_orisun_es_write"
  | event => "_orisun_es_event"
  | globalIdSeq => "_orisun_es_event_global_id_seq"
  | idxGlobalOrderCovering => "_idx_global_order_covering"
  | idxEventTypeOrder => "_idx_event_type_order"
  | idxEventOrderVisibilityCovering => "_idx_event_order_visibility_covering"
  | boundaryIndexMetadata => "_orisun_boundary_index_metadata"
  | eventsCount => "_events_count"
  | projectorCheckpoint => "_projector_checkpoint"
  | schemaVersion => "_orisun_schema_version"
  | users => "_users"
  | usersCount => "_users_count"
  | lastPublishedEventPosition => "_orisun_last_published_event_position"

/-- `boundary_name || suffix`. -/
def name (o : BoundaryObject) (boundary : String) : List Char :=
  boundary.toList ++ o.suffix.toList

def isIndex : BoundaryObject → Bool
  | idxGlobalOrderCovering | idxEventTypeOrder | idxEventOrderVisibilityCovering => true
  | _ => false

end BoundaryObject

/-- `format('%I.%I', schema, name)`. -/
def formatQualified (K : Keywords) (schema : String) (name : List Char) : List Char :=
  K.quoteIdent schema.toList ++ '.' :: K.quoteIdent name

/-- `format('%I.%I<suffix>', schema, boundary_name)`. -/
def formatSuffixed (K : Keywords) (schema boundary suffix : String) : List Char :=
  K.quoteIdent schema.toList ++ '.' :: (K.quoteIdent boundary.toList ++ suffix.toList)

/-- `pq.QuoteIdentifier(schema) + "." + pq.QuoteIdentifier(name)`. -/
def quoteQualified (schema : String) (name : List Char) : List Char :=
  quoteIdentifier schema.toList ++ '.' :: quoteIdentifier name

/-- `fmt.Sprintf("%s.%s<suffix>", schema, boundary)`. -/
def sprintfQualified (schema boundary suffix : String) : List Char :=
  schema.toList ++ '.' :: (boundary.toList ++ suffix.toList)

/-- The relation an object is created as. An index stands in the schema of its table. -/
def created (K : Keywords) (schema boundary : String) (o : BoundaryObject) : Option Relation :=
  if o.isIndex then
    match K.fromItem (formatQualified K schema (BoundaryObject.event.name boundary)),
        lexIdent (K.quoteIdent (o.name boundary)) with
    | some table, some (t, []) => (K.colId t).map fun name => ⟨table.schema, name⟩
    | _, _ => none
  else if o = .schemaVersion then K.fromItem (quoteQualified schema (o.name boundary))
  else K.fromItem (formatQualified K schema (o.name boundary))

/-- A place of a statement that names a relation, and the object meant by it. -/
structure Reference where
  object : BoundaryObject
  text : List Char
  deriving DecidableEq, Repr

section References

variable (K : Keywords) (schema boundary : String)

def formatted (o : BoundaryObject) : Reference :=
  ⟨o, formatQualified K schema (o.name boundary)⟩

def quoted (o : BoundaryObject) : Reference := ⟨o, quoteQualified schema (o.name boundary)⟩

def interpolated (o : BoundaryObject) : Reference :=
  ⟨o, sprintfQualified schema boundary o.suffix⟩

def insertEventRequestsV2References : List Reference :=
  [.globalIdSeq, .event, .write, .event].map (formatted K schema boundary)

def getMatchingEventsV4References : List Reference :=
  [⟨.event, formatSuffixed K schema boundary BoundaryObject.event.suffix⟩]

def getLatestByCriteriaV2References : List Reference :=
  [.event].map (formatted K schema boundary)

def getWriteContextReferences : List Reference :=
  [.write, .event].map (quoted schema boundary)

def getBoundaryIndexReferences : List Reference :=
  [.boundaryIndexMetadata].map (quoted schema boundary)

/-- The stored metadata is looked up before the index is reserved and after. -/
def createBoundaryIndexReferences : List Reference :=
  getBoundaryIndexReferences schema boundary ++
    [.event, .boundaryIndexMetadata].map (quoted schema boundary) ++
    getBoundaryIndexReferences schema boundary ++
    [.boundaryIndexMetadata, .event, .event, .boundaryIndexMetadata].map (quoted schema boundary)

def dropBoundaryIndexReferences : List Reference :=
  [.boundaryIndexMetadata].map (quoted schema boundary)

def listBoundaryIndexesReferences : List Reference :=
  [.boundaryIndexMetadata].map (quoted schema boundary)

def buildPostgresBoundaryReferences : List Reference :=
  [.eventsCount, .event, .eventsCount].map (interpolated schema boundary)

def newPostgresAdminDBWithRegistryReferences : List Reference :=
  [.users, .projectorCheckpoint, .projectorCheckpoint, .users, .users, .users, .users, .usersCount,
    .usersCount].map (interpolated schema boundary)

def references : List Reference :=
  insertEventRequestsV2References K schema boundary ++
    getMatchingEventsV4References K schema boundary ++
    getLatestByCriteriaV2References K schema boundary ++
    getWriteContextReferences schema boundary ++
    createBoundaryIndexReferences schema boundary ++
    dropBoundaryIndexReferences schema boundary ++
    listBoundaryIndexesReferences schema boundary ++
    getBoundaryIndexReferences schema boundary ++
    buildPostgresBoundaryReferences schema boundary ++
    newPostgresAdminDBWithRegistryReferences schema boundary

end References

/-- The place refers to the relation its object was created as. -/
def Reference.Resolves (K : Keywords) (schema boundary : String) (r : Reference) : Prop :=
  ∃ rel, created K schema boundary r.object = some rel ∧ K.fromItem r.text = some rel

instance (K : Keywords) (schema boundary : String) (r : Reference) :
    Decidable (r.Resolves K schema boundary) :=
  decidable_of_iff ((created K schema boundary r.object).any
      fun rel => decide (K.fromItem r.text = some rel)) (by
    unfold Reference.Resolves
    rw [Option.any_eq_true]
    simp)

/-- A name that reads as itself in every way it is written. -/
structure PlainBoundary (K : Keywords) (boundary : String) : Prop where
  lower : ∀ c ∈ boundary.toList, isUpper c = false
  unquoted : K.quoted boundary.toList = false

structure PlainSchema (K : Keywords) (schema : String) : Prop where
  lower : ∀ c ∈ schema.toList, isUpper c = false
  unreserved : K.reserved schema.toList = false

end Orisun.Postgres
