import Orisun.Postgres.BoundaryStorage
import Orisun.Postgres.Indexes

/-!
# Dropping an index among others

The indexes of all boundaries of a schema stand under names in one space, together with what
installation has created. `DropBoundaryIndex` drops the index it finds under the name it makes up
for its boundary and index, cut to length, whoever created it.
-/

namespace Orisun.Postgres

open SqlIdentifier

/-- An index that `CreateBoundaryIndex` has made for a boundary and a name. -/
structure CreatedIndex where
  relation : Relation
  boundary : String
  name : String
  deriving DecidableEq, Repr

inductive DropError where
  | unknownBoundary (boundary : String)
  | invalidName (name : String) (err : Admin.NameError)
  | parseError
  | notIndex (rel : Relation)
  deriving DecidableEq, Repr

/-- The installed boundaries with their relations, the indexes created, and the rows of index
metadata, each a boundary's and a name's. -/
structure IndexedDatabase where
  provisioner : PostgresBoundaryProvisioner
  indexes : List CreatedIndex
  rows : List (String × String)
  deriving DecidableEq, Repr

namespace IndexedDatabase

variable (K : Keywords) (s : IndexedDatabase)

/-- `DROP INDEX CONCURRENTLY IF EXISTS`. -/
def dropIndexIfExists (rel : Relation) : Except DropError IndexedDatabase :=
  match s.provisioner.db.lookup rel with
  | some r =>
    if r.object.isIndex then
      .ok { s with provisioner.db.relations :=
              s.provisioner.db.relations.filter fun r => decide (r.relation ≠ rel) }
    else .error (.notIndex rel)
  | none => .ok { s with indexes := s.indexes.filter fun i => decide (i.relation ≠ rel) }

def metadataTable (boundary : String) : Option Relation :=
  (s.provisioner.lookup boundary).bind fun m =>
    K.fromItem (quoteQualified m.schema (BoundaryObject.boundaryIndexMetadata.name boundary))

/-- `DELETE`s the rows of a name from a boundary's table. -/
def deleteRow (boundary name : String) : IndexedDatabase :=
  { s with rows := s.rows.filter fun row =>
      !(decide (s.metadataTable K row.1 = s.metadataTable K boundary) && decide (row.2 = name)) }

def dropBoundaryIndex (boundary name : String) : IndexedDatabase × Except DropError Unit :=
  match s.provisioner.lookup boundary with
  | none => (s, .error (.unknownBoundary boundary))
  | some m =>
    match validateBoundaryName name with
    | .error e => (s, .error (.invalidName name e))
    | .ok () =>
      match K.fromItem (quoteQualified m.schema (physicalIndexName boundary name)) with
      | none => (s, .error .parseError)
      | some rel =>
        match s.dropIndexIfExists rel with
        | .error e => (s, .error e)
        | .ok s => (s.deleteRow K boundary name, .ok ())

/-- The indexes that can exist over the installed boundaries: each under its own name, which is not
cut and was free. -/
structure Existing : Prop where
  created : ∀ i ∈ s.indexes, ∃ m, s.provisioner.lookup i.boundary = some m ∧
    validateBoundaryName i.name = .ok () ∧ fitsRelname i.boundary i.name = true ∧
    i.relation = ⟨m.schema.toList, physicalIndexName i.boundary i.name⟩ ∧
    s.provisioner.db.lookup i.relation = none
  distinct : (s.indexes.map (·.relation)).Nodup
  rows : ∀ row ∈ s.rows, (s.provisioner.lookup row.1).isSome = true

/-- Nothing is gone but the index of a boundary and a name, and its row. -/
structure GoneAtMost (boundary name : String) (s s' : IndexedDatabase) : Prop where
  installed : s'.provisioner = s.provisioner
  indexes : ∀ i ∈ s.indexes, (i.boundary, i.name) ≠ (boundary, name) → i ∈ s'.indexes
  rows : ∀ row ∈ s.rows, row ≠ (boundary, name) → row ∈ s'.rows

end IndexedDatabase

/-- The name that is dropped is no installed index's, and if it is free, that of no other boundary's
or name's index in the schema. -/
def DropsOwn (p : PostgresBoundaryProvisioner) (m : BoundaryToPostgresSchemaMapping)
    (boundary name : String) : Prop :=
  (∀ r, p.db.lookup ⟨m.schema.toList, indexRelname boundary name⟩ = some r →
    r.object.isIndex = false) ∧
  (p.db.lookup ⟨m.schema.toList, indexRelname boundary name⟩ = none →
    ∀ boundary' m' name', p.lookup boundary' = some m' → m'.schema = m.schema →
      validateBoundaryName name' = .ok () → fitsRelname boundary' name' = true →
      physicalIndexName boundary' name' = indexRelname boundary name →
      boundary' = boundary ∧ name' = name)

end Orisun.Postgres
