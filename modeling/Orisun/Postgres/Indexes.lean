import Orisun.Indexes
import Orisun.Lib.Transition
import Orisun.Postgres.Identifiers

/-!
# Indexes of a PostgreSQL boundary

Creating an index is a sequence of statements, each a transaction of its own: the row of the index
is reserved, the index is built, and the row is marked ready if it has not changed meanwhile.
Dropping one is two statements, the index first and its row after it. The statements of other calls
run in between. While an index is being built others see it as invalid.
-/

namespace Orisun.Postgres

open SqlIdentifier

inductive IndexError where
  | invalidName (name : String) (err : Admin.NameError)
  | noFields
  | invalidCombinator (combinator : String)
  | invalidOperator (operator : String)
  | nameTooLong
  | differentDefinition (name : String)
  | invalidDefinition
  | differentPhysicalDefinition (name : String)
  | droppedDuringCreation (name : String)
  | changedDuringCreation (name : String)
  | createIndex
  | notValid
  | disappeared (name : String)
  deriving DecidableEq, Repr

/-- `pq.QuoteLiteral`. -/
def quoteLiteral (literal : String) : String :=
  if '\\' ∈ literal.toList then " E'" ++ doubled '\\' (doubled '\'' literal) ++ "'"
  else "'" ++ doubled '\'' literal ++ "'"

def fieldExpr (f : BoundaryIndexField) : String :=
  match f.valueType with
  | "numeric" => "((data->>" ++ quoteLiteral f.jsonKey ++ ")::numeric)"
  | "boolean" => "((data->>" ++ quoteLiteral f.jsonKey ++ ")::boolean)"
  | "timestamptz" => "((data->>" ++ quoteLiteral f.jsonKey ++ ")::timestamptz)"
  | _ => "(data->>" ++ quoteLiteral f.jsonKey ++ ")"

def conditionPredicate (c : BoundaryIndexCondition) : Except IndexError String :=
  if c.operator ∉ validOps then .error (.invalidOperator c.operator)
  else .ok ("(data->>" ++ quoteLiteral c.key ++ ") " ++ c.operator ++ " " ++ quoteLiteral c.value)

def whereClause (conditions : List BoundaryIndexCondition) (combinator : String) :
    Except IndexError String :=
  if conditions = [] then .ok ""
  else if combinator ∉ validCombinators then .error (.invalidCombinator combinator)
  else (conditions.mapM conditionPredicate).map fun predicates =>
    " WHERE " ++ join (" " ++ combinator ++ " ") predicates

def boundaryIndexKeyExpressions (d : IndexDefinition) : Except IndexError (String × String) :=
  if d.fields = [] then .error .noFields
  else (whereClause d.conditions (defaultCombinator d.combinator)).map fun whereClause =>
    (join ", " (d.fields.map fieldExpr), whereClause)

def boundaryIndexExpressions (d : IndexDefinition) : Except IndexError (String × String) :=
  (boundaryIndexKeyExpressions d).map fun (keys, predicate) =>
    (keys ++ ", transaction_id DESC, global_id DESC", predicate)

def physicalIndexName (boundary name : String) : List Char :=
  boundary.toList ++ '_' :: (name.toList ++ "_idx".toList)

def indexRelname (boundary name : String) : List Char := truncate (physicalIndexName boundary name)

def fitsRelname (boundary name : String) : Bool :=
  decide ((physicalIndexName boundary name).length ≤ maxLength)

inductive IndexState where
  | building | ready
  deriving DecidableEq, Repr

structure IndexRow where
  definition : IndexDefinition
  state : IndexState
  deriving DecidableEq, Repr

/-- An index on the boundary's table of events, with its definition as PostgreSQL shows it. -/
structure PhysicalIndex where
  definition : String
  valid : Bool
  deriving DecidableEq, Repr

/-- The rows of a boundary's index metadata by name, and its indexes by relation name. -/
structure IndexCatalog where
  rows : String → Option IndexRow
  indexes : List Char → Option PhysicalIndex

namespace IndexCatalog

def fresh : IndexCatalog := ⟨fun _ => none, fun _ => none⟩

variable (boundary : String) (cat : IndexCatalog)

def setRow (name : String) (row : Option IndexRow) : IndexCatalog :=
  { cat with rows := Function.update cat.rows name row }

def setIndex (name : String) (index : Option PhysicalIndex) : IndexCatalog :=
  { cat with indexes := Function.update cat.indexes (indexRelname boundary name) index }

def index (name : String) : Option PhysicalIndex := cat.indexes (indexRelname boundary name)

def checkBoundaryIndexMetadata (name : String) (expressions : String × String) :
    Except IndexError (Option IndexRow) :=
  match cat.rows name with
  | none => .ok none
  | some existing =>
    match boundaryIndexExpressions existing.definition with
    | .error e => .error e
    | .ok existingExpressions =>
      if existingExpressions ≠ expressions then .error (.differentDefinition name)
      else .ok (some existing)

/-- Whether the index exists, where the definition is the expected one. -/
def verifyBoundaryIndexDefinition (deparse : String × String → Option String) (name : String)
    (expressions : String × String) : Except IndexError Bool :=
  match cat.index boundary name with
  | none => .ok false
  | some i =>
    match deparse expressions with
    | none => .error .invalidDefinition
    | some expected =>
      if i.definition ≠ expected then .error (.differentPhysicalDefinition name) else .ok true

/-- `ON CONFLICT(name) DO NOTHING`. -/
def insertRow (name : String) (d : IndexDefinition) : IndexCatalog :=
  match cat.rows name with
  | none => cat.setRow name (some ⟨d, .building⟩)
  | some _ => cat

/-- The row is updated if it has the reserved definition still. -/
def setState (name : String) (reserved : IndexDefinition) (state : IndexState) :
    Option IndexCatalog :=
  match cat.rows name with
  | none => none
  | some row =>
    if row.definition = reserved then some (cat.setRow name (some ⟨reserved, state⟩)) else none

end IndexCatalog

inductive CreateStage where
  | checkMetadata
  | verify
  | insertRow
  | recheck
  | setBuilding (reserved : IndexDefinition)
  | readValidity (reserved : IndexDefinition)
  | dropInvalid (reserved : IndexDefinition)
  | build (reserved : IndexDefinition)
  /-- The statement that builds the index has begun. -/
  | building (reserved : IndexDefinition)
  | readBuilt (reserved : IndexDefinition)
  | verifyBuilt (reserved : IndexDefinition)
  | setReady (reserved : IndexDefinition)
  | cleanup (err : IndexError)
  | cleanupDrop (err : IndexError)
  deriving DecidableEq, Repr

/-- A call of `CreateBoundaryIndex` with the definition it submits and the expressions of it, or one
of `DropBoundaryIndex`. -/
inductive IndexCall where
  | creating (name : String) (d : IndexDefinition) (expressions : String × String)
      (stage : CreateStage)
  | dropping (name : String)
  | deleting (name : String)
  | returned (name : String) (result : Except IndexError Unit)

namespace IndexCall

def name : IndexCall → String
  | creating name _ _ _ => name
  | dropping name => name
  | deleting name => name
  | returned name _ => name

def isReturned : IndexCall → Bool
  | returned _ _ => true
  | _ => false

/-- `CreateBoundaryIndex` up to its first statement. -/
def create (boundary name : String) (d : IndexDefinition) : IndexCall :=
  match validateBoundaryName name with
  | .error e => .returned name (.error (.invalidName name e))
  | .ok () =>
    let d := { d with combinator := defaultCombinator d.combinator }
    match boundaryIndexExpressions d with
    | .error e => .returned name (.error e)
    | .ok expressions =>
      if fitsRelname boundary name then .creating name d expressions .checkMetadata
      else .returned name (.error .nameTooLong)

def drop (name : String) : IndexCall :=
  match validateBoundaryName name with
  | .error e => .returned name (.error (.invalidName name e))
  | .ok () => .dropping name

variable (boundary : String) (deparse : String × String → Option String) (cat : IndexCatalog)

/-- One statement of a creation. The one that builds the index may fail, at once (also where the index
exists) or while others run. -/
def execCreate (fails : Bool) (name : String) (d : IndexDefinition)
    (expressions : String × String) : CreateStage → IndexCatalog × IndexCall
  | .checkMetadata =>
    match cat.checkBoundaryIndexMetadata name expressions with
    | .error e => (cat, .returned name (.error e))
    | .ok _ => (cat, .creating name d expressions .verify)
  | .verify =>
    match cat.verifyBoundaryIndexDefinition boundary deparse name expressions with
    | .error e => (cat, .returned name (.error e))
    | .ok _ => (cat, .creating name d expressions .insertRow)
  | .insertRow => (cat.insertRow name d, .creating name d expressions .recheck)
  | .recheck =>
    match cat.checkBoundaryIndexMetadata name expressions with
    | .error e => (cat, .returned name (.error e))
    | .ok none => (cat, .returned name (.error (.droppedDuringCreation name)))
    | .ok (some existing) =>
      (cat, .creating name d expressions (.setBuilding existing.definition))
  | .setBuilding reserved =>
    match cat.setState name reserved .building with
    | none => (cat, .returned name (.error (.changedDuringCreation name)))
    | some cat => (cat, .creating name d expressions (.readValidity reserved))
  | .readValidity reserved =>
    match cat.index boundary name with
    | some ⟨_, false⟩ => (cat, .creating name d expressions (.dropInvalid reserved))
    | _ => (cat, .creating name d expressions (.build reserved))
  | .dropInvalid reserved =>
    (cat.setIndex boundary name none, .creating name d expressions (.build reserved))
  | .build reserved =>
    if fails then (cat, .creating name d expressions (.cleanup .createIndex))
    else
      match cat.index boundary name with
      | some _ => (cat, .creating name d expressions (.readBuilt reserved))
      | none =>
        match deparse expressions with
        | some definition =>
          (cat.setIndex boundary name (some ⟨definition, false⟩),
            .creating name d expressions (.building reserved))
        | none => (cat, .creating name d expressions (.cleanup .createIndex))
  | .building reserved =>
    if fails then (cat, .creating name d expressions (.cleanup .createIndex))
    else
      (cat.setIndex boundary name ((cat.index boundary name).map fun i => { i with valid := true }),
        .creating name d expressions (.readBuilt reserved))
  | .readBuilt reserved =>
    match cat.index boundary name with
    | some ⟨_, true⟩ => (cat, .creating name d expressions (.verifyBuilt reserved))
    | _ => (cat, .creating name d expressions (.cleanup .notValid))
  | .verifyBuilt reserved =>
    match cat.verifyBoundaryIndexDefinition boundary deparse name expressions with
    | .error e => (cat, .returned name (.error e))
    | .ok false => (cat, .returned name (.error (.disappeared name)))
    | .ok true => (cat, .creating name d expressions (.setReady reserved))
  | .setReady reserved =>
    match cat.setState name reserved .ready with
    | none => (cat, .returned name (.error (.changedDuringCreation name)))
    | some cat => (cat, .returned name (.ok ()))
  | .cleanup err =>
    match cat.index boundary name with
    | some ⟨_, false⟩ => (cat, .creating name d expressions (.cleanupDrop err))
    | _ => (cat, .returned name (.error err))
  | .cleanupDrop err => (cat.setIndex boundary name none, .returned name (.error err))

def exec (fails : Bool) : IndexCall → IndexCatalog × IndexCall
  | creating name d expressions stage =>
    execCreate boundary deparse cat fails name d expressions stage
  | dropping name => (cat.setIndex boundary name none, .deleting name)
  | deleting name => (cat.setRow name none, .returned name (.ok ()))
  | returned name result => (cat, .returned name result)

end IndexCall

structure IndexWorld where
  catalog : IndexCatalog
  calls : List IndexCall

namespace IndexWorld

def fresh : IndexWorld := ⟨.fresh, []⟩

inductive Action where
  | create (name : String) (d : IndexDefinition)
  | drop (name : String)
  /-- The next statement of a call. -/
  | exec (call : ℕ) (fails : Bool)

def step (boundary : String) (deparse : String × String → Option String) (w : IndexWorld) :
    Action → Option IndexWorld
  | .create name d => some { w with calls := w.calls ++ [.create boundary name d] }
  | .drop name => some { w with calls := w.calls ++ [.drop name] }
  | .exec k fails =>
    match w.calls[k]? with
    | none => none
    | some c =>
      if c.isReturned then none
      else
        some ⟨(c.exec boundary deparse w.catalog fails).1,
          w.calls.set k (c.exec boundary deparse w.catalog fails).2⟩

def Idle (w : IndexWorld) (name : String) : Prop :=
  ∀ c ∈ w.calls, c.name = name → c.isReturned = true

/-- A call begins after the earlier ones on the name have returned, what is dropped is an index of
that name, and `CREATE INDEX` does not fail where the index exists. -/
def Serial (boundary : String) (w : IndexWorld) : Action → Prop
  | .create name _ => w.Idle name
  | .drop name => w.Idle name ∧ fitsRelname boundary name = true
  | .exec k fails => fails = true → ∀ name d e reserved,
      w.calls[k]? = some (.creating name d e (.build reserved)) → w.catalog.index boundary name = none

end IndexWorld

namespace IndexCatalog

/-- A row is ready exactly if a valid index of the recorded definition exists, and no index exists
without a row. -/
def TellsTruth (boundary : String) (deparse : String × String → Option String) (cat : IndexCatalog)
    (name : String) : Prop :=
  ((∃ r, cat.rows name = some r ∧ r.state = .ready) ↔
    ∃ r e i, cat.rows name = some r ∧ boundaryIndexExpressions r.definition = .ok e ∧
      cat.index boundary name = some i ∧ i.valid = true ∧ deparse e = some i.definition) ∧
  (fitsRelname boundary name = true → cat.rows name = none → cat.index boundary name = none)

end IndexCatalog

end Orisun.Postgres
