import Orisun.Indexes
import Orisun.Sqlite.BoundaryStorage

/-!
# Indexes of a SQLite boundary

An index is created and recorded in one transaction, and dropped in one. The row of an index is
found by its exact name, and so is what `sqlite_schema` has of it. `CREATE INDEX` and `DROP INDEX`
find an index whatever the case of its letters.
-/

namespace Orisun.Sqlite

inductive IndexError where
  | invalidName (name : String) (err : Admin.NameError)
  | noFields
  | invalidCombinator (combinator : String)
  | invalidOperator (operator : String)
  | notNumeric (key value : String)
  | notBoolean (key value : String)
  | nulByte (key : String)
  | differentDefinition (name : String)
  | differentPhysicalDefinition (name : String)
  | statement
  deriving DecidableEq, Repr

def lowerRune (c : Char) : Char :=
  if c.val = 0x130 then 'i' else if c.val = 0x212A then 'k' else c.toLower

/-- `strings.ToLower(strings.TrimSpace(s))`, to be compared with words of ASCII letters. -/
def lowerTrimmed (s : String) : String := (Admin.trimSpace s).map lowerRune

def normalizeIndexValueType (valueType : String) : String :=
  match lowerTrimmed valueType with
  | "numeric" => "numeric"
  | "boolean" => "boolean"
  | "timestamptz" => "timestamptz"
  | _ => "text"

def jsonPathLiteral (key : String) : String := "'$.\"" ++ doubled '\'' (doubled '"' key) ++ "\"'"

def quoteIdent (name : String) : String := "\"" ++ doubled '"' name ++ "\""

def sqlEscapeLiteral (v : String) : String := "'" ++ doubled '\'' v ++ "'"

def sqlValueLiteral (v : String) : Option String :=
  if '\x00' ∈ v.toList then none else some (sqlEscapeLiteral v)

def jsonExtractExpr (key : String) : String := "json_extract(data, " ++ jsonPathLiteral key ++ ")"

def sqliteJSONScalarTextExpr (key : String) : String :=
  "CASE json_type(data, " ++ jsonPathLiteral key ++
    ") WHEN 'true' THEN 'true' WHEN 'false' THEN 'false' ELSE CAST(" ++ jsonExtractExpr key ++
    " AS TEXT) END"

def sqliteBooleanArg (v : String) : Option String :=
  match lowerTrimmed v with
  | "true" | "1" => some "1"
  | "false" | "0" => some "0"
  | _ => none

def normalizeField (f : BoundaryIndexField) : BoundaryIndexField :=
  ⟨f.jsonKey, normalizeIndexValueType f.valueType⟩

def fieldExpr (f : BoundaryIndexField) : String :=
  match f.valueType with
  | "numeric" => "CAST(" ++ jsonExtractExpr f.jsonKey ++ " AS REAL)"
  | "boolean" => "CAST(" ++ jsonExtractExpr f.jsonKey ++ " AS INTEGER)"
  | "timestamptz" => jsonExtractExpr f.jsonKey
  | _ => sqliteJSONScalarTextExpr f.jsonKey

def typeByKey (fields : List BoundaryIndexField) (key : String) : String :=
  ((fields.reverse.find? fun f => f.jsonKey == key).map (·.valueType)).getD ""

section Statement

-- A value read as a finite float and written out again, if it is one.
variable (finiteFloat : String → Option String)

def buildIndexConditionPredicate (fields : List BoundaryIndexField) (c : BoundaryIndexCondition) :
    Except IndexError String :=
  match normalizeIndexValueType (typeByKey fields c.key) with
  | "numeric" =>
    match finiteFloat c.value with
    | none => .error (.notNumeric c.key c.value)
    | some f => .ok ("CAST(" ++ jsonExtractExpr c.key ++ " AS REAL) " ++ c.operator ++ " " ++ f)
  | "boolean" =>
    match sqliteBooleanArg c.value with
    | none => .error (.notBoolean c.key c.value)
    | some b => .ok ("CAST(" ++ jsonExtractExpr c.key ++ " AS INTEGER) " ++ c.operator ++ " " ++ b)
  | _ =>
    match sqlValueLiteral c.value with
    | none => .error (.nulByte c.key)
    | some lit => .ok (sqliteJSONScalarTextExpr c.key ++ " " ++ c.operator ++ " " ++ lit)

def conditionPredicate (fields : List BoundaryIndexField) (c : BoundaryIndexCondition) :
    Except IndexError String :=
  if c.operator ∉ validOps then .error (.invalidOperator c.operator)
  else buildIndexConditionPredicate finiteFloat fields c

def whereClause (fields : List BoundaryIndexField) (conditions : List BoundaryIndexCondition)
    (combinator : String) : Except IndexError String :=
  if conditions = [] then .ok ""
  else if combinator ∉ validCombinators then .error (.invalidCombinator combinator)
  else (conditions.mapM (conditionPredicate finiteFloat fields)).map fun predicates =>
    " WHERE " ++ join (" " ++ combinator ++ " ") predicates

/-- The statement, and the fields with their types as they are recorded. -/
def buildSQLiteBoundaryIndexDDL (name : String) (d : IndexDefinition) :
    Except IndexError (String × List BoundaryIndexField) :=
  match validateIdentifier name with
  | .error e => .error (.invalidName name e)
  | .ok () =>
    if d.fields = [] then .error .noFields
    else
      let normalizedFields := d.fields.map normalizeField
      let exprs := normalizedFields.map fieldExpr ++ ["transaction_id DESC", "global_id DESC"]
      (whereClause finiteFloat normalizedFields d.conditions (defaultCombinator d.combinator)).map
        fun whereClause =>
          ("CREATE INDEX IF NOT EXISTS " ++ quoteIdent (name ++ "_idx") ++ " ON orisun_es_event (" ++
            join ", " exprs ++ ")" ++ whereClause, normalizedFields)

end Statement

/-- `sqlite_schema` omits `IF NOT EXISTS` from the statement. -/
def schemaSql (ddl : String) : String :=
  String.ofList ("CREATE INDEX ".toList ++ ddl.toList.drop "CREATE INDEX IF NOT EXISTS ".length)

structure IndexRow where
  name : String
  definition : IndexDefinition
  deriving DecidableEq, Repr

/-- An index on the table of events, with the text `sqlite_schema` has. -/
structure PhysicalIndex where
  name : String
  sql : String
  deriving DecidableEq, Repr

/-- The rows of `orisun_boundary_index_metadata`, and the indexes created by callers. -/
structure IndexStore where
  rows : List IndexRow
  indexes : List PhysicalIndex
  deriving DecidableEq, Repr

def sameIndexName (a b : String) : Bool := a.map Char.toLower == b.map Char.toLower

namespace IndexStore

def fresh : IndexStore := ⟨[], []⟩

variable (finiteFloat : String → Option String) (s : IndexStore)

def findRow (name : String) : Option IndexRow := s.rows.find? fun r => r.name == name

def findIndex (name : String) : Option PhysicalIndex := s.indexes.find? fun i => i.name == name

def verifyMetadata (name ddl : String) : Except IndexError Unit :=
  match s.findRow name with
  | none => .ok ()
  | some existing =>
    match buildSQLiteBoundaryIndexDDL finiteFloat name existing.definition with
    | .error e => .error e
    | .ok (existingDDL, _) =>
      if existingDDL ≠ ddl then .error (.differentDefinition name) else .ok ()

def verifyPhysical (name ddl : String) : Except IndexError Unit :=
  match s.findIndex (name ++ "_idx") with
  | none => .ok ()
  | some i =>
    if i.sql ≠ schemaSql ddl then .error (.differentPhysicalDefinition name) else .ok ()

def verifyBoundaryIndexDefinition (name ddl : String) : Except IndexError Unit := do
  s.verifyMetadata finiteFloat name ddl
  s.verifyPhysical name ddl

/-- `CREATE INDEX IF NOT EXISTS`. -/
def createIndex (name ddl : String) : IndexStore :=
  if s.indexes.any fun i => sameIndexName i.name name then s
  else { s with indexes := s.indexes ++ [⟨name, schemaSql ddl⟩] }

/-- `ON CONFLICT(name) DO NOTHING`. -/
def insertRow (row : IndexRow) : IndexStore :=
  if (s.findRow row.name).isSome then s else { s with rows := s.rows ++ [row] }

/-- A statement may fail, and rolls the transaction back. -/
def createBoundaryIndex (fails : Bool) (name : String) (d : IndexDefinition) :
    IndexStore × Except IndexError Unit :=
  match buildSQLiteBoundaryIndexDDL finiteFloat name d with
  | .error e => (s, .error e)
  | .ok (ddl, normalizedFields) =>
    match s.verifyBoundaryIndexDefinition finiteFloat name ddl with
    | .error e => (s, .error e)
    | .ok () =>
      if fails then (s, .error .statement)
      else
        ((s.createIndex (name ++ "_idx") ddl).insertRow
          ⟨name, normalizedFields, d.conditions, defaultCombinator d.combinator⟩, .ok ())

def dropBoundaryIndex (fails : Bool) (name : String) : IndexStore × Except IndexError Unit :=
  match validateIdentifier name with
  | .error e => (s, .error (.invalidName name e))
  | .ok () =>
    if fails then (s, .error .statement)
    else
      ({ rows := s.rows.filter fun r => decide (r.name ≠ name)
         indexes := s.indexes.filter fun i => !sameIndexName i.name (name ++ "_idx") }, .ok ())

end IndexStore

inductive IndexCall where
  | create (fails : Bool) (name : String) (d : IndexDefinition)
  | drop (fails : Bool) (name : String)
  deriving DecidableEq, Repr

namespace IndexCall

def name : IndexCall → String
  | create _ name _ => name
  | drop _ name => name

def step (finiteFloat : String → Option String) (s : IndexStore) : IndexCall → Option IndexStore
  | create fails name d => some (s.createBoundaryIndex finiteFloat fails name d).1
  | drop fails name => some (s.dropBoundaryIndex fails name).1

/-- No index has the call's name but for the case of letters. -/
def NoTwin (s : IndexStore) (c : IndexCall) : Prop :=
  ∀ i ∈ s.indexes, sameIndexName i.name (c.name ++ "_idx") = true → i.name = c.name ++ "_idx"

end IndexCall

def IndexRow.Records (finiteFloat : String → Option String) (r : IndexRow) (i : PhysicalIndex) :
    Prop :=
  i.name = r.name ++ "_idx" ∧
    ∃ ddl fields, buildSQLiteBoundaryIndexDDL finiteFloat r.name r.definition = .ok (ddl, fields) ∧
      i.sql = schemaSql ddl

structure IndexStore.Truthful (finiteFloat : String → Option String) (s : IndexStore) : Prop where
  rows_nodup : (s.rows.map (·.name)).Nodup
  indexes_nodup : (s.indexes.map (·.name)).Nodup
  index_of_row : ∀ r ∈ s.rows, ∃ i ∈ s.indexes, r.Records finiteFloat i
  row_of_index : ∀ i ∈ s.indexes, ∃ r ∈ s.rows, r.Records finiteFloat i

end Orisun.Sqlite
