import Orisun.Sqlite.Predicate

/-!
# Consistency checks on the writer's connection

A check is prepared before it waits for the writer: every criterion is rendered, and criteria that
another one of the query makes redundant are dropped. A rendering error is kept for the check's
turn.
-/

namespace Orisun.Sqlite

structure EventRow where
  transactionId : ℤ
  globalId : ℤ
  writeId : ℤ
  data : Json

def EventRow.position (row : EventRow) : Position := ⟨row.transactionId, row.globalId⟩

structure CriterionLookup where
  criterion : EncodedCriterion
  parts : List SqlPart

/-- Every comparison of `subset` is one of the criterion's. -/
def criterionContains (criterion subset : EncodedCriterion) : Bool :=
  if subset.fields.length > criterion.fields.length then false
  else subset.fields.all fun f => criterion.fields.lookup f.1 == some f.2

def addMinimal (minimal : List CriterionLookup) (candidate : CriterionLookup) :
    List CriterionLookup :=
  if minimal.any fun existing => criterionContains candidate.criterion existing.criterion
  then minimal
  else (minimal.filter fun existing =>
    !criterionContains existing.criterion candidate.criterion) ++ [candidate]

/-- `A OR (A AND B)` is `A`. -/
def minimalCriteria (criteria : List CriterionLookup) : List CriterionLookup :=
  criteria.foldl addMinimal []

def criterionLookup (criterion : EncodedCriterion) : Except CriteriaError CriterionLookup :=
  (buildCriteriaSQL criterion).map fun parts => ⟨criterion, parts⟩

/-- The lookups of a query. One without criteria is about every event. -/
def latestCriteriaQueries (criteria : List ReadCriterion) :
    Except CriteriaError (List (List SqlPart)) := do
  let lookups ← ((encodeReadCriteria criteria).filter (·.fields ≠ [])).mapM criterionLookup
  let queries := (minimalCriteria lookups).map (·.parts)
  return if queries = [] then [[]] else queries

def documents (events : List EventRow) : List Json := events.map EventRow.data

/-- The row `ORDER BY transaction_id DESC, global_id DESC LIMIT 1` is about. -/
def latestMatch (fns : JsonFunctions) (events : List EventRow) (parts : List SqlPart) :
    Option Position :=
  ((events.filter fun row => selects fns parts row.data).map EventRow.position).max?

/-- The row the lookup returns, unless its statement fails. -/
def latestRow (fns : JsonFunctions) (events : List EventRow) (parts : List SqlPart) :
    Except JsonPath.PathError (Option Position) :=
  if fns.fails (documents events) [parts] then .error .badPath
  else .ok (latestMatch fns events parts)

def keepLatestRow (fns : JsonFunctions) (events : List EventRow) (latest : Position)
    (parts : List SqlPart) : Except JsonPath.PathError Position := do
  match ← latestRow fns events parts with
  | some p => return laterPosition latest p
  | none => return latest

def latestPreparedCriteriaPosition (fns : JsonFunctions) (events : List EventRow)
    (queries : List (List SqlPart)) : Except JsonPath.PathError Position :=
  queries.foldlM (keepLatestRow fns events) notExistsPosition

structure PreparedConsistencyCheck where
  position : Position
  queries : Except CriteriaError (List (List SqlPart))

def prepareConsistencyChecks (checks : List ConsistencyCheck) : List PreparedConsistencyCheck :=
  checks.map fun check => ⟨check.position, latestCriteriaQueries check.criteria⟩

end Orisun.Sqlite
