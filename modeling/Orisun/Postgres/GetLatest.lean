import Orisun.LatestBatch
import Orisun.Postgres.InsertEventRequests

/-!
# Reading the latest matches

`get_latest_by_criteria_v2` renders one lookup per criterion and runs all of them as one statement,
so what it returns comes from one snapshot.
-/

namespace Orisun.Postgres

inductive ReadError where
  | invalidTag (e : TagError)
  | noCriteria
  | noTags
  | query (e : SqlError)
  | indexOutOfRange (index : ℕ)
  deriving DecidableEq, Repr

/-- The rows of the statement: the index of a criterion and its latest match. -/
def getLatestByCriteriaV2 (events : List EventRow) (criteria : List EncodedCriterion) :
    Except SqlError (List (ℕ × Position)) :=
  if criteria = [] then .error (.raise "criteria cannot be empty") else do
    let selects ← criteria.zipIdx.mapM fun crit =>
      if crit.1.fields = [] then .error (.raise s!"criterion {crit.2} has no tags")
      else (orisunCriterionSql crit.1).map fun parts => (crit.2, parts)
    return selects.filterMap fun select => (latestRow events select.2).map fun p => (select.1, p)

def addRow (count : ℕ) (batch : LatestByCriteriaBatch) (row : ℕ × Position) :
    Except ReadError LatestByCriteriaBatch :=
  if row.1 ≥ count then .error (.indexOutOfRange row.1) else .ok (batch.add row)

def getReadCriteriaAsList (criteria : List ReadCriterion) : List EncodedCriterion :=
  (criteria.filter fun c => c.tags.length > 0).map fun c => encodeCriterion c.tags

def getLatestByCriteria (t : Tables) (criteria : List ReadCriterion) :
    Except ReadError LatestByCriteriaBatch :=
  match validateReadCriteria criteria with
  | .error e => .error (.invalidTag e)
  | .ok () =>
    if criteria.length = 0 then .error .noCriteria
    else if (getReadCriteriaAsList criteria).length ≠ criteria.length then .error .noTags
    else match getLatestByCriteriaV2 t.events (getReadCriteriaAsList criteria) with
      | .error e => .error (.query e)
      | .ok rows => rows.foldlM (addRow criteria.length) (.empty criteria.length)

end Orisun.Postgres
