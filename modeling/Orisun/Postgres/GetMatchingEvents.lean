import Orisun.Observations
import Orisun.Postgres.Serial
import Orisun.SubscriptionDrain

/-!
# Reading events behind the visibility barrier

`get_matching_events_v4` returns the matches from a position on, in the order of positions. An
ascending read shows a row only if its mark is `NULL` or below the oldest transaction in progress at
the statement's snapshot.
-/

namespace Orisun.Postgres

def defaultReadBatchSize : ℕ := 1000
def maxReadBatchSize : ℕ := 10000

inductive GetBatchError where
  | nilCriterion
  | nilTag
  | invalidTag (e : TagError)
  | query (e : SqlError)
  deriving DecidableEq, Repr

def validateQueryTag : Option ReadTag → Except GetBatchError Unit
  | none => .error .nilTag
  | some tag => match validateTag tag with
    | .error e => .error (.invalidTag e)
    | .ok () => .ok ()

def validateQueryCriterion : Option Criterion → Except GetBatchError Unit
  | none => .error .nilCriterion
  | some criterion => criterion.tags.forM validateQueryTag

def validateQuery : Option Query → Except GetBatchError Unit
  | none => .ok ()
  | some query => query.criteria.forM validateQueryCriterion

def encodeQueryCriteria : Option Query → List EncodedCriterion
  | none => []
  | some query => (query.criteria.filterMap id).map fun c => encodeCriterion (c.tags.filterMap id)

def EventRow.readable (xmin : ℤ) (row : EventRow) : Bool := row.pgXactId.all fun v => v < xmin

/-- `criteria_sql`: some criterion holds; without any the condition is `TRUE`. -/
def criteriaSelect (parts : List (List SqlPart)) (data : Json) : Bool :=
  parts.isEmpty || parts.any fun part => selects part data

def getMatchingEventsV4 (events : List EventRow) (xmin : ℤ) (criteria : List EncodedCriterion)
    (afterPosition : Option Position) (sortDir : Direction) (maxCount : ℕ) :
    Except SqlError (List EventRow) := do
  let parts ← (criteria.filter (·.fields ≠ [])).mapM orisunCriterionSql
  let rows := events.filter fun row =>
    criteriaSelect parts row.data && (sortDir != .asc || row.readable xmin) &&
      afterPosition.all fun p => sortDir.before p row.position
  return (rows.mergeSort fun r r' => sortDir.before r.position r'.position).take
    (min (max maxCount 1) 10000)

/-- One read; `xmin` is that of its snapshot. -/
def getBatch (events : List EventRow) (xmin : ℤ) (query : Option Query) (req : GetEventsRequest) :
    Except GetBatchError (List EventRow) := do
  validateQuery query
  let count := if req.count = 0 then defaultReadBatchSize else min req.count maxReadBatchSize
  match getMatchingEventsV4 events xmin (encodeQueryCriteria query) req.fromPosition
      req.direction count with
  | .error e => .error (.query e)
  | .ok rows => .ok rows

end Orisun.Postgres
