import Orisun.LatestBatch
import Orisun.Sqlite.GroupCommit

/-!
# Reading the latest matches

One lookup per criterion, all inside one deferred read transaction and so on one snapshot.
-/

namespace Orisun.Sqlite

inductive ReadError where
  | invalidTag (e : TagError)
  | noCriteria
  | noTags
  | invalidCriteria (e : CriteriaError)
  | lookup (e : JsonPath.PathError)
  deriving DecidableEq, Repr

def lookupCriterion (fns : JsonFunctions) (events : List EventRow) (batch : LatestByCriteriaBatch)
    (criterion : ReadCriterion × ℕ) : Except ReadError LatestByCriteriaBatch :=
  let anded := encodeCriterion criterion.1.tags
  if anded.fields.length = 0 then .error .noTags
  else match buildCriteriaSQL anded with
    | .error e => .error (.invalidCriteria e)
    | .ok parts => match latestRow fns events parts with
      | .error e => .error (.lookup e)
      | .ok (some p) => .ok (batch.add (criterion.2, p))
      | .ok none => .ok batch

def getLatestByCriteria (fns : JsonFunctions) (t : Tables) (criteria : List ReadCriterion) :
    Except ReadError LatestByCriteriaBatch :=
  match validateReadCriteria criteria with
  | .error e => .error (.invalidTag e)
  | .ok () =>
    if criteria.length = 0 then .error .noCriteria
    else criteria.zipIdx.foldlM (lookupCriterion fns t.events) (.empty criteria.length)

end Orisun.Sqlite
