import Orisun.Lib.Slice
import Orisun.Sqlite.CriteriaText
import Orisun.Sqlite.Consistency

/-!
# The lookup by a whole query's predicate

What `latestCriteriaQueries` takes apart: one statement with the disjunction `buildCriteriaSQL`
renders for the whole list, whose rows are read in descending order.
-/

namespace Orisun.Sqlite

/-- The paths of the query's keys come to no malformed step on a stored document. -/
def Followed (fns : JsonFunctions) (events : List EventRow) (criteria : List ReadCriterion) : Prop :=
  ∀ row ∈ events, ∀ c ∈ criteria, ∀ t ∈ c.tags, (fns.lookup row.data t.key).isOk = true

end Orisun.Sqlite
