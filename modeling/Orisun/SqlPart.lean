import Orisun.Criteria
import Orisun.Lib.Ternary

/-!
# The comparisons both backends render

A criterion becomes a conjunction of comparisons of one field each. What a comparison means is the
backend's own; a row is taken where the conjunction is true.
-/

namespace Orisun

inductive OrderOperator where
  | gt | gte | lt | lte
  deriving DecidableEq, Repr

def OrderOperator.holds : OrderOperator → ℤ → Bool
  | gt, c => c > 0
  | gte, c => c ≥ 0
  | lt, c => c < 0
  | lte, c => c ≤ 0

/-- Text under `COLLATE "C"` or `COLLATE BINARY`: by bytes, as `String`'s order is. -/
def compareText (s t : String) : ℤ := if s < t then -1 else if t < s then 1 else 0

inductive SqlPart where
  | equal (key target : String)
  | notEqual (key target : String)
  | order (key : String) (op : OrderOperator) (target : String)
  deriving DecidableEq, Repr

/-- The key of the field a comparison is about. -/
def SqlPart.key : SqlPart → String
  | equal key _ => key
  | notEqual key _ => key
  | order key _ _ => key

def SqlPart.orderTarget? : SqlPart → Option String
  | .order _ _ target => some target
  | _ => none

def TagOperator.part (key target : String) : TagOperator → SqlPart
  | .eq => .equal key target
  | .ne => .notEqual key target
  | .gt => .order key .gt target
  | .gte => .order key .gte target
  | .lt => .order key .lt target
  | .lte => .order key .lte target

end Orisun
