import Orisun.Number
import Orisun.SqlPart

/-!
# The predicate `orisun_criterion_sql` renders

Reads, latest observations, persisted checks and the matching of a batch's own events all use the
text this one function renders. A part of the text is one comparison of a field, its value is SQL's
three-valued truth, and the parts are joined by `AND`.
-/

namespace Orisun.Postgres

inductive SqlError where
  | raise (message : String)
  | invalidTextRepresentation
  | indexExpression
  | notNullViolation
  | uniqueViolation
  | sequenceLimit
  | numericOutOfRange
  deriving DecidableEq, Repr

/-- The comparison's value on a document, `none` for `NULL`. -/
def evalPart (data : Json) : SqlPart → Option Bool
  | .equal key target => (data.getText? key).map (· == target)
  | .notEqual key target => (data.getText? key).map (· != target)
  | .order key op target =>
    match (data.get? key).map Json.typeof with
    | some "string" => (data.getText? key).map fun s => op.holds (compareText s target)
    | some "number" =>
      (data.getText? key).bind fun s => (orisunCompareNumber s target).map op.holds
    | _ => some false

/-- `WHERE` and `CASE WHEN` take a row only where the text is true. -/
def selects (parts : List SqlPart) (data : Json) : Bool :=
  Ternary.all (parts.map (evalPart data)) == some true

def renderPredicate (key : String) (p : TagPredicate) : Except SqlError SqlPart :=
  let operatorName := if p.operator = "" then "eq" else p.operator
  match operatorName with
  | "eq" => .ok (.equal key p.value)
  | "ne" => .ok (.notEqual key p.value)
  | "gt" => .ok (.order key .gt p.value)
  | "gte" => .ok (.order key .gte p.value)
  | "lt" => .ok (.order key .lt p.value)
  | "lte" => .ok (.order key .lte p.value)
  | _ => .error (.raise ("unsupported tag operator " ++ operatorName))

/-- The predicates a field stands for: a string is an equality. -/
def fieldPredicates : TagField → Except SqlError (List TagPredicate)
  | .scalar value => .ok [⟨"eq", value⟩]
  | .predicates [] => .error (.raise "invalid tag predicates")
  | .predicates ps => .ok ps

def isScalarField : TagField → Bool
  | .scalar _ => true
  | .predicates _ => false

def renderField (f : String × TagField) : Except SqlError (List SqlPart) := do
  (← fieldPredicates f.2).mapM (renderPredicate f.1)

/-- The parts of a criterion's text, those of plain equalities first. -/
def orisunCriterionSql (c : EncodedCriterion) : Except SqlError (List SqlPart) := do
  let fields := c.fields.filter (fun f => isScalarField f.2) ++
    c.fields.filter (fun f => !isScalarField f.2)
  return (← fields.mapM renderField).flatten

end Orisun.Postgres
