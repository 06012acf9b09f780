import Orisun.Json
import Orisun.Position

/-!
# Criteria

A criterion is a conjunction of tags and a query a disjunction of criteria. `encodeCriterion` is
the durable form: one entry per key, a lone equality as its value and anything else as the list of
the key's predicates.
-/

namespace Orisun

structure ReadTag where
  key : String
  value : String
  operator : String
  deriving DecidableEq, Repr

structure ReadCriterion where
  tags : List ReadTag
  deriving DecidableEq, Repr

/-- A query observation: its criteria are ORed and stood at the position. -/
structure ConsistencyCheck where
  criteria : List ReadCriterion
  position : Position
  deriving DecidableEq, Repr

inductive TagOperator where
  | eq | ne | gt | gte | lt | lte
  deriving DecidableEq, Repr

/-- The operator a tag names; `none` where it names no operator. -/
def canonicalTagOperator : String → Option TagOperator
  | "" => some .eq
  | "eq" => some .eq
  | "ne" => some .ne
  | "gt" => some .gt
  | "gte" => some .gte
  | "lt" => some .lt
  | "lte" => some .lte
  | _ => none

inductive TagError where
  | emptyKey
  | containsNul
  | unsupportedOperator (operator : String)
  deriving DecidableEq, Repr

def containsNul (s : String) : Bool := s.toList.contains '\x00'

def validateTag (tag : ReadTag) : Except TagError Unit :=
  if tag.key = "" then .error .emptyKey
  else if containsNul tag.key || containsNul tag.value then .error .containsNul
  else if (canonicalTagOperator tag.operator).isNone then
    .error (.unsupportedOperator tag.operator)
  else .ok ()

def validateReadCriteria (criteria : List ReadCriterion) : Except TagError Unit :=
  criteria.forM fun criterion => criterion.tags.forM validateTag

/-- One comparison with a field that the enclosing criterion names. -/
structure TagPredicate where
  operator : String
  value : String
  deriving DecidableEq, Repr

inductive TagField where
  | scalar (value : String)
  | predicates (ps : List TagPredicate)
  deriving DecidableEq, Repr

structure EncodedCriterion where
  fields : List (String × TagField)
  ordered : Fields.Ordered fields
  deriving DecidableEq

/-- The predicates on each key, in the order of the tags. -/
def tagFields (tags : List ReadTag) : List (String × List TagPredicate) :=
  tags.foldl (fun fields tag =>
    let op := if tag.operator = "" then "eq" else tag.operator
    Fields.insert tag.key ((fields.lookup tag.key).getD [] ++ [⟨op, tag.value⟩]) fields) []

def encodeField : List TagPredicate → TagField
  | [⟨"eq", value⟩] => .scalar value
  | ps => .predicates ps

theorem tagFields_ordered (tags : List ReadTag) : Fields.Ordered (tagFields tags) := by
  have h : ∀ (fields : List (String × List TagPredicate)), Fields.Ordered fields →
      Fields.Ordered (tags.foldl (fun fields tag =>
        let op := if tag.operator = "" then "eq" else tag.operator
        Fields.insert tag.key ((fields.lookup tag.key).getD [] ++ [⟨op, tag.value⟩]) fields)
        fields) := by
    induction tags with
    | nil => exact fun fields h => h
    | cons tag tags ih => exact fun fields h => ih _ (Fields.ordered_insert _ _ h)
  exact h [] .nil

def encodeCriterion (tags : List ReadTag) : EncodedCriterion :=
  ⟨(tagFields tags).map fun f => (f.1, encodeField f.2), (tagFields_ordered tags).map _⟩

def encodeReadCriteria (criteria : List ReadCriterion) : List EncodedCriterion :=
  criteria.map fun criterion => encodeCriterion criterion.tags

/-- The durable form of a check: its complete query with the position it stood at. -/
structure Observation where
  criteria : List EncodedCriterion
  position : Position
  deriving DecidableEq

def storedObservation (check : ConsistencyCheck) : Observation :=
  ⟨encodeReadCriteria check.criteria, check.position⟩

structure WriteRow where
  writeId : ℤ
  consistency : List Observation
  deriving DecidableEq

def marshalConsistency (checks : List ConsistencyCheck) : Except TagError (List Observation) := do
  checks.forM fun check => validateReadCriteria check.criteria
  return checks.map storedObservation

namespace TagPredicate

def toJson (p : TagPredicate) : Json :=
  .object [("value", .string p.value), ("operator", .string p.operator)]

end TagPredicate

namespace TagField

def toJson : TagField → Json
  | scalar value => .string value
  | predicates ps => .array (ps.map TagPredicate.toJson)

end TagField

namespace EncodedCriterion

def keys (c : EncodedCriterion) : List String := c.fields.map Prod.fst

def toJson (c : EncodedCriterion) : Json := .object (c.fields.map fun f => (f.1, f.2.toJson))

def text (c : EncodedCriterion) : String := c.toJson.text

def isScalar (c : EncodedCriterion) : Bool :=
  c.fields.all fun f => match f.2 with
    | .scalar _ => true
    | .predicates _ => false

end EncodedCriterion

end Orisun
