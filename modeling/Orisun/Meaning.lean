import Orisun.Criteria

/-!
# What a query means

Whatever a backend takes a single comparison to mean, a key's predicates are joined by `AND`, the
keys of a criterion by `AND`, and the criteria of a query by `OR`.
-/

namespace Orisun

structure Event where
  position : Position
  data : Json

namespace Meaning

abbrev TagHolds := TagOperator → String → String → Json → Bool

variable (tag : TagHolds)

def predicate (key : String) (p : TagPredicate) (data : Json) : Bool :=
  (canonicalTagOperator p.operator).any fun op => tag op key p.value data

def tags (ts : List ReadTag) (data : Json) : Bool :=
  ts.all fun t => (canonicalTagOperator t.operator).any fun op => tag op t.key t.value data

def field (key : String) (data : Json) : TagField → Bool
  | .scalar value => tag .eq key value data
  | .predicates ps => ps.all fun p => predicate tag key p data

def criterion (c : EncodedCriterion) (data : Json) : Bool :=
  c.fields.all fun f => field tag f.1 data f.2

def query (criteria : List EncodedCriterion) (data : Json) : Bool :=
  criteria.any fun c => criterion tag c data

end Meaning

end Orisun
