import Orisun.Lib.SqlText
import Orisun.Sqlite.Indexes
import Orisun.Sqlite.Predicate

/-!
# The text of the criteria

`buildCriteriaSQL` inlines keys and values as literals into the text of a statement's condition.
`whereExpr` is the expression that is meant, with a key or a value in string literals only.
-/

namespace Orisun.Sqlite.CriteriaText

open SqlText (Expr Token chain)

def tagSQLOperator : TagOperator → String
  | .eq => "="
  | .ne => "<>"
  | .gt => ">"
  | .gte => ">="
  | .lt => "<"
  | .lte => "<="

def orderText (path expr op lit : String) : String :=
  "(CASE json_type(data, " ++ path ++ ") WHEN 'text' THEN (" ++ expr ++ " COLLATE BINARY " ++ op ++
    " " ++ lit ++ ") WHEN 'integer' THEN (orisun_compare_number(data -> " ++ path ++ ", " ++ lit ++
    ") " ++ op ++ " 0) WHEN 'real' THEN (orisun_compare_number(data -> " ++ path ++ ", " ++ lit ++
    ") " ++ op ++ " 0) ELSE 0 END)"

/-- One comparison of `renderCriterionPredicate`. -/
def renderTagPredicate (key : String) (p : TagPredicate) : Except CriteriaError String :=
  match canonicalTagOperator p.operator with
  | none => .error (.unsupportedOperator p.operator)
  | some op =>
    match sqlValueLiteral p.value with
    | none => .error .valueNul
    | some lit =>
      if op = .eq ∨ op = .ne then
        .ok (sqliteJSONScalarTextExpr key ++ " " ++ tagSQLOperator op ++ " " ++ lit)
      else
        .ok (orderText (jsonPathLiteral key) (sqliteJSONScalarTextExpr key) (tagSQLOperator op) lit)

def renderCriterionPredicate (key : String) : TagField → Except CriteriaError String
  | .scalar value =>
    match sqlValueLiteral value with
    | none => .error (.keyNul key)
    | some lit => .ok (sqliteJSONScalarTextExpr key ++ " = " ++ lit)
  | .predicates ps => do
    let parts ← ps.mapM (renderTagPredicate key)
    return "(" ++ join " AND " parts ++ ")"

def sortedFields (c : EncodedCriterion) : List (String × TagField) :=
  c.fields.mergeSort fun f g => decide (f.1 ≤ g.1)

def criterionText (c : EncodedCriterion) : Except CriteriaError (Option String) := do
  let andParts ← (sortedFields c).mapM fun f => renderCriterionPredicate f.1 f.2
  return if andParts.isEmpty then none else some ("(" ++ join " AND " andParts ++ ")")

def buildCriteriaSQL (criteria : List EncodedCriterion) : Except CriteriaError String := do
  let orParts := (← criteria.mapM criterionText).filterMap id
  return if orParts.isEmpty then "1" else join " OR " orParts

def orderTag : OrderOperator → TagOperator
  | .gt => .gt
  | .gte => .gte
  | .lt => .lt
  | .lte => .lte

def partText : SqlPart → String
  | .equal key value => sqliteJSONScalarTextExpr key ++ " = " ++ sqlEscapeLiteral value
  | .notEqual key value => sqliteJSONScalarTextExpr key ++ " <> " ++ sqlEscapeLiteral value
  | .order key op value =>
    orderText (jsonPathLiteral key) (sqliteJSONScalarTextExpr key) (tagSQLOperator (orderTag op))
      (sqlEscapeLiteral value)

/-- The path that `jsonPathLiteral` is a literal of. -/
def pathText (key : String) : List Char := ("$.\"" ++ doubled '"' key ++ "\"").toList

def pathExpr (key : String) : Expr := .string (pathText key)

def data : Expr := .word "data".toList

def typeExpr (key : String) : Expr := .call "json_type".toList [data, pathExpr key]

def scalarExpr (key : String) : Expr :=
  .caseOf (typeExpr key)
    [(.string "true".toList, .string "true".toList),
      (.string "false".toList, .string "false".toList)]
    (some (.cast (.call "json_extract".toList [data, pathExpr key]) (.word "TEXT".toList)))

def orderOperator : OrderOperator → SqlText.BinaryOperator
  | .gt => .gt
  | .gte => .ge
  | .lt => .lt
  | .lte => .le

def zero : Expr := .word "0".toList

def numberExpr (key : String) (op : OrderOperator) (target : String) : Expr :=
  .paren (.binary (orderOperator op)
    (.call "orisun_compare_number".toList
      [.binary .arrow data (pathExpr key), .string target.toList]) zero)

def partExpr : SqlPart → Expr
  | .equal key target => .binary .eq (scalarExpr key) (.string target.toList)
  | .notEqual key target => .binary .ne (scalarExpr key) (.string target.toList)
  | .order key op target =>
    .paren (.caseOf (typeExpr key)
      [(.string "text".toList, .paren (.binary (orderOperator op)
          (.binary .collate (scalarExpr key) (.word "BINARY".toList)) (.string target.toList))),
        (.string "integer".toList, numberExpr key op target),
        (.string "real".toList, numberExpr key op target)]
      (some zero))

def predicatePart (key : String) (p : TagPredicate) : SqlPart :=
  ((canonicalTagOperator p.operator).getD .eq).part key p.value

def fieldParts (key : String) : TagField → List SqlPart
  | .scalar value => [.equal key value]
  | .predicates ps => ps.map (predicatePart key)

/-- A field with a list of predicates is in parentheses of its own. -/
def fieldExpr (key : String) : TagField → Expr
  | .scalar value => partExpr (.equal key value)
  | .predicates ps => .paren (chain .and (ps.map fun p => partExpr (predicatePart key p)))

def criterionExpr (fields : List (String × TagField)) : Expr :=
  .paren (chain .and (fields.map fun f => fieldExpr f.1 f.2))

def disjunctionExpr : List Expr → Expr
  | [] => .word "1".toList
  | es => chain .or es

/-- The expression of the criteria, each as its fields in order. -/
def whereExpr (criteria : List (List (String × TagField))) : Expr :=
  disjunctionExpr ((criteria.filter (!·.isEmpty)).map criterionExpr)

def tagPart (t : ReadTag) : SqlPart :=
  ((canonicalTagOperator t.operator).getD .eq).part t.key t.value

/-- The expression is the conjunction of the comparisons. -/
inductive Conjunction : Expr → List SqlPart → Prop
  | part (p : SqlPart) : Conjunction (partExpr p) [p]
  | and {l r : Expr} {ps qs : List SqlPart} (hl : Conjunction l ps) (hr : Conjunction r qs) :
    Conjunction (.binary .and l r) (ps ++ qs)
  | paren {e : Expr} {ps : List SqlPart} (h : Conjunction e ps) : Conjunction (.paren e) ps

/-- The expression is the disjunction of conjunctions in parentheses. -/
inductive Disjunction : Expr → List (List SqlPart) → Prop
  | one {e : Expr} {ps : List SqlPart} (h : Conjunction e ps) : Disjunction (.paren e) [ps]
  | or {l r : Expr} {pss : List (List SqlPart)} {ps : List SqlPart} (hl : Disjunction l pss)
    (hr : Conjunction r ps) : Disjunction (.binary .or l (.paren r)) (pss ++ [ps])

def textFields (criteria : List ReadCriterion) : List (List (String × TagField)) :=
  (encodeReadCriteria criteria).map sortedFields

def blankField : String × TagField → String × TagField
  | (_, .scalar _) => ("", .scalar "")
  | (_, .predicates ps) => ("", .predicates (ps.map fun p => ⟨p.operator, ""⟩))

end Orisun.Sqlite.CriteriaText
