import Orisun.Lib.JsonPath
import Orisun.Sqlite.CriteriaText

/-!
# What the text of a tag is evaluated on

SQLite evaluates the expression on a document, and finds a field by the path in it. A malformed step
that the path comes to is an error of the statement; a path that leads nowhere is `NULL`.
-/

namespace Orisun.Sqlite

open SqlText (Expr BinaryOperator)

inductive Value where
  | null
  | integer (n : ℤ)
  | text (s : String)
  /-- The document, or a value of it before it is cast. -/
  | json (j : Json)

def Value.ofTruth : Option Bool → Value
  | none => .null
  | some b => .integer (if b then 1 else 0)

def Value.truth : Value → Option (Option Bool)
  | .null => some none
  | .integer n => some (some (n ≠ 0))
  | _ => none

/-- `=`; values of different types are not equal. -/
def Value.equal : Value → Value → Option (Option Bool)
  | .null, _ | _, .null => some none
  | .integer a, .integer b => some (some (a == b))
  | .text a, .text b => some (some (a == b))
  | .integer _, .text _ | .text _, .integer _ => some (some false)
  | _, _ => none

/-- The order of values, as the sign of the result; an integer is before every text. -/
def Value.compare : Value → Value → Option (Option ℤ)
  | .null, _ | _, .null => some none
  | .integer a, .integer b => some (some (a - b))
  | .text a, .text b => some (some (compareText a b))
  | .integer _, .text _ => some (some (-1))
  | .text _, .integer _ => some (some 1)
  | _, _ => none

def jsonType : Json → String
  | .null => "null"
  | .bool b => if b then "true" else "false"
  | .number token =>
    if token.toList.all fun c => c != '.' && c != 'e' && c != 'E' then "integer" else "real"
  | .string _ => "text"
  | .array _ => "array"
  | .object _ => "object"

def onPath (j : Json) (path : String) (f : Json → Value) : Option Value :=
  match JsonPath.walk access j path.toList with
  | .ok v => some ((v.map f).getD .null)
  | .error _ => none

def callFunction (name : List Char) (args : List Value) : Option Value :=
  match args with
  | [.json j, .text path] =>
    if name = "json_type".toList then onPath j path fun v => .text (jsonType v)
    else if name = "json_extract".toList then onPath j path .json
    else none
  | [a, .text target] =>
    if name = "orisun_compare_number".toList then
      match a with
      | .null => some .null
      | .text token => some (((compareJSONNumbers token target).map .integer).getD .null)
      | _ => none
    else none
  | _ => none

def applyOperator (op : BinaryOperator) (a b : Value) : Option Value :=
  let ordered (op : OrderOperator) : Option Value :=
    (a.compare b).map fun c => .ofTruth (c.map op.holds)
  match op with
  | .or => a.truth.bind fun p => b.truth.map fun q => .ofTruth (Ternary.or p q)
  | .and => a.truth.bind fun p => b.truth.map fun q => .ofTruth (Ternary.and p q)
  | .eq => (a.equal b).map .ofTruth
  | .ne => (a.equal b).map fun c => .ofTruth (c.map (!·))
  | .lt => ordered .lt
  | .le => ordered .lte
  | .gt => ordered .gt
  | .ge => ordered .gte
  | .arrow =>
    match a, b with
    | .json j, .text path => onPath j path fun v => .text v.text
    | _, _ => none
  | .collate => none

section Eval

variable (castText : Json → Option String) (doc : Json)

def evalWord (text : List Char) : Option Value :=
  if text = "data".toList then some (.json doc)
  else if text = "0".toList then some (.integer 0)
  else if text = "1".toList then some (.integer 1)
  else none

def castValue : Value → Value
  | .json j => ((castText j).map .text).getD .null
  | .integer n => .text (toString n)
  | v => v

mutual

/-- The expression's value; none is an error of the statement. -/
def eval : Expr → Option Value
  | .word text => evalWord doc text
  | .string content => some (.text (String.ofList content))
  | .paren e => eval e
  | .call name args => (evalArgs args).bind (callFunction name)
  | .cast e (.word type) =>
    if type = "TEXT".toList then (eval e).map (castValue castText) else none
  | .cast _ _ => none
  | .caseOf e arms otherwise => (eval e).bind fun v => evalArms v (evalOtherwise otherwise) arms
  | .binary .collate e (.word name) => if name = "BINARY".toList then eval e else none
  | .binary op left right =>
    (eval left).bind fun a => (eval right).bind fun b => applyOperator op a b

def evalArgs : List Expr → Option (List Value)
  | [] => some []
  | e :: es => (eval e).bind fun v => (evalArgs es).map (v :: ·)

def evalArms (v : Value) (otherwise : Option Value) : List (Expr × Expr) → Option Value
  | [] => otherwise
  | (value, e) :: arms =>
    (eval value).bind fun w => (v.equal w).bind fun b =>
      if b = some true then eval e else evalArms v otherwise arms

def evalOtherwise : Option Expr → Option Value
  | none => some .null
  | some e => eval e

end

variable {castText doc}

theorem eval_word (text : List Char) : eval castText doc (.word text) = evalWord doc text := rfl

theorem eval_literal (content : List Char) :
    eval castText doc (.string content) = some (.text (String.ofList content)) := rfl

theorem eval_paren (e : Expr) : eval castText doc (.paren e) = eval castText doc e := rfl

theorem eval_call (name : List Char) (args : List Expr) :
    eval castText doc (.call name args)
      = (evalArgs castText doc args).bind (callFunction name) := rfl

theorem eval_cast (e : Expr) : eval castText doc (.cast e (.word "TEXT".toList))
    = (eval castText doc e).map (castValue castText) := if_pos rfl

theorem eval_caseOf (e : Expr) (arms : List (Expr × Expr)) (otherwise : Option Expr) :
    eval castText doc (.caseOf e arms otherwise)
      = (eval castText doc e).bind fun v =>
        evalArms castText doc v (evalOtherwise castText doc otherwise) arms := rfl

theorem eval_collate (e : Expr) :
    eval castText doc (.binary .collate e (.word "BINARY".toList)) = eval castText doc e :=
  if_pos rfl

theorem eval_binary {op : BinaryOperator} (hop : op ≠ .collate) (l r : Expr) :
    eval castText doc (.binary op l r)
      = (eval castText doc l).bind fun a => (eval castText doc r).bind fun b =>
        applyOperator op a b := by
  cases op <;> first | rfl | exact absurd rfl hop

theorem evalArgs_pair (a b : Expr) : evalArgs castText doc [a, b]
    = (eval castText doc a).bind fun v => (eval castText doc b).map fun w => [v, w] := by
  change ((eval castText doc a).bind fun v =>
    ((eval castText doc b).bind fun w => some [w]).map (v :: ·)) = _
  rcases eval castText doc a with _ | v
  · rfl
  · rcases eval castText doc b with _ | w <;> rfl

theorem evalArms_nil (v : Value) (otherwise : Option Value) :
    evalArms castText doc v otherwise [] = otherwise := rfl

theorem evalArms_cons (v : Value) (otherwise : Option Value) (value e : Expr)
    (arms : List (Expr × Expr)) : evalArms castText doc v otherwise ((value, e) :: arms)
      = (eval castText doc value).bind fun w => (v.equal w).bind fun b =>
        if b = some true then eval castText doc e else evalArms castText doc v otherwise arms := rfl

theorem evalOtherwise_some (e : Expr) :
    evalOtherwise castText doc (some e) = eval castText doc e := rfl

end Eval

def evalText (castText : Json → Option String) (doc : Json) (text : String) : Option Value :=
  (SqlText.tokens text.toList).bind fun ts => (SqlText.expression ts).bind (eval castText doc)

/-- The functions that find the root member with the key's name. -/
def atKey (castText : Json → Option String) : JsonFunctions where
  lookup data key := .ok (data.get? key)
  castText := castText
  visits _ _ := []
  visits_mem := noVisits_mem

/-- The lookups follow the keys' paths; the plan is left open. -/
def JsonFunctions.OnPaths (fns : JsonFunctions) : Prop :=
  ∀ data key, fns.lookup data key = (onPaths fns.castText).lookup data key

/-- No key of the query has a quote or a backslash. -/
def PlainQuery (criteria : List ReadCriterion) : Prop :=
  ∀ c ∈ criteria, ∀ t ∈ c.tags, '"' ∉ t.key.toList ∧ '\\' ∉ t.key.toList

end Orisun.Sqlite
