import Orisun.Lib.Decimal
import Orisun.Lib.Utf8
import Orisun.Postgres.Input
import Orisun.Sqlite.Predicate

/-!
# Three comparisons of a field with a tag's value

`MatchTagValue` compares a field that Go has decoded, the SQLite predicate one of the stored text
and the PostgreSQL predicate one of `jsonb`, which keeps a number as `numeric`. What all of them
mean: a string compares by its bytes, a number by its decimal value, and nothing else by order.
-/

namespace Orisun

/-- The decimal value of a JSON number, `none` for another text. -/
def numberValue (token : String) : Option ℚ :=
  let s := token.toList
  if !jsonNumberPattern s then none
  else
    let negative := s.head? == some '-'
    let unsigned := if negative then s.tail else s
    let mantissa := unsigned.takeWhile fun c => c != 'e' && c != 'E'
    let exponent := exponentValue (unsigned.drop (mantissa.length + 1))
    let fraction := (mantissa.dropWhile (· != '.')).tail
    let magnitude := (digitsValue (mantissa.filter (· != '.')) : ℚ)
      * 10 ^ (exponent - (fraction.length : ℤ))
    some (if negative then -magnitude else magnitude)

/-- How a field compares with a value, a string by its bytes; `none` where it does not. -/
def compareField (field : Option Json) (target : String) : Option ℤ :=
  match field with
  | some (.string s) => some (Decimal.sign (Utf8.bytes s.toList) (Utf8.bytes target.toList))
  | some (.number token) => do
    let x ← numberValue token
    let y ← numberValue target
    return Decimal.sign x y
  | _ => none

def OrderOperator.Matches (op : OrderOperator) (field : Option Json) (target : String) : Bool :=
  (compareField field target).any op.holds

/-- A decoded field. A float is its shortest text, a container the text `%v` prints. -/
inductive GoValue where
  | nil
  | bool (b : Bool)
  | string (s : String)
  | number (token : String)
  | float64 (shortest : String)
  | int64 (n : ℤ)
  | container (printed : String)
  deriving DecidableEq, Repr

def eventTagEquals (value : GoValue) (target : String) : Bool :=
  match value with
  | .string s => s == target
  | .bool true => target == "true"
  | .bool false => target == "false"
  | .float64 shortest => shortest == target
  | .number token => token == target
  | .nil => target == "" || target == "null"
  | .int64 n => toString n == target
  | .container printed => printed == target

def compareTagValue (value : GoValue) (target : String) : Option ℤ :=
  match value with
  | .string s => some (compareText s target)
  | .number token => compareJSONNumbers token target
  | .float64 shortest => compareJSONNumbers shortest target
  | .int64 n => compareJSONNumbers (toString n) target
  | _ => none

def matchTagValue (value : GoValue) (target operator : String) : Bool :=
  match canonicalTagOperator operator with
  | none => false
  | some op =>
    if value = .nil then false
    else match op with
      | .eq => eventTagEquals value target
      | .ne => !eventTagEquals value target
      | .gt => (compareTagValue value target).any OrderOperator.gt.holds
      | .gte => (compareTagValue value target).any OrderOperator.gte.holds
      | .lt => (compareTagValue value target).any OrderOperator.lt.holds
      | .lte => (compareTagValue value target).any OrderOperator.lte.holds

/-- A field decoded with its number tokens kept; `printed` is what `%v` prints of a container. -/
def GoValue.ofField (printed : Json → String) : Option Json → GoValue
  | none => .nil
  | some .null => .nil
  | some (.bool b) => .bool b
  | some (.number token) => .number token
  | some (.string s) => .string s
  | some j => .container (printed j)

mutual

/-- The document of a text, its numbers kept as `number` does. -/
def documentIn (number : JsonNumber → Option String) : JsonText → Option Json
  | .null => some .null
  | .bool b => some (.bool b)
  | .number token => (number token).map .number
  | .string units => (Postgres.textIn units).map fun cs => .string (String.ofList cs)
  | .array items => (documentItemsIn number items).map .array
  | .object fields => (documentFieldsIn number fields).map fun fs => .object (Fields.concat [] fs)

def documentItemsIn (number : JsonNumber → Option String) : List JsonText → Option (List Json)
  | [] => some []
  | j :: js => (documentIn number j).bind fun j => (documentItemsIn number js).map (j :: ·)

def documentFieldsIn (number : JsonNumber → Option String) :
    List (List UInt16 × JsonText) → Option (List (String × Json))
  | [] => some []
  | (key, j) :: fields => (Postgres.textIn key).bind fun key => (documentIn number j).bind fun j =>
      (documentFieldsIn number fields).map ((String.ofList key, j) :: ·)

end

/-- SQLite keeps the text, and with it every number token. -/
def Sqlite.documentIn (text : JsonText) : Option Json :=
  Orisun.documentIn (fun token => some token.1) text

def PlainKey (key : String) : Prop := ∀ c ∈ key.toList, c ≠ '"' ∧ c ≠ '\\' ∧ c ≠ '\x00'

instance (key : String) : Decidable (PlainKey key) :=
  List.decidableBAll (fun c => c ≠ '"' ∧ c ≠ '\\' ∧ c ≠ '\x00') key.toList

/-- SQLite's JSON functions as documented: a quoted path selects the member of the key, and a value
is cast as its SQL value, which is the text of a string, the digits of an integer and `NULL` for
`null`. -/
structure Sqlite.JsonFunctions.Documented (fns : Sqlite.JsonFunctions) : Prop where
  lookup : ∀ (fields : List (String × Json)) (key : String), PlainKey key →
    fns.lookup (.object fields) key = .ok (fields.lookup key)
  null : fns.castText .null = none
  string : ∀ s, fns.castText (.string s) = some s
  integer : ∀ n : ℤ, -2 ^ 63 ≤ n → n < 2 ^ 63 → fns.castText (.number (toString n)) = some (toString n)

def TagOperator.name : TagOperator → String
  | eq => "eq"
  | ne => "ne"
  | gt => "gt"
  | gte => "gte"
  | lt => "lt"
  | lte => "lte"

def OrderOperator.tag : OrderOperator → TagOperator
  | gt => .gt
  | gte => .gte
  | lt => .lt
  | lte => .lte

/-- The text all three compare a string, a boolean or a canonical `int64` by. -/
inductive EqualityText : Json → String → Prop where
  | string (s : String) : EqualityText (.string s) s
  | bool (b : Bool) : EqualityText (.bool b) (toString b)
  | int64 (n : ℤ) (hlow : -2 ^ 63 ≤ n) (hhigh : n < 2 ^ 63) :
      EqualityText (.number (toString n)) (toString n)

namespace Postgres

/-- `orisun_compare_number` with the error a cast or a sum raises. -/
def orisunCompareNumberIn (a b : String) : Except SqlError (Option ℤ) :=
  if !jsonNumberPattern a.toList then .ok none
  else if !numericFits a then .error .numericOutOfRange
  else if !jsonNumberPattern b.toList then .ok none
  else if !numericFits b then .error .numericOutOfRange
  else .ok (orisunCompareNumber a b)

/-- `evalPart` with the errors of its comparison. -/
def evalPartIn (data : Json) : SqlPart → Except SqlError (Option Bool)
  | .order key op target =>
    match data.get? key with
    | some (.number token) => (orisunCompareNumberIn token target).map fun c => c.map op.holds
    | _ => .ok (evalPart data (.order key op target))
  | part => .ok (evalPart data part)

def selectsIn (parts : List SqlPart) (data : Json) : Except SqlError Bool :=
  (parts.mapM (evalPartIn data)).map fun values => Ternary.all values == some true

end Postgres

/-- The criterion of one tag selects the documents of a text on both backends as `MatchTagValue`
matches the decoded field: where `b` says. -/
structure Agree (fns : Sqlite.JsonFunctions) (printed : Json → String) (sq pg : Json)
    (key target : String) (op : TagOperator) (b : Bool) : Prop where
  sqlite : ∃ parts, Sqlite.buildCriteriaSQL (encodeCriterion [⟨key, target, op.name⟩]) = .ok parts ∧
    Sqlite.selects fns parts sq = b
  postgres : ∃ parts,
    Postgres.orisunCriterionSql (encodeCriterion [⟨key, target, op.name⟩]) = .ok parts ∧
      Postgres.selectsIn parts pg = .ok b
  go : matchTagValue (GoValue.ofField printed (sq.get? key)) target op.name = b

end Orisun
