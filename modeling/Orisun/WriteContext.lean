import Orisun.Number
import Orisun.Observations

/-!
# Write contexts

The observations a save was checked against are stored with it as JSON, under the last position of
the save, and can be read back by the id its events carry. A write id is the text of the complete
final position.
-/

namespace Orisun

structure WriteContext where
  writeId : String
  consistency : List ConsistencyObservation
  deriving DecidableEq, Repr

structure GetWriteContextRequest where
  boundary : String
  writeId : String
  deriving DecidableEq, Repr

def Observation.toJson (o : Observation) : Json :=
  .object
    [("query", .object [("criteria", .array (o.criteria.map EncodedCriterion.toJson))]),
     ("position", .object [("global_id", .number (toString o.position.preparePosition)),
       ("transaction_id", .number (toString o.position.commitPosition))])]

def consistencyJson (observations : List Observation) : Json :=
  .array (observations.map Observation.toJson)

inductive DecodeError where
  | unmarshal
  | invalidPredicates
  | emptyPredicates
  | invalidTag (e : TagError)
  deriving DecidableEq, Repr

def readDigits (ds : List Char) : Option ℕ :=
  if ds.isEmpty || !ds.all isDigit then none else some (digitsValue ds)

def readInt (s : String) : Option ℤ :=
  match s.toList with
  | '-' :: ds => (readDigits ds).map fun n => -(n : ℤ)
  | '+' :: ds => (readDigits ds).map fun n => (n : ℤ)
  | ds => (readDigits ds).map fun n => (n : ℤ)

/-- A member of an object that is decoded into a struct; a missing one is left as it is. -/
def decodeMember {α : Type} (fields : List (String × Json)) (key : String) (default : α)
    (decode : Json → Except DecodeError α) : Except DecodeError α :=
  match fields.lookup key with
  | none => .ok default
  | some .null => .ok default
  | some value => decode value

def decodeString : Json → Except DecodeError String
  | .string s => .ok s
  | _ => .error .unmarshal

/-- An `int64` that was printed. -/
def decodeInt : Json → Except DecodeError ℤ
  | .number token => match readInt token with
    | some n => .ok n
    | none => .error .unmarshal
  | _ => .error .unmarshal

def decodeObject : Json → Except DecodeError (List (String × Json))
  | .object fields => .ok fields
  | .null => .ok []
  | _ => .error .unmarshal

def decodeArray : Json → Except DecodeError (List Json)
  | .array items => .ok items
  | .null => .ok []
  | _ => .error .unmarshal

def decodeTagPredicate (value : Json) : Except DecodeError TagPredicate := do
  let fields ← decodeObject value
  return ⟨← decodeMember fields "operator" "" decodeString,
    ← decodeMember fields "value" "" decodeString⟩

def decodeTagPredicates : Json → Except DecodeError (List TagPredicate)
  | .string text => .ok [⟨"eq", text⟩]
  | value =>
    match (decodeArray value).bind fun items => items.mapM decodeTagPredicate with
    | .error _ => .error .invalidPredicates
    | .ok predicates => if predicates = [] then .error .emptyPredicates else .ok predicates

def decodeTag (key : String) (predicate : TagPredicate) : Except DecodeError ReadTag :=
  match validateTag ⟨key, predicate.value, predicate.operator⟩ with
  | .error e => .error (.invalidTag e)
  | .ok () =>
    .ok ⟨key, predicate.value, if predicate.operator = "eq" then "" else predicate.operator⟩

def decodeField (field : String × Json) : Except DecodeError (List ReadTag) := do
  let predicates ← decodeTagPredicates field.2
  predicates.mapM (decodeTag field.1)

def decodeCriterion (fields : List (String × Json)) : Except DecodeError (List ReadTag) := do
  let tags ← (fields.mergeSort fun a b => decide (a.1 ≤ b.1)).mapM decodeField
  return tags.flatten

structure StoredConsistencyObservation where
  criteria : List (List (String × Json))
  transactionId : ℤ
  globalId : ℤ

def decodeStoredObservation (value : Json) : Except DecodeError StoredConsistencyObservation := do
  let fields ← decodeObject value
  let query ← decodeMember fields "query" [] decodeObject
  let criteria ← decodeMember query "criteria" [] decodeArray
  let position ← decodeMember fields "position" [] decodeObject
  return ⟨← criteria.mapM decodeObject, ← decodeMember position "transaction_id" 0 decodeInt,
    ← decodeMember position "global_id" 0 decodeInt⟩

def decodeObservation (o : StoredConsistencyObservation) :
    Except DecodeError ConsistencyObservation := do
  let criteria ← o.criteria.mapM decodeCriterion
  return .of (criteria.map fun tags => ⟨tags⟩) ⟨o.transactionId, o.globalId⟩

def decodeWriteContext (writeId : String) (data : Json) : Except DecodeError WriteContext := do
  let stored ← (← decodeArray data).mapM decodeStoredObservation
  return ⟨writeId, ← stored.mapM decodeObservation⟩

inductive WriteContextError where
  | invalidRequest
  | unknownBoundary (boundary : String)
  | notFound
  | internal (e : DecodeError)
  deriving DecidableEq, Repr

/-- The code of the error is `InvalidArgument` or `NotFound`. -/
def WriteContextError.isRefusal : WriteContextError → Bool
  | internal _ => false
  | _ => true

/-- `strconv.ParseInt` of an `int64`. -/
def parseInt (s : String) : Option ℤ :=
  (readInt s).filter fun n => decide (-2 ^ 63 ≤ n ∧ n < 2 ^ 63)

def splitColon (s : String) : Option (String × String) :=
  let first := s.toList.takeWhile (· != ':')
  match s.toList.drop first.length with
  | ':' :: second =>
    if ':' ∈ second then none else some (String.ofList first, String.ofList second)
  | _ => none

def validateWriteContextRequest (req : GetWriteContextRequest) :
    Except WriteContextError Position :=
  if req.boundary = "" then .error .invalidRequest
  else match splitColon req.writeId with
    | none => .error .invalidRequest
    | some (first, second) =>
      match parseInt first, parseInt second with
      | some commit, some prepare =>
        if commit < 0 ∨ prepare < 0 ∨ writeIdText commit prepare ≠ req.writeId
        then .error .invalidRequest
        else .ok ⟨commit, prepare⟩
      | _, _ => .error .invalidRequest

/-- The rows of the query: the writes joined with the events at their ids, `id` being that of the
write and the event's commit. -/
def contextRows (writes : List WriteRow) (positions : List Position) (id : Position) :
    List (List Observation) :=
  writes.flatMap fun w => (positions.filter fun p =>
    p.preparePosition = w.writeId ∧ w.writeId = id.preparePosition ∧
      p.commitPosition = id.commitPosition).map fun _ => w.consistency

/-- `GetWriteContext` over the query for a position, `none` where it returns no row. -/
def getWriteContext {σ : Type} (registry : String → Option σ)
    (query : σ → Position → Option (List Observation)) (req : GetWriteContextRequest) :
    Except WriteContextError WriteContext := do
  let id ← validateWriteContextRequest req
  match registry req.boundary with
  | none => .error (.unknownBoundary req.boundary)
  | some store =>
    match query store id with
    | none => .error .notFound
    | some observations =>
      match decodeWriteContext req.writeId (consistencyJson observations) with
      | .error e => .error (.internal e)
      | .ok context => .ok context

end Orisun
