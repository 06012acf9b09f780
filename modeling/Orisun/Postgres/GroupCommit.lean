import Mathlib.Data.List.Infix
import Orisun.Lib.Assembly

/-!
# The outcomes of a batch

`executeBatch` calls the insert function once and reads its rows to their end. Any row can fail to
be scanned, and the rows can end with an error; the outcomes are returned only after that.
-/

namespace Orisun.Postgres.GroupCommit

open Assembly

/-- A row of the result; a column that is NULL is `none`. -/
structure SqlRow where
  requestIndex : Option ℤ
  newGlobalId : Option ℤ
  transactionId : Option ℤ
  globalId : Option ℤ
  errorCode : Option String
  errorMessage : Option String
  deriving DecidableEq, Repr

/-- What is read until the rows end: each row, or why it cannot be scanned, and how they end. -/
structure Rows where
  rows : List (Except String SqlRow)
  err : Option String
  deriving DecidableEq

inductive Code where
  | alreadyExists | internal
  deriving DecidableEq, Repr

structure SaveError where
  code : Code
  message : String
  deriving DecidableEq, Repr

/-- `mapSaveError` of an error without a code. -/
def mapSaveError (message : String) : SaveError :=
  if "OptimisticConcurrencyException".toList <:+: message.toList then ⟨.alreadyExists, message⟩
  else ⟨.internal, "failed to insert events: " ++ message⟩

structure PostgresSaveResult where
  transactionID : String
  globalID : ℤ
  err : Option SaveError
  deriving DecidableEq, Repr

def PostgresSaveResult.zero : PostgresSaveResult := ⟨"", 0, none⟩

inductive BatchError where
  | noSchema (boundary : String)
  | marshal (err : String)
  | query (err : String)
  | scan (err : String)
  | indexOutOfRange (index : ℤ) (count : ℕ)
  | duplicateIndex (index : ℤ)
  | neither (index : ℤ) (errorCode : String)
  | rows (err : String)
  | missing (index : ℕ)
  deriving DecidableEq, Repr

def SqlRow.outcome (row : SqlRow) : Option PostgresSaveResult :=
  match row.errorMessage, row.transactionId, row.globalId with
  | some message, _, _ => some { PostgresSaveResult.zero with err := some (mapSaveError message) }
  | none, some tx, some gid => some ⟨toString tx, gid, none⟩
  | none, _, _ => none

/-- One turn of the loop over the rows. The index is an `int`, which NULL cannot be scanned into. -/
def readRow (s : Slots PostgresSaveResult) :
    Except String SqlRow → Except BatchError (Slots PostgresSaveResult)
  | .error err => .error (.scan err)
  | .ok row =>
    match row.requestIndex with
    | none => .error (.scan "converting NULL to int is unsupported")
    | some index =>
      if index < 0 ∨ index ≥ s.seen.length then .error (.indexOutOfRange index s.seen.length)
      else if s.seen[index.toNat]? = some true then .error (.duplicateIndex index)
      else
        match row.outcome with
        | none => .error (.neither index (row.errorCode.getD ""))
        | some outcome => .ok (s.put index.toNat outcome)

def collect (count : ℕ) (r : Rows) : Except BatchError (List PostgresSaveResult) := do
  let s ← r.rows.foldlM readRow (Slots.vacant count .zero)
  match r.err with
  | some err => .error (.rows err)
  | none =>
    match s.seen.idxOf? false with
    | some index => .error (.missing index)
    | none => .ok s.values

section Batch

-- the encoding of the payloads, and the insert function of a boundary that is registered
variable {α : Type*} (marshal : List α → Except String String)
  (insertEventRequests : Option (String → Except String Rows))

def executeBatch (boundary : String) (requests : List α) :
    Except BatchError (List PostgresSaveResult) :=
  match insertEventRequests with
  | none => .error (.noSchema boundary)
  | some insertEventRequests =>
    if requests.length = 0 then .ok []
    else
      match marshal requests with
      | .error err => .error (.marshal err)
      | .ok payloadJSON =>
        match insertEventRequests payloadJSON with
        | .error err => .error (.query err)
        | .ok rows => collect requests.length rows

/-- The rows of a batch: for an empty one nothing is asked. -/
def received (requests : List α) : Option Rows :=
  insertEventRequests.bind fun insert =>
    if requests.length = 0 then some ⟨[], none⟩
    else ((marshal requests).toOption).bind fun payloadJSON => (insert payloadJSON).toOption

end Batch

/-- The rows ended without an error, their indexes are those of the requests in some order, and each
has an error message or a whole position. -/
def Complete (count : ℕ) (r : Rows) (rows : List SqlRow) : Prop :=
  r = ⟨rows.map .ok, none⟩ ∧
  (rows.map SqlRow.requestIndex).Perm ((List.range count).map fun i : ℕ => some (i : ℤ)) ∧
  ∀ row ∈ rows, row.errorMessage.isSome ∨ row.transactionId.isSome ∧ row.globalId.isSome

end Orisun.Postgres.GroupCommit
