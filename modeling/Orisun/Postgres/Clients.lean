import Mathlib.Data.List.Infix
import Orisun.Clients
import Orisun.Postgres.GetLatest
import Orisun.Postgres.Serial

/-!
# PostgreSQL as a backend

A save is validated and encoded before it joins a batch, a batch is one call of
`insert_event_requests_v2` under the boundary's advisory lock, and its rows are assembled into one
answer per save. A transaction that is rolled back leaves the sequence where it has drawn to.
-/

namespace Orisun.Postgres

/-- An event before it is encoded; `data` is `none` where its text is not a JSON object. -/
structure PreparedEvent where
  eventId : String
  eventType : String
  data : Option (List (String × Json))
  metadata : Option Json

inductive SaveInputError where
  | noEvents
  | noEventType
  | invalidEventId
  | dataNotObject
  | invalidTag (e : TagError)
  | noCriteria
  | noTags
  deriving DecidableEq, Repr

/-- `uuidParse` is `uuid.Parse` of the service's own library. -/
def validateEvent (uuidParse : String → Bool) (event : PreparedEvent) :
    Except SaveInputError EventItem :=
  if event.eventType = "" then .error .noEventType
  else if !uuidParse event.eventId then .error .invalidEventId
  else match event.data with
    | none => .error .dataNotObject
    | some data => .ok ⟨event.eventId, event.eventType, data, event.metadata⟩

def validateCheck (check : ConsistencyCheck) : Except SaveInputError Unit :=
  match validateReadCriteria check.criteria with
  | .error e => .error (.invalidTag e)
  | .ok () =>
    if check.criteria.length = 0 then .error .noCriteria
    else if check.criteria.any fun c => c.tags.length = 0 then .error .noTags
    else .ok ()

def prepareSave (uuidParse : String → Bool) (events : List PreparedEvent)
    (consistency : List ConsistencyCheck) : Except SaveInputError Request := do
  let items ← events.mapM (validateEvent uuidParse)
  if hne : items ≠ [] then
    consistency.forM validateCheck
    return ⟨consistency.map storedObservation, items, hne⟩
  else .error .noEvents

inductive BatchError where
  | indexOutOfRange (index : ℕ)
  | duplicateIndex (index : ℕ)
  | noOutcome (index : ℕ)
  | missingIndex
  deriving DecidableEq, Repr

/-- `mapSaveError` of a message the function returns. -/
def mapSaveError (message : String) : Answer :=
  if "OptimisticConcurrencyException".toList <:+: message.toList then .conflict else .failed

def rowAnswer (row : ResultRow) : Except BatchError Answer :=
  match row.errorMessage, row.latestTransactionId, row.latestGlobalId with
  | some message, _, _ => .ok (mapSaveError message)
  | none, some tx, some gid => .ok (.accepted ⟨tx, gid⟩)
  | none, _, _ => .error (.noOutcome row.requestIndex)

def addOutcome (outcomes : List (Option Answer)) (row : ResultRow) :
    Except BatchError (List (Option Answer)) :=
  match outcomes[row.requestIndex]? with
  | none => .error (.indexOutOfRange row.requestIndex)
  | some (some _) => .error (.duplicateIndex row.requestIndex)
  | some none => (rowAnswer row).map fun a => outcomes.set row.requestIndex (some a)

/-- What `executeBatch` makes of the rows it is sent. -/
def readOutcomes (count : ℕ) (rows : List ResultRow) : Except BatchError (List Answer) := do
  let outcomes ← rows.foldlM addOutcome (List.replicate count none)
  match outcomes.mapM id with
  | some answers => .ok answers
  | none => .error .missingIndex

def backend (uuidParse : String → Bool) : Backend where
  State := Tables
  events t := t.events.map EventRow.event
  getLatestByCriteria t criteria :=
    (getLatestByCriteria t criteria).toOption.map LatestByCriteriaBatch.contextPosition
  Payload := List PreparedEvent
  Save := Request
  prepare checks events := (prepareSave uuidParse events checks).toOption
  Env := Statement
  execute st t requests := (insertEventRequestsV2 st t requests).toOption.bind fun r =>
    (readOutcomes requests.length r.2).toOption.map fun answers => (r.1, answers)
  rollback n t := { t with sequence := t.sequence + n }

end Orisun.Postgres
