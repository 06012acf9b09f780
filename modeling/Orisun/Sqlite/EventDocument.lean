import Orisun.EventData
import Orisun.Sqlite.GroupCommit
import Orisun.WriteContext

/-!
# Documents of stored events

`insertEventBatch` sets the store's fields in one map that all events of a request share, and
encodes an event's document from the event's object and the map. A stored document is read back
through the generated columns of the event table, `json_extract` and `->`.
-/

namespace Orisun.Sqlite

open EventData

def prepareEventDocument (event : PreparedEvent) : PreparedEventDocument :=
  ⟨event.eventId, event.eventType, metadataValue event.metadataJSON, parseObject event.dataJSON⟩

def prepareEventDocuments (events : List PreparedEvent) : List PreparedEventDocument :=
  events.map prepareEventDocument

def requestFields (transactionId : ℤ) (now : String) : List (String × Json) :=
  [("__commitPosition", .number (toString transactionId)),
   ("__dateCreated", .string now),
   ("__writeId", .string (writeIdText transactionId transactionId))]

def eventFields (eventId eventType : String) (metadata : Json) (gid : ℤ) : List (String × Json) :=
  [("__eventId", .string eventId),
   ("__eventType", .string eventType),
   ("__metadata", metadata),
   ("__preparePosition", .number (toString gid))]

/-- `positionedDocument` on the shared map: the document, and the map as it is left. -/
def positionedDocumentIn (event : PreparedEventDocument) (gid : ℤ) (fields : List (String × Json)) :
    Option (List (String × Json) × List (String × Json)) := do
  let object ← event.object
  let metadata ← event.metadata
  let fields := Fields.concat fields (eventFields event.eventId event.eventType metadata gid)
  return (withFields object fields, fields)

/-- The documents of the events from the `i`th on. -/
def batchDocuments (firstId : ℤ) : ℕ → List (String × Json) → List PreparedEventDocument →
    Option (List (List (String × Json)))
  | _, _, [] => some []
  | i, fields, event :: events => do
    let (document, fields) ← positionedDocumentIn event (firstId + i) fields
    let documents ← batchDocuments firstId (i + 1) fields events
    return document :: documents

/-- The documents `insertEventBatch` binds to its statements. -/
def insertedDocuments (firstId transactionId : ℤ) (now : String)
    (events : List PreparedEventDocument) : Option (List (List (String × Json))) :=
  batchDocuments firstId 0 (Fields.concat [] (requestFields transactionId now)) events

inductive SqlValue where
  | null
  | integer (n : ℤ)
  | real (token : String)
  | text (s : String)
  deriving DecidableEq, Repr

def InInt64 (n : ℤ) : Prop := -2 ^ 63 ≤ n ∧ n ≤ maxInt64

instance (n : ℤ) : Decidable (InInt64 n) := inferInstanceAs (Decidable (_ ∧ _))

/-- `json_extract` of one key. -/
def jsonExtract (document : List (String × Json)) (key : String) : SqlValue :=
  match document.lookup key with
  | none => .null
  | some .null => .null
  | some (.bool b) => .integer (if b then 1 else 0)
  | some (.number token) =>
    match readInt token with
    | none => .real token
    | some n => if InInt64 n then .integer n else .real token
  | some (.string s) => .text s
  | some value => .text value.text

def SqlValue.text? : SqlValue → Option String
  | text s => some s
  | _ => none

def SqlValue.int? : SqlValue → Option ℤ
  | integer n => some n
  | _ => none

structure ReadEvent where
  eventId : String
  eventType : String
  data : Text
  metadata : Json
  commitPosition : ℤ
  preparePosition : ℤ
  dateCreated : String
  writeId : String

/-- The event of a stored document, `none` where a column is not of the type it is read at. -/
def scanReadEventRow (document : List (String × Json)) : Option ReadEvent := do
  let eventId ← (jsonExtract document "__eventId").text?
  let eventType ← (jsonExtract document "__eventType").text?
  let metadata ← document.lookup "__metadata"
  let commitPosition ← (jsonExtract document "__commitPosition").int?
  let preparePosition ← (jsonExtract document "__preparePosition").int?
  let dateCreated ← (jsonExtract document "__dateCreated").text?
  let writeId ← (jsonExtract document "__writeId").text?
  return { eventId, eventType, metadata, commitPosition, preparePosition, dateCreated, writeId,
           data := withoutStorageEnvelope (marshal document) }

structure Assigned (eventId eventType : String) (metadata : Json) (gid transactionId : ℤ)
    (now : String) (r : ReadEvent) : Prop where
  eventId : r.eventId = eventId
  eventType : r.eventType = eventType
  metadata : r.metadata = metadata
  commitPosition : r.commitPosition = transactionId
  preparePosition : r.preparePosition = gid
  dateCreated : r.dateCreated = now
  writeId : r.writeId = writeIdText transactionId transactionId

/-- The document gives back a client's event: its data is the object the client gave, where the last
of repeated keys counts. -/
def ReadsBack (event : EventWithMapTags) (gid transactionId : ℤ) (now : String)
    (document : List (String × Json)) : Prop :=
  ∃ r metadata object, scanReadEventRow document = some r ∧
    event.metadataValue = some metadata ∧
    Assigned event.eventId event.eventType metadata gid transactionId now r ∧
    r.data.unmarshal = some (some object) ∧
    (∀ key, object.lookup key = (decodeMembers event.members).reverse.lookup key) ∧
    ∀ f ∈ object, isReservedKey f.1 = false

/-- The document gives back the assigned values, whatever the prepared object holds. -/
def EnvelopeWins (event : PreparedEvent) (gid transactionId : ℤ) (now : String)
    (document : List (String × Json)) : Prop :=
  ∃ r metadata object, scanReadEventRow document = some r ∧
    metadataValue event.metadataJSON = some metadata ∧
    Assigned event.eventId event.eventType metadata gid transactionId now r ∧
    parseObject event.dataJSON = some object ∧
    r.data.unmarshal = some (some (object.filter fun f => !isReservedKey f.1))

end Orisun.Sqlite
