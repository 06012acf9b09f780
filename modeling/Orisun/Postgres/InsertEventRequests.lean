import Orisun.Lib.Offsets
import Orisun.Postgres.Predicate
import Mathlib.Algebra.Order.Ring.Int
import Mathlib.Data.List.Dedup

/-!
# The group-commit function `insert_event_requests_v2`

The function compiles the observations of all requests into tables of offsets, reads the latest
position of every distinct criterion once, and then runs the requests in order against these
positions alone: an accepted request moves the positions its own events match. All accepted events
are inserted by one statement at the end. Arrays are lists, and an index of the source counts from
one.
-/

namespace Orisun.Postgres

def maxBigint : ℤ := 2 ^ 63 - 1

structure Statement where
  /-- The text of a `UUID` cast, `none` where the cast raises. -/
  uuid : String → Option String
  /-- `statement_timestamp()` as `to_char` prints it, to the microsecond. -/
  timestamp : String
  /-- No expression of the boundary's indexes raises on the document. -/
  indexable : Json → Bool
  /-- `pg_current_xact_id()`. -/
  currentXactId : ℤ

structure EventItem where
  eventId : String
  eventType : String
  data : List (String × Json)
  metadata : Option Json

/-- A prepared save. Preparing refuses one without events. -/
structure Request where
  consistency : List Observation
  events : List EventItem
  events_ne : events ≠ []

structure EventRow where
  pgXactId : Option ℤ
  transactionId : ℤ
  globalId : ℤ
  writeId : ℤ
  data : Json

/-- The tables of one boundary and the next value of its sequence. -/
structure Tables where
  events : List EventRow
  writes : List WriteRow
  sequence : ℤ

/-- `regexp_replace(…, '\.?0+$', '')`. -/
def stripFraction (s : String) : String :=
  let rest := s.toList.reverse.dropWhile (· == '0')
  if rest.length = s.length then s
  else if rest.head? = some '.' then String.ofList rest.tail.reverse
  else String.ofList rest.reverse

def envelope (st : Statement) (metadata : Json) (tx gid wid : ℤ) : List (String × Json) :=
  [("__commitPosition", .number (toString tx)),
   ("__preparePosition", .number (toString gid)),
   ("__writeId", .string (writeIdText tx wid)),
   ("__metadata", metadata),
   ("__dateCreated", .string (stripFraction st.timestamp ++ "Z"))]

def orisunEventDocument (st : Statement) (payload : List (String × Json)) (metadata : Json)
    (tx gid wid : ℤ) : Json :=
  .object (Fields.concat payload (envelope st metadata tx gid wid))

def castUuid (st : Statement) (eventId : String) : Except SqlError String :=
  match st.uuid eventId with
  | some text => .ok text
  | none => .error .invalidTextRepresentation

/-- The offset tables of the checks, each closed by one entry past its last. -/
structure Checks where
  requestCheckOffsets : List ℕ := []
  checkCriterionOffsets : List ℕ := []
  checkCriterionIds : List ℕ := []
  checkExpected : List Position := []

structure Plan where
  allCriteria : List EncodedCriterion
  criterionIds : List (String × ℕ)
  checks : Checks
  criterionShapes : List (List String)
  predicateSelects : List (List SqlPart × ℕ)
  latestSelects : List (List SqlPart × ℕ)

/-- The distinct criteria of the batch in the order of their texts. -/
def allCriteria (requests : List Request) : List EncodedCriterion :=
  let criteria := (requests.flatMap (·.consistency)).flatMap (·.criteria)
  ((criteria.filter (·.fields ≠ [])).dedup).mergeSort fun c d => decide (c.text ≤ d.text)

def criterionIds (criteria : List EncodedCriterion) : List (String × ℕ) :=
  criteria.zipIdx.map fun c => (c.1.text, c.2)

/-- `(criterion_ids ->> text)::INT + 1`. -/
def criterionId (ids : List (String × ℕ)) (text : String) : Option ℕ :=
  (ids.lookup text).map (· + 1)

def compileCriterion (ids : List (String × ℕ)) (checks : Checks) (crit : EncodedCriterion) :
    Except SqlError Checks :=
  if crit.fields = [] then .error (.raise "consistency criterion has no tags")
  else match criterionId ids crit.text with
    | none => .error (.raise "consistency criterion was not planned")
    | some id => .ok { checks with checkCriterionIds := checks.checkCriterionIds ++ [id] }

def compileObservation (ids : List (String × ℕ)) (checks : Checks) (observation : Observation) :
    Except SqlError Checks :=
  if observation.criteria = [] then .error (.raise "consistency query has no criteria")
  else observation.criteria.foldlM (compileCriterion ids)
    { checks with
      checkCriterionOffsets :=
        checks.checkCriterionOffsets ++ [checks.checkCriterionIds.length + 1]
      checkExpected := checks.checkExpected ++ [observation.position] }

def compileRequest (ids : List (String × ℕ)) (checks : Checks) (request : Request) :
    Except SqlError Checks :=
  request.consistency.foldlM (compileObservation ids)
    { checks with
      requestCheckOffsets := checks.requestCheckOffsets ++ [checks.checkExpected.length + 1] }

def compileChecks (ids : List (String × ℕ)) (requests : List Request) :
    Except SqlError Checks := do
  let checks ← requests.foldlM (compileRequest ids) {}
  return { checks with
    requestCheckOffsets := checks.requestCheckOffsets ++ [checks.checkExpected.length + 1]
    checkCriterionOffsets :=
      checks.checkCriterionOffsets ++ [checks.checkCriterionIds.length + 1] }

structure Matching where
  criterionShapes : List (List String) := []
  predicateSelects : List (List SqlPart × ℕ) := []
  latestSelects : List (List SqlPart × ℕ) := []

def planCriterion (ids : List (String × ℕ)) (m : Matching) (crit : EncodedCriterion) :
    Except SqlError Matching := do
  let parts ← orisunCriterionSql crit
  let id := (criterionId ids crit.text).getD 0
  return { m with
    predicateSelects :=
      if crit.isScalar then m.predicateSelects else m.predicateSelects ++ [(parts, id)]
    latestSelects := m.latestSelects ++ [(parts, id)] }

/-- The criteria of one set of keys. A shape is projected only for its scalar criteria. -/
def planShape (ids : List (String × ℕ)) (criteria : List EncodedCriterion) (m : Matching)
    (shape : List String) : Except SqlError Matching := do
  let shapeCriteria := criteria.filter (·.keys = shape)
  let m ← shapeCriteria.foldlM (planCriterion ids) m
  return if shapeCriteria.any (·.isScalar) then
    { m with criterionShapes := m.criterionShapes ++ [shape] } else m

def compilePlan (requests : List Request) : Except SqlError Plan := do
  let criteria := allCriteria requests
  let ids := criterionIds criteria
  let checks ← compileChecks ids requests
  let m ← ((criteria.map (·.keys)).dedup).foldlM (planShape ids criteria) {}
  return ⟨criteria, ids, checks, m.criterionShapes, m.predicateSelects, m.latestSelects⟩

def EventRow.position (row : EventRow) : Position := ⟨row.transactionId, row.globalId⟩

/-- The row a latest select returns: the first of its matches, latest first. -/
def latestRow (events : List EventRow) (parts : List SqlPart) : Option Position :=
  ((events.filter fun row => selects parts row.data).map EventRow.position).max?

/-- `criterion_tx_ids[id]` and `criterion_gids[id]` set to the position. -/
def setPosition (positions : List Position) (id : ℕ) (p : Position) : List Position :=
  positions.set (id - 1) p

/-- A record of a query that returns one or no position for the id. -/
def setRecord (positions : List Position) (id : ℕ) : Option Position → List Position
  | some p => setPosition positions id p
  | none => positions

def initialPositions (plan : Plan) (events : List EventRow) : List Position :=
  plan.latestSelects.foldl (fun positions select =>
      setRecord positions select.2 (latestRow events select.1))
    (List.replicate plan.allCriteria.length notExistsPosition)

def checkPosition (checks : Checks) (positions : List Position) (checkIndex : ℕ) : Position :=
  (Offsets.range checks.checkCriterionOffsets checkIndex).foldl (fun latest i =>
      match (checks.checkCriterionIds[i - 1]?).bind fun id => positions[id - 1]? with
      | some p => laterPosition latest p
      | none => latest)
    notExistsPosition

def requestConflict (checks : Checks) (positions : List Position) (currentIndex : ℕ) :
    Option String :=
  (Offsets.range checks.requestCheckOffsets (currentIndex + 1)).findSome? fun checkIndex =>
    (checks.checkExpected[checkIndex - 1]?).bind fun expected =>
      let actual := checkPosition checks positions checkIndex
      if actual.commitPosition ≠ expected.commitPosition ∨
          actual.preparePosition ≠ expected.preparePosition
      then some (conflictMessage expected actual) else none

/-- `nextval` for each event of a request; the sequence does not cycle. -/
def drawGlobalIds : ℕ → ℤ → Except SqlError (List ℤ × ℤ)
  | 0, sequence => .ok ([], sequence)
  | n + 1, sequence =>
    if sequence > maxBigint then .error .sequenceLimit
    else (drawGlobalIds n (sequence + 1)).map fun d => (sequence :: d.1, d.2)

def requestDocument (st : Statement) (tx wid : ℤ) (event : EventItem) (gid : ℤ) :
    Except SqlError Json := do
  let eventId ← castUuid st event.eventId
  return orisunEventDocument st
    (Fields.concat event.data
      [("__eventId", .string eventId), ("__eventType", .string event.eventType)])
    (event.metadata.getD (.object [])) tx gid wid

/-- `document ->> key` as a member of an object. -/
def eventValue (document : Json) (key : String) : Json :=
  match document.getText? key with
  | some value => .string value
  | none => .null

/-- The document's values at the keys of a shape, as a scalar criterion has them. -/
def eventCriterion (shape : List String) (document : Json) : Json :=
  .object (shape.map fun key => (key, eventValue document key))

def matchShape (ids : List (String × ℕ)) (document : Json) (p : Position)
    (positions : List Position) (shape : List String) : List Position :=
  match criterionId ids (eventCriterion shape document).text with
  | some id => setPosition positions id p
  | none => positions

def matchShapes (plan : Plan) (tx : ℤ) (positions : List Position) (document : Json × ℤ) :
    List Position :=
  plan.criterionShapes.foldl (matchShape plan.criterionIds document.1 ⟨tx, document.2⟩) positions

/-- `predicate_query`: the last of the request's events each operator criterion matches. -/
def matchPredicates (plan : Plan) (tx : ℤ) (positions : List Position)
    (documents : List (Json × ℤ)) : List Position :=
  plan.predicateSelects.foldl (fun positions select =>
      let gid := ((documents.filter fun d => selects select.1 d.1).map Prod.snd).max?
      setRecord positions select.2 (gid.map fun gid => ⟨tx, gid⟩))
    positions

/-- An event that is to be inserted: its request, its place there and its global id. -/
structure AcceptedEvent where
  requestIndex : ℕ
  eventIndex : ℕ
  globalId : ℤ
  deriving DecidableEq, Repr

structure Batch where
  sequence : ℤ
  criterionPositions : List Position
  acceptedEvents : List AcceptedEvent
  lastInsertedGid : Option ℤ
  resultGlobalIds : List (Option ℤ)
  resultErrors : List (Option String)

def acceptRequest (st : Statement) (plan : Plan) (b : Batch) (request : Request)
    (currentIndex : ℕ) : Except SqlError Batch := do
  let (globalIds, sequence) ← drawGlobalIds request.events.length b.sequence
  let insertedGid := globalIds.getLastD 0
  if insertedGid + 1 > maxBigint then .error .numericOutOfRange else
  let insertedTxId := insertedGid + 1
  let positions ← if plan.allCriteria.length > 0 then do
      let documents ← (request.events.zip globalIds).mapM fun e => do
        return (← requestDocument st insertedTxId insertedGid e.1 e.2, e.2)
      let positions := documents.foldl (matchShapes plan insertedTxId) b.criterionPositions
      pure (matchPredicates plan insertedTxId positions documents)
    else pure b.criterionPositions
  return {
    sequence := sequence
    criterionPositions := positions
    acceptedEvents := b.acceptedEvents ++
      globalIds.zipIdx.map fun g => ⟨currentIndex, g.2, g.1⟩
    lastInsertedGid := some insertedGid
    resultGlobalIds := b.resultGlobalIds.set currentIndex (some insertedGid)
    resultErrors := b.resultErrors }

def runRequest (st : Statement) (plan : Plan) (b : Batch) (request : Request × ℕ) :
    Except SqlError Batch :=
  match requestConflict plan.checks b.criterionPositions request.2 with
  | some message =>
    .ok { b with resultErrors := b.resultErrors.set request.2 (some message) }
  | none => acceptRequest st plan b request.1 request.2

def storedDocument (st : Statement) (tx wid : ℤ) (event : EventItem) (gid : ℤ) :
    Except SqlError Json := do
  let eventId ← castUuid st event.eventId
  return orisunEventDocument st
    (Fields.concat (Fields.insert "__eventType" (.string event.eventType) event.data)
      [("__eventId", .string eventId)])
    (event.metadata.getD (.object [])) tx gid wid

def insertedWrites (requests : List Request) (resultGlobalIds : List (Option ℤ)) :
    List WriteRow :=
  (resultGlobalIds.zip requests).filterMap fun r => r.1.map fun writeId =>
    ⟨writeId, r.2.consistency⟩

/-- The accepted events with their transaction, joined with the write each belongs to. -/
def joinedEvents (b : Batch) (writes : List WriteRow) : List (AcceptedEvent × ℤ × ℤ) :=
  b.acceptedEvents.flatMap fun accepted =>
    match (b.resultGlobalIds[accepted.requestIndex]?).join with
    | none => []
    | some gid => (writes.filter fun w => w.writeId = gid + 1 - 1).map fun w =>
        (accepted, gid + 1, w.writeId)

def insertedRow (st : Statement) (requests : List Request) (e : AcceptedEvent × ℤ × ℤ) :
    Except SqlError EventRow :=
  match (requests[e.1.requestIndex]?).bind fun r => r.events[e.1.eventIndex]? with
  | none => .error .notNullViolation
  | some event => do
    let document ← storedDocument st e.2.1 e.2.2 event e.1.globalId
    if st.indexable document
    then .ok ⟨some st.currentXactId, e.2.1, e.1.globalId, e.2.2, document⟩
    else .error .indexExpression

def insertAccepted (st : Statement) (requests : List Request) (b : Batch) (t : Tables) :
    Except SqlError Tables := do
  let writes := t.writes ++ insertedWrites requests b.resultGlobalIds
  let rows ← (joinedEvents b (insertedWrites requests b.resultGlobalIds)).mapM
    (insertedRow st requests)
  let events := t.events ++ rows
  if (writes.map WriteRow.writeId).Nodup ∧ (events.map EventRow.globalId).Nodup
  then .ok ⟨events, writes, b.sequence⟩
  else .error .uniqueViolation

structure ResultRow where
  requestIndex : ℕ
  newGlobalId : Option ℤ
  latestTransactionId : Option ℤ
  latestGlobalId : Option ℤ
  errorCode : Option String
  errorMessage : Option String
  deriving DecidableEq, Repr

def resultRow (outcome : (Option ℤ × Option String) × ℕ) : ResultRow where
  requestIndex := outcome.2
  newGlobalId := outcome.1.1
  latestTransactionId := outcome.1.1.map (· + 1)
  latestGlobalId := outcome.1.1
  errorCode := outcome.1.2.map fun _ => "P0001"
  errorMessage := outcome.1.2

def initialBatch (plan : Plan) (requests : List Request) (t : Tables) : Batch where
  sequence := t.sequence
  criterionPositions := initialPositions plan t.events
  acceptedEvents := []
  lastInsertedGid := none
  resultGlobalIds := List.replicate requests.length none
  resultErrors := List.replicate requests.length none

/-- The tables and the result of one call, or the error that aborts its transaction. -/
def insertEventRequestsV2 (st : Statement) (t : Tables) (requests : List Request) :
    Except SqlError (Tables × List ResultRow) := do
  if requests = [] then .error (.raise "requests must be a non-empty JSON array") else
  let plan ← compilePlan requests
  let b ← requests.zipIdx.foldlM (runRequest st plan) (initialBatch plan requests t)
  let t ← if b.lastInsertedGid.isSome then insertAccepted st requests b t else pure t
  return (t, (b.resultGlobalIds.zip b.resultErrors).zipIdx.map resultRow)

end Orisun.Postgres
