import Orisun.Meaning
import Orisun.Postgres.InsertEventRequests

/-!
# Saving one request at a time

What the group commit stands for. A criterion holds of a document or not, whatever the SQL it is
rendered to; a request is accepted when every query it observed still stands at the position it was
observed at, and its events are then added to the log. The log is the boundary's tables without
the marks PostgreSQL's visibility barrier uses.
-/

namespace Orisun.Postgres

/-- The field compares with the value: as text, or by order with a value of its own type. -/
def tagHolds (op : TagOperator) (key value : String) (data : Json) : Bool :=
  let ordered (op : OrderOperator) : Bool :=
    match data.get? key with
    | some (.string s) => op.holds (compareText s value)
    | some (.number token) => (orisunCompareNumber token value).any op.holds
    | _ => false
  match op with
  | .eq => data.getText? key == some value
  | .ne => (data.getText? key).any (· != value)
  | .gt => ordered .gt
  | .gte => ordered .gte
  | .lt => ordered .lt
  | .lte => ordered .lte

abbrev criterionHolds (c : EncodedCriterion) (data : Json) : Bool :=
  Meaning.criterion tagHolds c data

abbrev queryHolds (criteria : List EncodedCriterion) (data : Json) : Bool :=
  Meaning.query tagHolds criteria data

structure StoredEvent where
  position : Position
  writeId : ℤ
  data : Json

structure Log where
  events : List StoredEvent
  writes : List WriteRow
  sequence : ℤ

def EventRow.stored (row : EventRow) : StoredEvent := ⟨row.position, row.writeId, row.data⟩

def EventRow.event (row : EventRow) : Event := ⟨row.position, row.data⟩

/-- The tables without the rows' `pg_xact_id`. -/
def Tables.log (t : Tables) : Log := ⟨t.events.map EventRow.stored, t.writes, t.sequence⟩

def Log.matching (log : Log) (criteria : List EncodedCriterion) : List Position :=
  (log.events.filter fun e => queryHolds criteria e.data).map StoredEvent.position

def Log.latest (log : Log) (criteria : List EncodedCriterion) : Position :=
  latestPosition (log.matching criteria)

inductive Outcome where
  | accepted (position : Position)
  | conflict (expected actual : Position)
  deriving DecidableEq, Repr

/-- The first observation that no longer holds, and where its query stands. -/
def Log.firstConflict (log : Log) (observations : List Observation) :
    Option (Position × Position) :=
  observations.findSome? fun o =>
    if log.latest o.criteria = o.position then none else some (o.position, log.latest o.criteria)

/-- The document of an event: its own fields under those the store sets. -/
def eventDocument (st : Statement) (tx wid : ℤ) (event : EventItem) (gid : ℤ) (eventId : String) :
    Json :=
  .object (Fields.concat event.data
    ([("__eventId", .string eventId), ("__eventType", .string event.eventType)] ++
      envelope st (event.metadata.getD (.object [])) tx gid wid))

/-- The event at its place in the log; `none` where a cast or an index expression raises. -/
def storedEvent (st : Statement) (tx wid : ℤ) (event : EventItem) (gid : ℤ) :
    Option StoredEvent :=
  (st.uuid event.eventId).bind fun eventId =>
    let data := eventDocument st tx wid event gid eventId
    if st.indexable data then some ⟨⟨tx, gid⟩, wid, data⟩ else none

/-- The events of an accepted request from the given global id on. -/
def storedEvents (st : Statement) (tx wid : ℤ) : List EventItem → ℤ → Option (List StoredEvent)
  | [], _ => some []
  | event :: events, gid => (storedEvent st tx wid event gid).bind fun e =>
      (storedEvents st tx wid events (gid + 1)).map fun es => e :: es

/-- The log with the request's events; `none` also where no position is left for them. -/
def Log.append (st : Statement) (log : Log) (request : Request) : Option (Log × Position) :=
  let tx := log.sequence + request.events.length
  if tx > maxBigint then none
  else (storedEvents st tx (tx - 1) request.events log.sequence).map fun events =>
    (⟨log.events ++ events, log.writes ++ [⟨tx - 1, request.consistency⟩], tx⟩, ⟨tx, tx - 1⟩)

def Log.save (st : Statement) (log : Log) (request : Request) : Option (Log × Outcome) :=
  match log.firstConflict request.consistency with
  | some (expected, actual) => some (log, .conflict expected actual)
  | none => (log.append st request).map fun r => (r.1, .accepted r.2)

def Log.saveAll (st : Statement) : Log → List Request → Option (Log × List Outcome)
  | log, [] => some (log, [])
  | log, request :: requests => (log.save st request).bind fun r =>
      (Log.saveAll st r.1 requests).map fun rs => (rs.1, r.2 :: rs.2)

def outcomeRow (outcome : Outcome × ℕ) : ResultRow :=
  match outcome.1 with
  | .accepted p => ⟨outcome.2, some p.preparePosition, some p.commitPosition,
      some p.preparePosition, none, none⟩
  | .conflict expected actual =>
    ⟨outcome.2, none, none, none, some "P0001", some (conflictMessage expected actual)⟩

/-- A call for each request by itself, in its own transaction, its row put at the request's
place. -/
def oneAtATime (st : Statement) (xid : ℕ → ℤ) :
    Tables → List Request → ℕ → Option (Tables × List ResultRow)
  | t, [], _ => some (t, [])
  | t, request :: requests, i =>
    (insertEventRequestsV2 { st with currentXactId := xid i } t [request]).toOption.bind fun r =>
      (oneAtATime st xid r.1 requests (i + 1)).map fun rs =>
        (rs.1, r.2.map (fun row => { row with requestIndex := i }) ++ rs.2)

def validField : TagField → Bool
  | .scalar _ => true
  | .predicates ps => !ps.isEmpty && ps.all fun p => (canonicalTagOperator p.operator).isSome

/-- A criterion with at least one key, each compared by supported operators. -/
def ValidCriterion (c : EncodedCriterion) : Prop :=
  c.fields ≠ [] ∧ ∀ f ∈ c.fields, validField f.2 = true

instance (c : EncodedCriterion) : Decidable (ValidCriterion c) :=
  inferInstanceAs (Decidable (_ ∧ _))

/-- The queries a request observed are ORs of at least one valid criterion. -/
def ValidRequest (r : Request) : Prop :=
  ∀ o ∈ r.consistency, o.criteria ≠ [] ∧ ∀ c ∈ o.criteria, ValidCriterion c

instance (r : Request) : Decidable (ValidRequest r) :=
  inferInstanceAs (Decidable (∀ o ∈ r.consistency, _))

/-- No cast and no index expression raises on the event, wherever it is stored. -/
def StorableEvent (st : Statement) (event : EventItem) : Prop :=
  ∃ eventId, st.uuid event.eventId = some eventId ∧
    ∀ tx wid gid, st.indexable (eventDocument st tx wid event gid eventId) = true

/-- What a committed log keeps: keys are unique, and the sequence has passed every position. -/
structure Log.Sound (log : Log) : Prop where
  sequence_nonneg : 0 ≤ log.sequence
  globalIds : (log.events.map fun e => e.position.preparePosition).Nodup
  writeIds : (log.writes.map WriteRow.writeId).Nodup
  events : ∀ e ∈ log.events, 0 ≤ e.position.preparePosition ∧
    e.position.preparePosition < e.position.commitPosition ∧
    e.position.commitPosition ≤ log.sequence
  writes : ∀ w ∈ log.writes, w.writeId < log.sequence

/-- The tables of a boundary whose rows have been committed. -/
structure Boundary where
  tables : Tables
  sound : tables.log.Sound

def freshBoundary : Boundary where
  tables := ⟨[], [], 0⟩
  sound := ⟨le_rfl, .nil, .nil, by simp [Tables.log], by simp [Tables.log]⟩

end Orisun.Postgres
