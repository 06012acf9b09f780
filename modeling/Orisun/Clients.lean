import Orisun.Lib.Transition
import Orisun.Meaning
import Orisun.Observations

/-!
# Clients of one boundary

Any number of clients read where their queries stand and save under what they have read. Saves are
executed in batches by any number of processes. A batch waits for the boundary's lock, is executed
on what is committed when it has the lock, and is committed or rolled back; the lock is given up
after that. A read sees what is committed.
-/

namespace Orisun

def queryMatches (tag : Meaning.TagHolds) (criteria : List ReadCriterion) (data : Json) : Bool :=
  criteria.any fun c => Meaning.tags tag c.tags data

def standing (tag : Meaning.TagHolds) (events : List Event) (criteria : List ReadCriterion) :
    Position :=
  latestPosition ((events.filter fun e => queryMatches tag criteria e.data).map Event.position)

/-- What a save is answered: its position, that something it observed has changed, or that it
failed otherwise. -/
inductive Answer where
  | accepted (position : Position)
  | conflict
  | failed
  deriving DecidableEq, Repr

def Answer.isAccepted : Answer → Bool
  | accepted _ => true
  | _ => false

def Answer.added (final : List Event) : Answer → List Event
  | accepted p => final.filter fun e => e.position.commitPosition = p.commitPosition
  | _ => []

structure Backend where
  /-- What is committed. -/
  State : Type
  events : State → List Event
  /-- The context position a read returns, if it returns. -/
  getLatestByCriteria : State → List ReadCriterion → Option Position
  /-- The events of a save as they are received. -/
  Payload : Type
  Save : Type
  prepare : List ConsistencyCheck → Payload → Option Save
  /-- What a transaction takes from its server. -/
  Env : Type
  /-- What a batch leaves and answers, unless its transaction fails. -/
  execute : Env → State → List Save → Option (State × List Answer)
  /-- What is left of a batch that is not committed. -/
  rollback : ℕ → State → State

variable {B : Backend}

/-- A call of `SaveEventsV2`. `basis` is the read whose answer it sends back, if it does. -/
structure Call (B : Backend) where
  basis : Option ℕ
  consistency : List (Option ConsistencyObservation)
  payload : B.Payload

def Call.save (call : Call B) : Option B.Save :=
  (consistencyChecksFromObservations call.consistency).toOption.bind fun checks =>
    B.prepare checks call.payload

/-- A read that has returned, with the events of its snapshot. -/
structure Read where
  criteria : List ReadCriterion
  position : Position
  snapshot : List Event

/-- The call sends back what the read it is based on returned. -/
def Call.basedOn (reads : List Read) (call : Call B) : Bool :=
  match call.basis with
  | none => true
  | some i => (reads[i]?).any fun r => call.consistency = [some (.of r.criteria r.position)]

/-- A save that is done, with the events before it and those it added. -/
structure Saved (B : Backend) where
  call : Call B
  before : List Event
  added : List Event
  answer : Answer

/-- The saves of a batch, each after the accepted ones before it. -/
def record (final : List Event) : List Event → List (Call B × Answer) → List (Saved B)
  | _, [] => []
  | before, (call, answer) :: rest =>
    ⟨call, before, answer.added final, answer⟩ ::
      record final (before ++ answer.added final) rest

inductive Process (B : Backend) where
  | idle
  | waiting (batch : List (Call B × B.Save))
  | holding (batch : List (Call B × B.Save))
  | executed (batch : List (Call B × B.Save)) (result : B.State) (answers : List Answer)
  | committed

structure World (B : Backend) where
  store : B.State
  lock : Option ℕ
  process : ℕ → Process B
  reads : List Read
  saved : List (Saved B)

def World.setProcess (w : World B) (p : ℕ) (s : Process B) : World B :=
  { w with process := Function.update w.process p s }

inductive Action (B : Backend) where
  | read (criteria : List ReadCriterion)
  | submit (p : ℕ) (calls : List (Call B))
  | acquire (p : ℕ)
  | execute (p : ℕ) (env : B.Env)
  | commit (p : ℕ)
  | release (p : ℕ)
  | rollback (p : ℕ) (n : ℕ)

namespace World

def read (w : World B) (criteria : List ReadCriterion) : Option (World B) :=
  (B.getLatestByCriteria w.store criteria).map fun position =>
    { w with reads := w.reads ++ [⟨criteria, position, B.events w.store⟩] }

def submit (w : World B) (p : ℕ) (calls : List (Call B)) : Option (World B) :=
  match w.process p with
  | .idle =>
    if calls.all (·.basedOn w.reads)
    then (calls.mapM fun call : Call B => call.save.map (call, ·)).map fun batch =>
      w.setProcess p (.waiting batch)
    else none
  | _ => none

def acquire (w : World B) (p : ℕ) : Option (World B) :=
  match w.process p, w.lock with
  | .waiting batch, none => some { w.setProcess p (.holding batch) with lock := some p }
  | _, _ => none

def execute (w : World B) (p : ℕ) (env : B.Env) : Option (World B) :=
  match w.process p with
  | .holding batch => (B.execute env w.store (batch.map Prod.snd)).map fun r =>
      w.setProcess p (.executed batch r.1 r.2)
  | _ => none

def commit (w : World B) (p : ℕ) : Option (World B) :=
  match w.process p with
  | .executed batch result answers =>
    some { w.setProcess p .committed with
      store := result
      saved := w.saved ++ record (B.events result) (B.events w.store)
        ((batch.map Prod.fst).zip answers) }
  | _ => none

def release (w : World B) (p : ℕ) : Option (World B) :=
  match w.process p with
  | .committed => some { w.setProcess p .idle with lock := none }
  | _ => none

def rollback (w : World B) (p n : ℕ) : Option (World B) :=
  match w.process p with
  | .waiting _ => some (w.setProcess p .idle)
  | .holding _ => some { w.setProcess p .idle with lock := none, store := B.rollback n w.store }
  | .executed .. => some { w.setProcess p .idle with lock := none, store := B.rollback n w.store }
  | _ => none

def step (w : World B) : Action B → Option (World B)
  | .read criteria => w.read criteria
  | .submit p calls => w.submit p calls
  | .acquire p => w.acquire p
  | .execute p env => w.execute p env
  | .commit p => w.commit p
  | .release p => w.release p
  | .rollback p n => w.rollback p n

def initial (s : B.State) : World B := ⟨s, none, fun _ => .idle, [], []⟩

/-- The accepted saves under the observation that added a match of its query. -/
def winners (tag : Meaning.TagHolds) (w : World B) (criteria : List ReadCriterion)
    (position : Position) : List (Saved B) :=
  w.saved.filter fun s => s.call.consistency = [some (.of criteria position)] &&
    s.answer.isAccepted && s.added.any fun e => queryMatches tag criteria e.data

end World

/-- Command Context Consistency for the queries of a scope: a save under what a read returned is
accepted exactly if no event that matches the read's query was committed in between, and of the saves
under one observation that add a match of its query, at most one is accepted. -/
structure CommandContextConsistency (tag : Meaning.TagHolds) (scope : List ReadCriterion → Prop)
    (w : World B) : Prop where
  accepted_iff : ∀ s ∈ w.saved, ∀ i r, s.call.basis = some i → w.reads[i]? = some r →
    scope r.criteria → ∃ between, s.before = r.snapshot ++ between ∧
      (s.answer ≠ .failed → (s.answer.isAccepted = true ↔
        ∀ e ∈ between, queryMatches tag r.criteria e.data = false))
  at_most_one : ∀ criteria position, scope criteria →
    (w.winners tag criteria position).length ≤ 1

end Orisun
