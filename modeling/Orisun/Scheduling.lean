import Orisun.Coordinator

/-!
# What the coordinator promises

Stated over the history of a run: which batches the executor was called with, when its calls ended,
and what each request was sent.
-/

namespace Orisun.GroupCommit

variable {P R : Type}

/-- The requests in the order they came into the boundary's queue. -/
def arrivals (boundary : String) (history : List (Entry P R)) : List ℕ :=
  history.filterMap fun
    | .arrived b req => if b = boundary then some req else none
    | _ => none

/-- The batches the executor was called with for the boundary. -/
def batches (boundary : String) (history : List (Entry P R)) : List (List ℕ) :=
  history.filterMap fun
    | .started b batch _ => if b = boundary then some batch else none
    | _ => none

def endedBatches (boundary : String) (history : List (Entry P R)) : List (List ℕ) :=
  history.filterMap fun
    | .ended b batch _ => if b = boundary then some batch else none
    | _ => none

def allBatches (history : List (Entry P R)) : List (List ℕ) :=
  history.filterMap fun
    | .started _ batch _ => some batch
    | _ => none

def completed (history : List (Entry P R)) : List ℕ :=
  history.filterMap fun
    | .completed req _ => some req
    | _ => none

/-- What an entry says of those before it. A call of the executor is within the bounds, begins when
those before it on the boundary have ended and their requests are completed, and ends before the
next. -/
def Orderly (cfg : Config) (calls : ℕ → Submission P) (past : List (Entry P R)) :
    Entry P R → Prop
  | .started boundary batch prepared =>
    batch.length ≤ cfg.maxBatchRequests ∧
      (eventCount calls batch ≤ cfg.maxBatchEvents ∨ batch.length = 1) ∧
      prepared = batch.map (fun i => (calls i).prepared) ∧
      endedBatches boundary past = batches boundary past ∧
      ∀ earlier ∈ batches boundary past, ∀ req ∈ earlier, req ∈ completed past
  | .ended boundary batch _ => batches boundary past = endedBatches boundary past ++ [batch]
  | _ => True

/-- What holds of the scheduling in every state that is reached. -/
structure Scheduling (cfg : Config) (calls : ℕ → Submission P) (s : Coordinator P R) : Prop where
  order : ∀ boundary,
    (batches boundary s.history).flatten.Sublist (arrivals boundary s.history)
  once : ∀ boundary, (batches boundary s.history).flatten.Nodup
  orderly : History.Each (Orderly cfg calls) s.history
  noPanic : s.panicked = false
  completedOnce : (completed s.history).Nodup
  closes : s.closer = .done →
    (∀ boundary, ∀ req ∈ arrivals boundary s.history, req ∈ completed s.history) ∧
      ∀ boundary ∈ s.registered, (s.queues boundary).worker.isExited = true

/-- The executor's call for a batch is of use to its requests. -/
def Outcome.Matches {R : Type} (batch : List ℕ) : Outcome R → Prop
  | .returned outcomes => outcomes.length = batch.length
  | _ => False

/-- The request was at the same place in a batch as the value in what the executor returned. -/
def Ran (history : List (Entry P R)) (req : ℕ) (value : R) : Prop :=
  ∃ boundary batch outcomes, ∃ k : ℕ, .ended boundary batch (.returned outcomes) ∈ history ∧
    outcomes.length = batch.length ∧ batch[k]? = some req ∧ outcomes[k]? = some value

/-- What holds of the answers in every state that is reached. -/
structure Truthful (s : Coordinator P R) : Prop where
  closed : ∀ i, s.submits i = .returned (.error .closed) → i ∉ (allBatches s.history).flatten
  value : ∀ i v, s.submits i = .returned (.ok v) →
    Ran s.history i v ∧ (allBatches s.history).flatten.count i = 1
  failed : ∀ boundary batch outcome, .ended boundary batch outcome ∈ s.history →
    ¬outcome.Matches batch → ∀ i ∈ batch, ∀ v, s.submits i ≠ .returned (.ok v)

end Orisun.GroupCommit
