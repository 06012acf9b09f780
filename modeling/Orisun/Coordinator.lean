import Orisun.Lib.History
import Orisun.Lib.Transition
import Mathlib.Algebra.BigOperators.Group.List.Basic
import Mathlib.Algebra.Order.Ring.Int

/-!
# The group commit coordinator

Calls of `Submit` register under the registry lock and send their request into the boundary's queue;
one worker per boundary takes requests out, drains a batch, drops what was cancelled and calls the
executor. `Close` signals, waits for the registered senders, closes the queues and waits for the
workers. Each goroutine moves by itself; `select` may take any case that is ready.
-/

namespace Orisun.GroupCommit

/-- `New` refuses bounds that are not positive. Of the delay only matters whether there is one. -/
structure Config where
  maxBatchRequests : ℕ
  maxBatchEvents : ℕ
  maxPending : ℕ
  delayed : Bool
  requests_pos : 0 < maxBatchRequests
  events_pos : 0 < maxBatchEvents
  pending_pos : 0 < maxPending

inductive ContextError where
  | canceled
  | deadlineExceeded
  deriving DecidableEq, Repr

inductive SubmitError where
  | closed
  | context (e : ContextError)
  | noEvents
  | flush (cause : String)
  | flushPanic (value : String)
  | wrongOutcomes (outcomes requests : ℕ)
  deriving DecidableEq, Repr

/-- The arguments of a call of `Submit`. -/
structure Submission (P : Type) where
  boundary : String
  prepared : P
  events : ℤ

abbrev Completion (R : Type) := Except SubmitError R

/-- Where a call of `Submit` is: before each of its checks, in the registry (`unclosed` once it has
found the coordinator open there), at its two selects, or back. -/
inductive Submit (R : Type) where
  | idle
  | entered
  | notClosed
  | notCancelled
  | checked
  | locked
  | unclosed
  | admitting
  | waiting
  | returned (result : Completion R)

inductive Outcome (R : Type) where
  | returned (outcomes : List R)
  | failed (cause : String)
  | panicked (value : String)

inductive After where
  | flushed (carry : Option ℕ)
  | failFast

/-- Where a worker is. Requests are named by their call of `Submit`; `absent` is a boundary without a
queue. -/
inductive Worker (P R : Type) where
  | absent
  | top (carry : Option ℕ)
  | got (req : ℕ)
  | draining (batch : List ℕ)
  | drained (batch : List ℕ) (carry : Option ℕ)
  | filtering (batch rest live : List ℕ) (prepared : List P) (carry : Option ℕ)
  | executing (batch live : List ℕ) (carry : Option ℕ)
  | completing (todo : List (ℕ × Completion R)) (after : After)
  | flushed (carry : Option ℕ)
  | failFast
  | exited

def Worker.isExited {P R : Type} : Worker P R → Bool
  | exited => true
  | _ => false

structure Queue (P R : Type) where
  buf : List ℕ
  closed : Bool
  worker : Worker P R

def Queue.missing {P R : Type} : Queue P R := ⟨[], false, .absent⟩

inductive Closer where
  | idle
  | signalled
  | locked
  | copied (queues : List String)
  | closing (queues : List String)
  | done

/-- The holder of `enqueueMu`. -/
inductive Holder where
  | submit (i : ℕ)
  | close

/-- What has happened: a request came into its queue, the executor was called with a batch and
returned, a request was sent its completion. -/
inductive Entry (P R : Type) where
  | arrived (boundary : String) (req : ℕ)
  | started (boundary : String) (batch : List ℕ) (prepared : List P)
  | ended (boundary : String) (batch : List ℕ) (outcome : Outcome R)
  | completed (req : ℕ) (result : Completion R)

/-- `senders` are the calls the wait group counts, `results` what was sent to each call, and
`panicked` is set by a send on a closed channel or by closing one twice. -/
structure Coordinator (P R : Type) where
  closed : Bool
  holder : Option Holder
  registered : List String
  queues : String → Queue P R
  senders : List ℕ
  submits : ℕ → Submit R
  contexts : ℕ → Option ContextError
  results : ℕ → Option (Completion R)
  closer : Closer
  panicked : Bool
  history : List (Entry P R)

inductive SubmitAction where
  | enter
  | proceed
  | send
  | abandon
  | refuse
  | receive
  | leave

inductive WorkerAction (R : Type) where
  | proceed
  | receive
  | stop
  | sawClosed
  | executed (outcome : Outcome R)

inductive CloseAction where
  | signal
  | lock
  | copy (queues : List String)
  | settle
  | closeQueue
  | finish

inductive Action (R : Type) where
  | submit (i : ℕ) (a : SubmitAction)
  | cancel (i : ℕ) (e : ContextError)
  | worker (boundary : String) (a : WorkerAction R)
  | close (a : CloseAction)

inductive Effect (P R : Type) where
  | quiet
  | deliver (req : ℕ) (result : Completion R)
  | call (batch : List ℕ) (prepared : List P)
  | ended (batch : List ℕ) (outcome : Outcome R)

section Worker

variable {P R : Type} (cfg : Config) (calls : ℕ → Submission P)

def eventCount (batch : List ℕ) : ℤ := (batch.map fun i => (calls i).events).sum

/-- The condition of the loop of `drainBatch`. -/
def Drains (batch : List ℕ) : Prop :=
  batch.length < cfg.maxBatchRequests ∧ eventCount calls batch < cfg.maxBatchEvents

instance (batch : List ℕ) : Decidable (Drains cfg calls batch) :=
  inferInstanceAs (Decidable (_ ∧ _))

def failAll (batch : List ℕ) (e : SubmitError) : List (ℕ × Completion R) :=
  batch.map fun req => (req, .error e)

/-- The completions `runFlush` sends after the executor; a panic is everyone's of the batch. -/
def completions (batch live : List ℕ) : Outcome R → List (ℕ × Completion R)
  | .panicked value => failAll batch (.flushPanic value)
  | .failed cause => failAll live (.flush cause)
  | .returned outcomes =>
    if outcomes.length ≠ live.length
    then failAll live (.wrongOutcomes outcomes.length live.length)
    else live.zip (outcomes.map .ok)

/-- A step of the worker that takes no part in a `select`. -/
def Queue.proceed (closed : Bool) (contexts : ℕ → Option ContextError) (q : Queue P R) :
    Option (Queue P R × Effect P R) :=
  match q.worker with
  | .top (some req) => some ({ q with worker := .got req }, .quiet)
  | .got req => some ({ q with
      worker := if closed then .completing (failAll [req] .closed) .failFast
        else .draining [req] }, .quiet)
  | .draining batch =>
    if Drains cfg calls batch then none
    else some ({ q with worker := .drained batch none }, .quiet)
  | .drained batch carry => some ({ q with
      worker := if closed then .completing (failAll (batch ++ carry.toList) .closed) .failFast
        else .filtering batch batch [] [] carry }, .quiet)
  | .filtering batch (req :: rest) live prepared carry =>
    match contexts req with
    | some e => some ({ q with worker := .filtering batch rest live prepared carry },
        .deliver req (.error (.context e)))
    | none => some ({ q with
        worker := .filtering batch rest (live ++ [req]) (prepared ++ [(calls req).prepared]) carry },
        .quiet)
  | .filtering batch [] live prepared carry =>
    if live = [] then some ({ q with worker := .flushed carry }, .quiet)
    else some ({ q with worker := .executing batch live carry }, .call live prepared)
  | .completing ((req, result) :: todo) after =>
    some ({ q with worker := .completing todo after }, .deliver req result)
  | .completing [] (.flushed carry) => some ({ q with worker := .flushed carry }, .quiet)
  | .completing [] .failFast => some ({ q with worker := .failFast }, .quiet)
  | .flushed carry => some ({ q with
      worker := if closed then .completing (failAll carry.toList .closed) .failFast
        else .top carry }, .quiet)
  | _ => none

/-- The worker takes the next request out of the queue, or finds it closed. -/
def Queue.receive (q : Queue P R) : Option (Queue P R) :=
  match q.worker, q.buf with
  | .top none, req :: buf => some { q with buf := buf, worker := .got req }
  | .top none, [] => if q.closed then some { q with worker := .exited } else none
  | .draining batch, req :: buf =>
    if Drains cfg calls batch then some { q with
      buf := buf
      worker := if eventCount calls batch + (calls req).events > cfg.maxBatchEvents
        then .drained batch (some req) else .draining (batch ++ [req]) }
    else none
  | .draining batch, [] =>
    if Drains cfg calls batch ∧ q.closed = true then some { q with worker := .drained batch none }
    else none
  | .failFast, req :: buf => some { q with
      buf := buf, worker := .completing (failAll [req] .closed) .failFast }
  | .failFast, [] => if q.closed then some { q with worker := .exited } else none
  | _, _ => none

/-- The timer fires, or without a delay the queue has nothing ready. -/
def Queue.stop (q : Queue P R) : Option (Queue P R) :=
  match q.worker with
  | .draining batch =>
    if Drains cfg calls batch ∧ (cfg.delayed = true ∨ (q.buf = [] ∧ q.closed = false))
    then some { q with worker := .drained batch none } else none
  | _ => none

/-- The worker's `select` sees that the coordinator is closed. -/
def Queue.sawClosed (q : Queue P R) : Option (Queue P R) :=
  match q.worker with
  | .top none => some { q with worker := .failFast }
  | .draining batch =>
    if Drains cfg calls batch ∧ cfg.delayed = true then some { q with worker := .drained batch none }
    else none
  | _ => none

def Queue.executed (q : Queue P R) (outcome : Outcome R) : Option (Queue P R × Effect P R) :=
  match q.worker with
  | .executing batch live carry =>
    some ({ q with worker := .completing (completions batch live outcome) (.flushed carry) },
      .ended live outcome)
  | _ => none

def Queue.step (closed : Bool) (contexts : ℕ → Option ContextError) (q : Queue P R) :
    WorkerAction R → Option (Queue P R × Effect P R)
  | .proceed => q.proceed cfg calls closed contexts
  | .receive => (q.receive cfg calls).map (·, .quiet)
  | .stop => (q.stop cfg calls).map (·, .quiet)
  | .sawClosed => if closed then (q.sawClosed cfg calls).map (·, .quiet) else none
  | .executed outcome => q.executed outcome

end Worker

namespace Coordinator

variable {P R : Type} (cfg : Config) (calls : ℕ → Submission P)

def setSubmit (s : Coordinator P R) (i : ℕ) (pc : Submit R) : Coordinator P R :=
  { s with submits := Function.update s.submits i pc }

/-- The registration of a call: its queue is made if the boundary has none. -/
def register (s : Coordinator P R) (i : ℕ) : Coordinator P R :=
  let boundary := (calls i).boundary
  { s with
    holder := none
    registered := if boundary ∈ s.registered then s.registered else s.registered ++ [boundary]
    queues := if boundary ∈ s.registered then s.queues
      else Function.update s.queues boundary ⟨[], false, .top none⟩
    senders := i :: s.senders
    submits := Function.update s.submits i .admitting }

/-- The steps of a call that take no part in a `select`. -/
def proceed (s : Coordinator P R) (i : ℕ) : Option (Coordinator P R) :=
  match s.submits i with
  | .entered => some (s.setSubmit i (if s.closed then .returned (.error .closed) else .notClosed))
  | .notClosed => some (s.setSubmit i
      ((s.contexts i).elim .notCancelled fun e => .returned (.error (.context e))))
  | .notCancelled => some (s.setSubmit i
      (if (calls i).events ≤ 0 then .returned (.error .noEvents) else .checked))
  | .checked =>
    match s.holder with
    | some _ => none
    | none => some { s.setSubmit i .locked with holder := some (.submit i) }
  | .locked =>
    if s.closed then some { s.setSubmit i (.returned (.error .closed)) with holder := none }
    else some (s.setSubmit i .unclosed)
  | .unclosed => some (s.register calls i)
  | _ => none

/-- A call leaves the first `select` for good. -/
def unregister (s : Coordinator P R) (i : ℕ) (pc : Submit R) : Coordinator P R :=
  { s.setSubmit i pc with senders := s.senders.erase i }

def send (s : Coordinator P R) (i : ℕ) : Option (Coordinator P R) :=
  let boundary := (calls i).boundary
  match s.submits i with
  | .admitting =>
    if (s.queues boundary).closed then some { s with panicked := true }
    else if (s.queues boundary).buf.length < cfg.maxPending then some
      { s.unregister i .waiting with
        queues := Function.update s.queues boundary
          { s.queues boundary with buf := (s.queues boundary).buf ++ [i] }
        history := s.history ++ [.arrived boundary i] }
    else none
  | _ => none

def abandon (s : Coordinator P R) (i : ℕ) : Option (Coordinator P R) :=
  match s.submits i, s.contexts i with
  | .admitting, some e => some (s.unregister i (.returned (.error (.context e))))
  | _, _ => none

def refuse (s : Coordinator P R) (i : ℕ) : Option (Coordinator P R) :=
  match s.submits i, s.closed with
  | .admitting, true => some (s.unregister i (.returned (.error .closed)))
  | _, _ => none

def receive (s : Coordinator P R) (i : ℕ) : Option (Coordinator P R) :=
  match s.submits i, s.results i with
  | .waiting, some result => some (s.setSubmit i (.returned result))
  | _, _ => none

def leave (s : Coordinator P R) (i : ℕ) : Option (Coordinator P R) :=
  match s.submits i, s.contexts i with
  | .waiting, some e => some (s.setSubmit i (.returned (.error (.context e))))
  | _, _ => none

def submit (s : Coordinator P R) (i : ℕ) : SubmitAction → Option (Coordinator P R)
  | .enter =>
    match s.submits i with
    | .idle => some (s.setSubmit i .entered)
    | _ => none
  | .proceed => s.proceed calls i
  | .send => s.send cfg calls i
  | .abandon => s.abandon i
  | .refuse => s.refuse i
  | .receive => s.receive i
  | .leave => s.leave i

def cancel (s : Coordinator P R) (i : ℕ) (e : ContextError) : Option (Coordinator P R) :=
  match s.contexts i with
  | some _ => none
  | none => some { s with contexts := Function.update s.contexts i (some e) }

/-- `deliver`: a request that has its completion gets no other. -/
def deliver (s : Coordinator P R) (req : ℕ) (result : Completion R) : Coordinator P R :=
  match s.results req with
  | some _ => s
  | none =>
    { s with
      results := Function.update s.results req (some result)
      history := s.history ++ [.completed req result] }

def apply (s : Coordinator P R) (boundary : String) : Effect P R → Coordinator P R
  | .quiet => s
  | .deliver req result => s.deliver req result
  | .call batch prepared => { s with history := s.history ++ [.started boundary batch prepared] }
  | .ended batch outcome => { s with history := s.history ++ [.ended boundary batch outcome] }

def setQueue (s : Coordinator P R) (boundary : String) (q : Queue P R) : Coordinator P R :=
  { s with queues := Function.update s.queues boundary q }

def worker (s : Coordinator P R) (boundary : String) (a : WorkerAction R) :
    Option (Coordinator P R) :=
  ((s.queues boundary).step cfg calls s.closed s.contexts a).map fun r =>
    (s.setQueue boundary r.1).apply boundary r.2

def closeQueue (s : Coordinator P R) (boundary : String) (rest : List String) :
    Coordinator P R :=
  if (s.queues boundary).closed then { s with panicked := true }
  else
    { s.setQueue boundary { s.queues boundary with closed := true } with closer := .closing rest }

def close (s : Coordinator P R) : CloseAction → Option (Coordinator P R)
  | .signal =>
    match s.closer with
    | .idle => some { s with closed := true, closer := .signalled }
    | _ => none
  | .lock =>
    match s.closer, s.holder with
    | .signalled, none => some { s with holder := some .close, closer := .locked }
    | _, _ => none
  | .copy queues =>
    match s.closer with
    | .locked =>
      if queues.Perm s.registered then some { s with holder := none, closer := .copied queues }
      else none
    | _ => none
  | .settle =>
    match s.closer, s.senders with
    | .copied queues, [] => some { s with closer := .closing queues }
    | _, _ => none
  | .closeQueue =>
    match s.closer with
    | .closing (boundary :: rest) => some (s.closeQueue boundary rest)
    | _ => none
  | .finish =>
    match s.closer with
    | .closing [] =>
      if s.registered.all fun boundary => (s.queues boundary).worker.isExited
      then some { s with closer := .done } else none
    | _ => none

def step (s : Coordinator P R) : Action R → Option (Coordinator P R)
  | .submit i a => s.submit cfg calls i a
  | .cancel i e => s.cancel i e
  | .worker boundary a => s.worker cfg calls boundary a
  | .close a => s.close a

def initial : Coordinator P R where
  closed := false
  holder := none
  registered := []
  queues := fun _ => .missing
  senders := []
  submits := fun _ => .idle
  contexts := fun _ => none
  results := fun _ => none
  closer := .idle
  panicked := false
  history := []

end Coordinator

end Orisun.GroupCommit
