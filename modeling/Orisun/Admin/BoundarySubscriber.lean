import Orisun.Delivery

/-!
# The subscriber to lifecycle events

`Replay` reads the matching events after the process-local cursor page by page; `Start` follows them
through a subscription. Either way an event is handed to the handler, and one the handler fails on
gets a retry loop of its own, so that the cursor moves on behind both. Retry loops are told apart by
the event's id.

The handler is any code that starts with an event and ends with an error or without one; what it
does in between is left to who uses the subscriber.
-/

namespace Orisun.Admin

structure EventHandler (R : Type) where
  start : Event → R
  /-- Whether a run has ended, and then without an error. -/
  result : R → Option Bool

def eventId (e : Event) : String := (e.data.getText? "__eventId").getD ""

def eventType (e : Event) : String := (e.data.getText? "__eventType").getD ""

def boundaryDefinitionQuery (e : Event) : Bool := eventType e == "$BoundaryCreated"

def boundaryActivationQuery (e : Event) : Bool := eventType e == "$BoundaryActivated"

/-- What `scheduleRetry` tells events apart by. -/
def retryKey (e : Event) : String :=
  if eventId e = "" then
    eventType e ++ ":" ++ toString e.position.commitPosition ++ ":" ++
      toString e.position.preparePosition
  else eventId e

def lifecycleReplayBatchSize : ℕ := 100

/-- A page of `Replay`: its own cursor, whether the page was full, whether an event of it has been
handed over, and what is left of it. -/
structure ReplayPage where
  cursor : Position
  full : Bool
  advanced : Bool
  rest : List Event

inductive Source where
  | replay (page : ReplayPage)
  | subscription (reader : Reader)

/-- Where `Run` is: between its attempts, about to read a page, between `Replay` and `Start`, with a
source of events, in a call of the handler, or after it. -/
inductive MainState (R : Type) where
  | idle
  | reading (cursor : Position)
  | replayed
  | following (source : Source)
  | handling (source : Source) (event : Event) (run : R)
  | failed (source : Source) (event : Event)
  | handled (source : Source) (event : Event)

def MainState.current {R : Type} : MainState R → Option Event
  | .handling _ event _ => some event
  | .failed _ event => some event
  | .handled _ event => some event
  | _ => none

inductive LoopState (R : Type) where
  | waiting
  | handling (run : R)
  | leaving

structure RetryLoop (R : Type) where
  event : Event
  state : LoopState R

/-- The subscriber, with the events handed to the main path and those a call of the handler has
returned without an error for. -/
structure Subscriber (R : Type) where
  cursor : Position
  main : MainState R
  retrying : List String
  loops : List (RetryLoop R)
  handed : List Event
  succeeded : List Event

inductive Slot where
  | main
  | loop (i : ℕ)
  deriving DecidableEq

inductive SourceAction where
  | replay
  | readReplay (snapshot : ℕ)
  | failReplay
  | skip
  | endPage
  | subscribe
  | failSubscribe
  | wake
  | read (snapshot : ℕ)
  | reader (a : ReaderAction)
  | refuse (ctxErr check : Option String)
  | stop

inductive SubscriberAction (R : Type) where
  | source (a : SourceAction)
  | hand
  | advance (slot : Slot) (run : R)
  | returned
  | schedule
  | setPosition
  | fire (i : ℕ)
  | loopReturned (i : ℕ)
  | leave (i : ℕ)

/-- The page of a read of `Replay`. -/
def ReplayPage.read (p : Event → Bool) (log : List Event) (snapshot : ℕ) (cursor : Position) :
    ReplayPage :=
  let batch := getBatch p (log.take snapshot) ⟨.asc, lifecycleReplayBatchSize, some cursor⟩
  ⟨cursor, decide (lifecycleReplayBatchSize ≤ batch.length), false, batch⟩

/-- An event that is not after the cursor is passed over. -/
def ReplayPage.skip (page : ReplayPage) : Option ReplayPage :=
  match page.rest with
  | e :: rest => if page.cursor < e.position then none else some { page with rest }
  | [] => none

/-- A step of the subscription's reader other than a call of its handler. -/
def readerStep (reader : Reader) : ReaderAction → Option Reader
  | .handle _ _ _ => none
  | a => reader.step a

def refuse (reader : Reader) (ctxErr check : Option String) : Option Reader :=
  if (SubscriptionDrain.checkActive ctxErr check).isSome then reader.handle ctxErr check none
  else none

/-- The event a source hands over next, once the checks before it have passed. -/
def Source.head? : Source → Option Event
  | .replay page => page.rest.head?.filter fun e => decide (page.cursor < e.position)
  | .subscription reader =>
    match reader.state with
    | .delivering _ (event :: _) =>
      if reader.drain.cursor = some event.position then none else some event
    | _ => none

/-- The source after its first event has been handed over. -/
def Source.next (event : Event) : Source → Option Source
  | .replay page => some (.replay { page with
      cursor := event.position, advanced := true, rest := page.rest.tail })
  | .subscription reader => (reader.handle none none none).map .subscription

variable {R : Type}

/-- `Run` starts with `Replay`; `RunExclusive` has no replay. -/
def MainState.step (p : Event → Bool) (exclusive : Bool) (log : List Event) (cursor : Position) :
    MainState R → SourceAction → Option (MainState R)
  | .idle, .replay => if exclusive then none else some (.reading cursor)
  | .idle, .subscribe =>
    if exclusive then some (.following (.subscription (.initial (some cursor)))) else none
  | .reading c, .readReplay snapshot => some (.following (.replay (.read p log snapshot c)))
  | .reading _, .failReplay => some .idle
  | .following (.replay page), .skip => page.skip.map fun page => .following (.replay page)
  | .following (.replay page), .endPage =>
    if page.rest ≠ [] then none
    else if !page.full || !page.advanced then some .replayed
    else some (.reading page.cursor)
  | .replayed, .subscribe => some (.following (.subscription (.initial (some cursor))))
  | .replayed, .failSubscribe => some .idle
  | .following (.subscription reader), .wake => some (.following (.subscription reader.wake))
  | .handling (.subscription reader) event run, .wake =>
    some (.handling (.subscription reader.wake) event run)
  | .following (.subscription reader), .read snapshot =>
    (reader.receiveBatch (getBatch p (log.take snapshot) reader.drain.request)).map
      fun reader => .following (.subscription reader)
  | .following (.subscription reader), .reader a =>
    (readerStep reader a).map fun reader => .following (.subscription reader)
  | .following (.subscription reader), .refuse ctxErr check =>
    (refuse reader ctxErr check).map fun reader => .following (.subscription reader)
  | .following (.subscription ⟨_, .stopped _, _⟩), .stop => some .idle
  | _, _ => none

namespace Subscriber

def initial : Subscriber R := ⟨notExistsPosition, .idle, [], [], [], []⟩

/-- `setPosition` moves the cursor forward only. -/
def setCursor (s : Subscriber R) (position : Position) : Subscriber R :=
  if positionValuesAfter position.commitPosition position.preparePosition
      s.cursor.commitPosition s.cursor.preparePosition
  then { s with cursor := position } else s

def scheduleRetry (s : Subscriber R) (event : Event) : Subscriber R :=
  if retryKey event ∈ s.retrying then s
  else { s with
    retrying := retryKey event :: s.retrying
    loops := s.loops ++ [⟨event, .waiting⟩] }

def run? (s : Subscriber R) : Slot → Option R
  | .main =>
    match s.main with
    | .handling _ _ run => some run
    | _ => none
  | .loop i =>
    match s.loops[i]? with
    | some ⟨_, .handling run⟩ => some run
    | _ => none

def setLoop (s : Subscriber R) (i : ℕ) (l : RetryLoop R) : Subscriber R :=
  { s with loops := s.loops.set i l }

/-- The call in a slot has come to `run`. -/
def setRun (s : Subscriber R) (run : R) : Slot → Subscriber R
  | .main =>
    match s.main with
    | .handling source event _ => { s with main := .handling source event run }
    | _ => s
  | .loop i =>
    match s.loops[i]? with
    | some ⟨event, .handling _⟩ => s.setLoop i ⟨event, .handling run⟩
    | _ => s

variable (h : EventHandler R) (p : Event → Bool) (exclusive : Bool)

def step (log : List Event) (s : Subscriber R) : SubscriberAction R → Option (Subscriber R)
  | .source a => (s.main.step p exclusive log s.cursor a).map fun main => { s with main }
  | .hand =>
    match s.main with
    | .following source => source.head?.map fun event =>
      { s with main := .handling source event (h.start event), handed := s.handed ++ [event] }
    | _ => none
  | .advance slot run => (s.run? slot).map fun _ => s.setRun run slot
  | .returned =>
    match s.main with
    | .handling source event run => (h.result run).map fun ok =>
      if ok then { s with main := .handled source event, succeeded := event :: s.succeeded }
      else { s with main := .failed source event }
    | _ => none
  | .schedule =>
    match s.main with
    | .failed source event =>
      some { s.scheduleRetry event with main := .handled source event }
    | _ => none
  | .setPosition =>
    match s.main with
    | .handled source event => (source.next event).map fun source =>
      { s.setCursor event.position with main := .following source }
    | _ => none
  | .fire i =>
    match s.loops[i]? with
    | some ⟨event, .waiting⟩ => some (s.setLoop i ⟨event, .handling (h.start event)⟩)
    | _ => none
  | .loopReturned i =>
    match s.loops[i]? with
    | some ⟨event, .handling run⟩ => (h.result run).map fun ok =>
      if ok then
        { s.setLoop i ⟨event, .leaving⟩ with succeeded := event :: s.succeeded }
      else s.setLoop i ⟨event, .waiting⟩
    | _ => none
  | .leave i =>
    match s.loops[i]? with
    | some ⟨event, .leaving⟩ =>
      some { s with
        retrying := s.retrying.erase (retryKey event), loops := s.loops.eraseIdx i }
    | _ => none

end Subscriber

/-- The admin log with a subscriber that lives as long as the process. -/
structure Following (R : Type) where
  log : List Event
  subscriber : Subscriber R

inductive FollowingAction (R : Type) where
  | append (event : Event)
  | subscriber (a : SubscriberAction R)

def appendEventTo (log : List Event) (event : Event) : Option (List Event) :=
  if notExistsPosition < event.position ∧ ∀ x ∈ log, x.position < event.position then
    some (log ++ [event])
  else none

def Following.initial : Following R := ⟨[], .initial⟩

def Following.step (h : EventHandler R) (p : Event → Bool) (exclusive : Bool) (f : Following R) :
    FollowingAction R → Option (Following R)
  | .append event => (appendEventTo f.log event).map fun log => { f with log }
  | .subscriber a => (f.subscriber.step h p exclusive f.log a).map fun subscriber =>
    { f with subscriber }

def Subscriber.loopsOn (s : Subscriber R) (event : Event) : List (RetryLoop R) :=
  s.loops.filter fun l => l.event.position == event.position

/-- Every matching event up to the cursor has been handled or has one retry loop. -/
def NothingDropped (p : Event → Bool) (f : Following R) : Prop :=
  ∀ e ∈ f.log, p e = true → e.position ≤ f.subscriber.cursor →
    e ∈ f.subscriber.succeeded ∨ (f.subscriber.loopsOn e).length = 1

def DistinctKeys (p : Event → Bool) (log : List Event) : Prop :=
  ((log.filter p).map retryKey).Nodup

end Orisun.Admin
