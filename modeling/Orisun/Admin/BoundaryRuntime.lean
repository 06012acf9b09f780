import Orisun.Admin.BoundaryLifecycle
import Orisun.Admin.BoundarySubscriber

/-!
# Boundaries in a process

Every process follows the activations of the admin log and installs each active boundary into its
own runtime before it lets requests through to it. What an activation means is read from the catalog
as it is when the activation is handled, which is rebuilt page by page from the log.
-/

namespace Orisun.Admin

inductive GateError where
  | invalidBoundary (name : String) (e : NameError)
  | notActive (name : String)
  deriving DecidableEq, Repr

/-- `RequireBoundaryActive` of a process that has enabled the gate. -/
def requireBoundaryActive (activeBoundaries : List String) (boundary : String) :
    Except GateError Unit :=
  match validateName boundary with
  | .error e => .error (.invalidBoundary boundary e)
  | .ok () => if boundary ∈ activeBoundaries then .ok () else .error (.notActive boundary)

/-- `ActivateBoundary`. -/
def activateBoundary (activeBoundaries : List String) (boundary : String) :
    Except GateError (List String) :=
  match validateName boundary with
  | .error e => .error (.invalidBoundary boundary e)
  | .ok () => .ok (boundary :: activeBoundaries)

/-- `EnableBoundaryActivationGate` of a new process. -/
def enableBoundaryActivationGate (initiallyActive : List String) :
    Except GateError (List String) := do
  initiallyActive.forM fun name => (validateName name).mapError (.invalidBoundary name)
  return initiallyActive

def catalogReadBatchSize : ℕ := 1000

inductive CatalogQueryError where
  | rebuild (position : Position) (e : CatalogError)
  | unrelated (position : Position)
  deriving DecidableEq, Repr

section Handler

-- how an event's data decodes, and which events the lifecycle query of a name selects
variable (decode : Event → AdminEvent) (lifecycleQuery : String → Event → Bool)

def logEntry (e : Event) : LogEntry := ⟨e.position, decode e⟩

def applyPage : Catalog → Position → Bool → List Event →
    Except CatalogQueryError (Catalog × Position × Bool)
  | catalog, cursor, advanced, [] => .ok (catalog, cursor, advanced)
  | catalog, cursor, advanced, event :: batch =>
    if event.position = cursor then applyPage catalog cursor advanced batch
    else match catalog.apply (logEntry decode event) with
      | .error e => .error (.rebuild event.position e)
      | .ok (catalog, applied) =>
        if !applied then .error (.unrelated event.position)
        else applyPage catalog event.position true batch

/-- A call of `Handle`: in `replayCatalog`, in the installer, about to activate, or over. -/
inductive RuntimeRun where
  | reading (event : Event) (name : String) (catalog : Catalog) (cursor : Position)
  | installing (definition : Definition)
  | activating (name : String)
  | finished (ok : Bool)

namespace RuntimeRun

def start (event : Event) : RuntimeRun :=
  match decode event with
  | .boundaryActivated boundary =>
    match validateName (trimSpace boundary) with
    | .error _ => .finished false
    | .ok () => .reading event (trimSpace boundary) [] notExistsPosition
  | _ => .finished false

/-- The catalog has been replayed. An activation without a definition, or before it, is ignored. -/
def replayed (event : Event) (name : String) (catalog : Catalog) : RuntimeRun :=
  match catalog.get name with
  | none => .finished true
  | some b =>
    if ¬ b.definitionPosition < event.position then .finished true
    else if b.status ≠ .active then .finished false
    else .installing ⟨b.name, b.description, b.placement⟩

def read (log : List Event) (snapshot : ℕ) : RuntimeRun → Option RuntimeRun
  | .reading event name catalog cursor =>
    let batch := getBatch (lifecycleQuery name) (log.take snapshot)
      ⟨.asc, catalogReadBatchSize, some cursor⟩
    some <| match applyPage decode catalog cursor false batch with
      | .error _ => .finished false
      | .ok (catalog, cursor, advanced) =>
        if batch.length < catalogReadBatchSize || !advanced then replayed event name catalog
        else .reading event name catalog cursor
  | _ => none

def result : RuntimeRun → Option Bool
  | .finished ok => some ok
  | _ => none

end RuntimeRun

def runtimeHandler : EventHandler RuntimeRun := ⟨RuntimeRun.start decode, RuntimeRun.result⟩

/-- The admin log, and a process that follows it. `installed` are the definitions its installer has
completed with. -/
structure Process where
  log : List Event
  activeBoundaries : List String
  installed : List Definition
  subscriber : Subscriber RuntimeRun

inductive ProcessAction where
  | append (event : Event)
  | subscriber (a : SubscriberAction RuntimeRun)
  | read (slot : Slot) (snapshot : ℕ)
  | failRead (slot : Slot)
  | install (slot : Slot) (ok : Bool)
  | activate (slot : Slot)

namespace Process

def start (initiallyActive : List String) : Except GateError Process :=
  (enableBoundaryActivationGate initiallyActive).map fun active => ⟨[], active, [], .initial⟩

def setRun (w : Process) (slot : Slot) (run : RuntimeRun) : Process :=
  { w with subscriber := w.subscriber.setRun run slot }

def read (w : Process) (slot : Slot) (snapshot : ℕ) : Option Process := do
  let run ← w.subscriber.run? slot
  let run ← run.read decode lifecycleQuery w.log snapshot
  return w.setRun slot run

def failRead (w : Process) (slot : Slot) : Option Process :=
  match w.subscriber.run? slot with
  | some (.reading _ _ _ _) => some (w.setRun slot (.finished false))
  | _ => none

def install (w : Process) (slot : Slot) (ok : Bool) : Option Process :=
  match w.subscriber.run? slot with
  | some (.installing definition) => some <|
    if ok then
      { w.setRun slot (.activating definition.name) with installed := definition :: w.installed }
    else w.setRun slot (.finished false)
  | _ => none

def activate (w : Process) (slot : Slot) : Option Process :=
  match w.subscriber.run? slot with
  | some (.activating name) => some <|
    match activateBoundary w.activeBoundaries name with
    | .error _ => w.setRun slot (.finished false)
    | .ok activeBoundaries => { w.setRun slot (.finished true) with activeBoundaries }
  | _ => none

def step (w : Process) : ProcessAction → Option Process
  | .append event => (appendEventTo w.log event).map fun log => { w with log }
  | .subscriber (.advance _ _) => none
  | .subscriber a =>
    (w.subscriber.step (runtimeHandler decode) boundaryActivationQuery false w.log a).map
      fun subscriber => { w with subscriber }
  | .read slot snapshot => w.read decode lifecycleQuery slot snapshot
  | .failRead slot => w.failRead slot
  | .install slot ok => w.install slot ok
  | .activate slot => w.activate slot

end Process

/-- The log has the definition and an activation of it after it. -/
def Recorded (log : List Event) (definition : Definition) : Prop :=
  ∃ created ∈ log, ∃ activated ∈ log, decode created = .boundaryCreated definition ∧
    decode activated = .boundaryActivated definition.name ∧ created.position < activated.position

end Handler

end Orisun.Admin
