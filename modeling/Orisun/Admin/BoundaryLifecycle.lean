import Orisun.Admin.BoundaryCatalog
import Orisun.Lib.Transition

/-!
# Commands on boundaries

`CreateBoundary` and `ProvisionBoundary` read the latest events of one boundary from the admin log
and append under the observation that no other was added. The handlers of any number of nodes run
interleaved, one step at a time; a step is one read, one call of the provisioner or one append, and
a handler can stop between any two of them.
-/

namespace Orisun.Admin

open OptimisticLog

/-- `unicode.IsSpace`. -/
def isSpace (c : Char) : Bool :=
  c.val ∈ [0x20, 0x85, 0xA0, 0x1680, 0x2028, 0x2029, 0x202F, 0x205F, 0x3000] ||
    (0x09 ≤ c.val && c.val ≤ 0x0D) || (0x2000 ≤ c.val && c.val ≤ 0x200A)

def trimSpace (s : String) : String :=
  String.ofList (((s.toList.dropWhile isSpace).reverse.dropWhile isSpace).reverse)

inductive CommandError where
  | invalidBoundary (name : String) (e : NameError)
  | placementRequired
  | alreadyExists (name : String)
  | noDefinition (name : String)
  | rebuild (name : String) (e : CatalogError)
  | notDescribed (name : String)
  | alreadyActive (name : String)
  | conflict
  | appendFailed
  | provisioning (error : String)
  | recordFailure (name error : String)
  deriving DecidableEq, Repr

/-- The error has the code `AlreadyExists`. -/
def CommandError.isAlreadyExists : CommandError → Bool
  | alreadyExists _ => true
  | alreadyActive _ => true
  | conflict => true
  | _ => false

def requirePlacement (placement : Placement) : Except CommandError Unit :=
  if placement.backend = "" || placement.namespace = "" then .error .placementRequired else .ok ()

def requireName (name : String) : Except CommandError Unit :=
  (validateName name).mapError (.invalidBoundary name)

/-- `normalize`. -/
def normalize (command : Definition) : Except CommandError Definition := do
  let definition : Definition :=
    ⟨trimSpace command.name, trimSpace command.description,
      ⟨trimSpace command.placement.backend, trimSpace command.placement.namespace⟩⟩
  requireName definition.name
  requirePlacement definition.placement
  return definition

def validateDefinition (definition : Definition) : Except CommandError Unit := do
  requireName definition.name
  requirePlacement definition.placement

def lifecyclePosition (log : List LogEntry) (name : String) : Position :=
  standsAt notExistsPosition (isLifecycle name) log

def definitionPosition (log : List LogEntry) (name : String) : Position :=
  standsAt notExistsPosition (isCreated name) log

/-- `loadContext` of `create_boundary`: the position to append at, if the boundary is not defined. -/
def loadDefinition (log : List LogEntry) (name : String) : Except CommandError Position :=
  match latest? (isCreated name) log with
  | some _ => .error (.alreadyExists name)
  | none => .ok (definitionPosition log name)

structure CommandContext where
  boundary : Boundary
  position : Position
  deriving DecidableEq, Repr

/-- The definition of a boundary and its latest outcomes, in the order of the log. -/
def contextEvents (log : List LogEntry) (name : String) (definition : LogEntry) :
    List LogEntry :=
  let outcomes := [latest? (isActivated name) log, latest? (isFailed name) log].filterMap id
  -- outcomes before the definition belong to a removed one
  let events := definition :: outcomes.filter fun e => decide (definition.position < e.position)
  events.insertionSort fun e f => e.position ≤ f.position

/-- `loadContext` of `boundary_provisioning`: the state of a boundary from the latest event of each
kind. -/
def loadContext (log : List LogEntry) (name : String) : Except CommandError CommandContext :=
  match latest? (isCreated name) log with
  | none => .error (.noDefinition name)
  | some definition =>
    match Catalog.replay (contextEvents log name definition) with
    | .error e => .error (.rebuild name e)
    | .ok catalog =>
      match catalog.get name with
      | none => .error (.notDescribed name)
      | some boundary => .ok ⟨boundary, lifecyclePosition log name⟩

/-- Where a handler is. `attempts` counts the appends of an activation so far. -/
inductive Handler where
  | defining (definition : Definition)
  | appendingDefinition (definition : Definition) (position : Position)
  | loading (definition : Definition)
  | provisioning (definition : Definition) (model : CommandContext)
  | activating (definition : Definition) (model : CommandContext) (attempts : ℕ)
  | reloading (definition : Definition) (attempts : ℕ)
  | failing (definition : Definition) (model : CommandContext) (error : String)
  | finished (result : Except CommandError Unit) (attempts : ℕ)

def Handler.attempts : Handler → ℕ
  | activating _ _ attempts => attempts
  | reloading _ attempts => attempts
  | finished _ attempts => attempts
  | _ => 0

/-- What becomes of an append beside a conflict: it can fail before it is stored, or be stored and
its answer lost. -/
inductive Fault where
  | none | lost | unacknowledged
  deriving DecidableEq, Repr

structure World where
  log : List LogEntry
  handlers : List Handler

def World.initial : World := ⟨[], []⟩

inductive Action where
  | createBoundary (command : Definition)
  | provisionBoundary (definition : Definition)
  | load (i : ℕ)
  | provision (i : ℕ) (error : Option String)
  | append (i : ℕ) (position : Position) (fault : Fault)
  | crash (i : ℕ)
  | other (position : Position) (eventType : String)

def fresh (log : List LogEntry) (position : Position) : Bool :=
  decide (notExistsPosition < position) && log.all fun e => decide (e.position < position)

/-- A call up to its first read: the definition is checked. -/
def Handler.createBoundary (command : Definition) : Handler :=
  match normalize command with
  | .error e => .finished (.error e) 0
  | .ok definition => .defining definition

@[inherit_doc Handler.createBoundary]
def Handler.provisionBoundary (definition : Definition) : Handler :=
  match validateDefinition definition with
  | .error e => .finished (.error e) 0
  | .ok () => .loading definition

def Handler.load (log : List LogEntry) : Handler → Option Handler
  | .defining definition => some <|
    match loadDefinition log definition.name with
    | .error e => .finished (.error e) 0
    | .ok position => .appendingDefinition definition position
  | .loading definition => some <|
    match loadContext log definition.name with
    | .error e => .finished (.error e) 0
    | .ok model =>
      if model.boundary.status = .active then
        .finished (.error (.alreadyActive definition.name)) 0
      else .provisioning definition model
  | .reloading definition attempts => some <|
    match loadContext log definition.name with
    | .error e => .finished (.error e) attempts
    | .ok model =>
      if model.boundary.status = .active then
        .finished (.error (.alreadyActive definition.name)) attempts
      else .activating definition model attempts
  | _ => none

/-- The provisioner returns. A failure is not recorded over one that is. -/
def Handler.provisioned (error : Option String) : Handler → Option Handler
  | .provisioning definition model => some <|
    match error with
    | none => .activating definition model 0
    | some error =>
      if model.boundary.status = .failed then .finished (.error (.provisioning error)) 0
      else .failing definition model error
  | _ => none

/-- The event a handler is about to append, with the observation it is appended under. -/
def Handler.pending (log : List LogEntry) : Handler → Option (AdminEvent × Bool)
  | .appendingDefinition definition position =>
    some (.boundaryCreated definition, definitionPosition log definition.name == position)
  | .activating definition model _ =>
    some (.boundaryActivated definition.name,
      lifecyclePosition log definition.name == model.position)
  | .failing definition model error =>
    some (.boundaryProvisioningFailed definition.name error,
      lifecyclePosition log definition.name == model.position)
  | _ => none

def Handler.appended (result : Except CommandError Unit) : Handler → Handler
  | .activating definition _ attempts =>
    match result with
    | .ok () => .finished (.ok ()) (attempts + 1)
    | .error e =>
      if e.isAlreadyExists then .reloading definition (attempts + 1)
      else .finished (.error e) (attempts + 1)
  | .failing definition _ error =>
    match result with
    | .ok () => .finished (.error (.provisioning error)) 0
    | .error e =>
      if e.isAlreadyExists then .finished (.error (.provisioning error)) 0
      else .finished (.error (.recordFailure definition.name error)) 0
  | _ => .finished result 0

/-- The log after an append, and what the append returns. -/
def appendEvent (log : List LogEntry) (event : AdminEvent) (holds : Bool) (position : Position) :
    Fault → List LogEntry × Except CommandError Unit
  | .lost => (log, .error .appendFailed)
  | .none => if holds then (log ++ [⟨position, event⟩], .ok ()) else (log, .error .conflict)
  | .unacknowledged =>
    if holds then (log ++ [⟨position, event⟩], .error .appendFailed) else (log, .error .conflict)

def World.setHandler (w : World) (i : ℕ) (h : Handler) : World :=
  { w with handlers := w.handlers.set i h }

def World.step (w : World) : Action → Option World
  | .createBoundary command => some { w with handlers := w.handlers ++ [.createBoundary command] }
  | .provisionBoundary definition =>
    some { w with handlers := w.handlers ++ [.provisionBoundary definition] }
  | .load i => do
    let h ← w.handlers[i]?
    let h ← h.load w.log
    return w.setHandler i h
  | .provision i error => do
    let h ← w.handlers[i]?
    let h ← h.provisioned error
    return w.setHandler i h
  | .append i position fault => do
    let h ← w.handlers[i]?
    let (event, holds) ← h.pending w.log
    if fresh w.log position then
      let (log, result) := appendEvent w.log event holds position fault
      return { log, handlers := w.handlers.set i (h.appended result) }
    else none
  | .crash i => do
    let h ← w.handlers[i]?
    return w.setHandler i (.finished (.error .appendFailed) h.attempts)
  | .other position eventType =>
    if fresh w.log position then some { w with log := w.log ++ [⟨position, .other eventType⟩] }
    else none

/-- The events of one boundary: its definition, at most one failure, and at most one activation. -/
inductive Lifecycle (name : String) : List AdminEvent → Prop where
  | nothing : Lifecycle name []
  | created (d : Definition) : d.name = name → Lifecycle name [.boundaryCreated d]
  | failed (d : Definition) (e : String) : d.name = name →
      Lifecycle name [.boundaryCreated d, .boundaryProvisioningFailed name e]
  | activated (d : Definition) : d.name = name →
      Lifecycle name [.boundaryCreated d, .boundaryActivated name]
  | recovered (d : Definition) (e : String) : d.name = name →
      Lifecycle name [.boundaryCreated d, .boundaryProvisioningFailed name e,
        .boundaryActivated name]

/-- The lifecycle events of a boundary in the order of the log. -/
def lifecycle (log : List LogEntry) (name : String) : List AdminEvent :=
  (select (isLifecycle name) log).map Entry.event

def LacksText (log : List LogEntry) : Prop :=
  ∃ e ∈ log, ∃ boundary, e.event = .boundaryProvisioningFailed boundary ""

end Orisun.Admin
