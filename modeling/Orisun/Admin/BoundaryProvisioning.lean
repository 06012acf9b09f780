import Orisun.Admin.BoundaryRuntime

/-!
# Provisioning by one node

The nodes of a cluster follow the definitions of the admin log through one shared subscription,
whose lease one of them holds at a time. The node that does hands the definitions to a handler,
which provisions the boundary's storage and appends the outcome. The lease is checked before an
event is handed over; the call itself, and the retry loops, run until they end.
-/

namespace Orisun.Admin

section Cluster

variable (decode : Event → AdminEvent)

/-- A call of `Handle`: in the command's handler, in `ensureGlobal` after it, or over. -/
inductive ProvisionRun where
  | command (definition : Definition) (handler : Handler)
  | ensuring (name : String)
  | finished (ok : Bool)

/-- A boundary that is active needs its shared resources only. -/
def ProvisionRun.ofHandler (definition : Definition) : Handler → ProvisionRun
  | .finished (.ok ()) _ => .finished true
  | .finished (.error e) _ => if e.isAlreadyExists then .ensuring definition.name else .finished false
  | h => .command definition h

/-- `definitionFromEvent` before the command. -/
def ProvisionRun.start (event : Event) : ProvisionRun :=
  match decode event with
  | .boundaryCreated definition => .ofHandler definition (.provisionBoundary definition)
  | _ => .finished false

def ProvisionRun.result : ProvisionRun → Option Bool
  | .finished ok => some ok
  | _ => none

def provisioningHandler : EventHandler ProvisionRun :=
  ⟨ProvisionRun.start decode, ProvisionRun.result⟩

/-- The admin log, who holds the lease of the subscription, and the nodes. `acted` has who held it
whenever a node has started to provision or has sent an outcome. -/
structure Cluster where
  log : List Event
  holder : Option ℕ
  nodes : List (Subscriber ProvisionRun)
  acted : List (ℕ × Option ℕ)

inductive ClusterAction where
  | append (event : Event)
  | acquire (i : ℕ)
  | lose
  | stop (i : ℕ)
  | subscriber (i : ℕ) (a : SubscriberAction ProvisionRun)
  | load (i : ℕ) (slot : Slot)
  | provision (i : ℕ) (slot : Slot) (error : Option String)
  | appendOutcome (i : ℕ) (slot : Slot) (event : Event) (fault : Fault)
  | ensureGlobal (i : ℕ) (slot : Slot) (ok : Bool)

namespace Cluster

def initial (n : ℕ) : Cluster := ⟨[], none, List.replicate n .initial, []⟩

def entries (c : Cluster) : List LogEntry := c.log.map (logEntry decode)

def setNode (c : Cluster) (i : ℕ) (s : Subscriber ProvisionRun) : Cluster :=
  { c with nodes := c.nodes.set i s }

def command? (c : Cluster) (i : ℕ) (slot : Slot) :
    Option (Subscriber ProvisionRun × Definition × Handler) := do
  let s ← c.nodes[i]?
  match s.run? slot with
  | some (.command definition h) => some (s, definition, h)
  | _ => none

def record (c : Cluster) (i : ℕ) : Cluster := { c with acted := (i, c.holder) :: c.acted }

def subscribe (c : Cluster) (i : ℕ) (a : SourceAction) : Option (Subscriber ProvisionRun) := do
  let s ← c.nodes[i]?
  s.step (provisioningHandler decode) boundaryDefinitionQuery true c.log (.source a)

/-- `AcquireLock` succeeds while nobody holds the lease. -/
def acquire (c : Cluster) (i : ℕ) : Option Cluster :=
  if c.holder = none then
    (c.subscribe decode i .subscribe).map fun s => { c.setNode i s with holder := some i }
  else none

/-- `Start` returns and releases its lease. -/
def stop (c : Cluster) (i : ℕ) : Option Cluster :=
  (c.subscribe decode i .stop).map fun s =>
    { c.setNode i s with holder := if c.holder = some i then none else c.holder }

def subscriber (c : Cluster) (i : ℕ) (a : SubscriberAction ProvisionRun) : Option Cluster := do
  let s ← c.nodes[i]?
  let s ← s.step (provisioningHandler decode) boundaryDefinitionQuery true c.log a
  return c.setNode i s

def load (c : Cluster) (i : ℕ) (slot : Slot) : Option Cluster := do
  let (s, definition, h) ← c.command? i slot
  let h ← h.load (c.entries decode)
  let c' := c.setNode i (s.setRun (.ofHandler definition h) slot)
  -- the provisioner is called at once
  return match h with
    | .provisioning _ _ => c'.record i
    | _ => c'

def provision (c : Cluster) (i : ℕ) (slot : Slot) (error : Option String) : Option Cluster := do
  let (s, definition, h) ← c.command? i slot
  let h ← h.provisioned error
  return c.setNode i (s.setRun (.ofHandler definition h) slot)

def appendOutcome (c : Cluster) (i : ℕ) (slot : Slot) (event : Event) (fault : Fault) :
    Option Cluster := do
  let (s, definition, h) ← c.command? i slot
  let (outcome, holds) ← h.pending (c.entries decode)
  if decode event ≠ outcome then none
  else do
    let stored ← appendEventTo c.log event
    let (_, result) := appendEvent (c.entries decode) outcome holds event.position fault
    let log := if holds ∧ fault ≠ .lost then stored else c.log
    return { c.setNode i (s.setRun (.ofHandler definition (h.appended result)) slot) with
      log }.record i

def ensureGlobal (c : Cluster) (i : ℕ) (slot : Slot) (ok : Bool) : Option Cluster := do
  let s ← c.nodes[i]?
  match s.run? slot with
  | some (.ensuring _) => some (c.setNode i (s.setRun (.finished ok) slot))
  | _ => none

/-- A node moves its calls by the handler's own steps, and its lease by the steps above. -/
def step (c : Cluster) : ClusterAction → Option Cluster
  | .append event => (appendEventTo c.log event).map fun log => { c with log }
  | .acquire i => c.acquire decode i
  | .lose => some { c with holder := none }
  | .stop i => c.stop decode i
  | .subscriber _ (.advance _ _) => none
  | .subscriber _ (.source .subscribe) => none
  | .subscriber _ (.source .stop) => none
  | .subscriber i .hand => if c.holder = some i then c.subscriber decode i .hand else none
  | .subscriber i a => c.subscriber decode i a
  | .load i slot => c.load decode i slot
  | .provision i slot error => c.provision i slot error
  | .appendOutcome i slot event fault => c.appendOutcome decode i slot event fault
  | .ensureGlobal i slot ok => c.ensureGlobal i slot ok

end Cluster

/-- Whoever has started to provision or has sent an outcome held the lease. -/
def Exclusive (c : Cluster) : Prop := ∀ i holder, (i, holder) ∈ c.acted → holder = some i

/-- The node is in a call of the handler, or has a retry loop. -/
def Subscriber.busy {R : Type} (s : Subscriber R) : Bool :=
  !s.loops.isEmpty || s.main.current.isSome

/-- The lease is lost or given up by a node that is not busy. -/
def ClusterAction.Orderly (c : Cluster) : ClusterAction → Prop
  | .lose => ∀ i s, c.holder = some i → c.nodes[i]? = some s → s.busy = false
  | .stop i => ∀ s, c.nodes[i]? = some s → s.busy = false
  | _ => True

end Cluster

end Orisun.Admin
