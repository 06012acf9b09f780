import Orisun.Lib.Fields
import Orisun.Lib.OptimisticLog
import Orisun.Position

/-!
# The boundary catalog

A boundary's definition and the outcomes of provisioning it are events of the admin log. The catalog
folds them into the state of every boundary.
-/

namespace Orisun.Admin

structure Placement where
  backend : String
  «namespace» : String
  deriving DecidableEq, Repr

structure Definition where
  name : String
  description : String
  placement : Placement
  deriving DecidableEq, Repr

inductive Status where
  | provisioning | active | failed
  deriving DecidableEq, Repr

structure Boundary where
  name : String
  description : String
  placement : Placement
  status : Status
  lastError : String
  definitionPosition : Position
  statusPosition : Position
  deriving DecidableEq, Repr

def letter (c : Char) : Bool := ('a' ≤ c && c ≤ 'z') || ('A' ≤ c && c ≤ 'Z')

def digit (c : Char) : Bool := '0' ≤ c && c ≤ '9'

inductive NameError where
  | length (n : ℕ)
  | start
  | character (i : ℕ)
  deriving DecidableEq, Repr

/-- The bytes of a name are its characters, where no character is refused. -/
def validateName (name : String) : Except NameError Unit :=
  match name.toList with
  | [] => .error (.length 0)
  | c :: cs =>
    if name.utf8ByteSize > 63 then .error (.length name.utf8ByteSize)
    else if !letter c && c != '_' then .error .start
    else match cs.findIdx? fun c => !letter c && !digit c && c != '_' with
      | some i => .error (.character (i + 1))
      | none => .ok ()

/-- An event of the admin log. `undecodable` is a lifecycle event whose data does not decode. -/
inductive AdminEvent where
  | boundaryCreated (definition : Definition)
  | boundaryActivated (boundary : String)
  | boundaryProvisioningFailed (boundary error : String)
  | undecodable (eventType : String)
  | other (eventType : String)
  deriving DecidableEq, Repr

abbrev LogEntry := OptimisticLog.Entry Position AdminEvent

/-- `boundary = name` and `__eventType = $BoundaryCreated`. -/
def isCreated (name : String) : AdminEvent → Bool
  | .boundaryCreated definition => definition.name == name
  | _ => false

def isActivated (name : String) : AdminEvent → Bool
  | .boundaryActivated boundary => boundary == name
  | _ => false

def isFailed (name : String) : AdminEvent → Bool
  | .boundaryProvisioningFailed boundary _ => boundary == name
  | _ => false

def isLifecycle (name : String) (event : AdminEvent) : Bool :=
  isCreated name event || isActivated name event || isFailed name event

inductive CatalogError where
  | decode (eventType : String)
  | nameRequired
  | noPlacementBackend (name : String)
  | noPlacementNamespace (name : String)
  | alreadyDefined (name : String)
  | noBoundary (eventType : String)
  | emptyError (eventType : String)
  deriving DecidableEq, Repr

def Definition.boundary (definition : Definition) (position : Position) : Boundary where
  name := definition.name
  description := definition.description
  placement := definition.placement
  status := .provisioning
  lastError := ""
  definitionPosition := position
  statusPosition := position

abbrev Catalog := List (String × Boundary)

namespace Catalog

def define (c : Catalog) (definition : Definition) (position : Position) :
    Except CatalogError Catalog :=
  if definition.name = "" then .error .nameRequired
  else if definition.placement.backend = "" then .error (.noPlacementBackend definition.name)
  else if definition.placement.namespace = "" then .error (.noPlacementNamespace definition.name)
  else if (c.lookup definition.name).isSome then .error (.alreadyDefined definition.name)
  else .ok (Fields.insert definition.name (definition.boundary position) c)

/-- `Apply`: the catalog, and whether the event was a lifecycle event. -/
def apply (c : Catalog) (entry : LogEntry) : Except CatalogError (Catalog × Bool) :=
  match entry.event with
  | .boundaryCreated definition => (c.define definition entry.position).map (·, true)
  | .boundaryActivated name =>
    if name = "" then .error (.noBoundary "$BoundaryActivated")
    else match c.lookup name with
      | none => .ok (c, true)
      | some b => .ok (Fields.insert name
          { b with status := .active, lastError := "", statusPosition := entry.position } c, true)
  | .boundaryProvisioningFailed name error =>
    if name = "" then .error (.noBoundary "$BoundaryProvisioningFailed")
    else match c.lookup name with
      | none => .ok (c, true)
      | some b =>
        if error = "" then .error (.emptyError "$BoundaryProvisioningFailed")
        -- an active boundary is not downgraded
        else if b.status = .active then .ok (c, true)
        else .ok (Fields.insert name
          { b with status := .failed, lastError := error, statusPosition := entry.position } c, true)
  | .undecodable eventType => .error (.decode eventType)
  | .other _ => .ok (c, false)

def get (c : Catalog) (name : String) : Option Boundary := c.lookup name

def replay (log : List LogEntry) : Except CatalogError Catalog :=
  log.foldlM (fun c entry => (c.apply entry).map Prod.fst) []

end Catalog

end Orisun.Admin
