import Orisun.Proofs.Admin.BoundaryLifecycle

/-!
# A context is the replayed boundary

After its definition a boundary is settled by its latest activation, or by its latest failure where
it was never activated (`foldl_advance`).
-/

namespace Orisun.Admin

open OptimisticLog

variable {name : String} {log : List LogEntry}

/-- An outcome of the boundary, a failure with its error. -/
def Outcome (name : String) (e : LogEntry) : Prop :=
  e.event = .boundaryActivated name ∨
    ∃ error, error ≠ "" ∧ e.event = .boundaryProvisioningFailed name error

def Boundary.advance (b : Boundary) (e : LogEntry) : Boundary :=
  match e.event with
  | .boundaryActivated _ =>
    { b with status := .active, lastError := "", statusPosition := e.position }
  | .boundaryProvisioningFailed _ error =>
    if b.status = .active then b
    else { b with status := .failed, lastError := error, statusPosition := e.position }
  | _ => b

/-- The boundary after its latest activation and its latest failure. -/
def Boundary.settled (b : Boundary) : Option LogEntry → Option LogEntry → Boundary
  | some activated, _ => b.advance activated
  | none, some failed => b.advance failed
  | none, none => b

variable {entries : List LogEntry}

namespace Catalog

variable {c : Catalog} {e : LogEntry}

def applyAll (c : Catalog) (entries : List LogEntry) : Except CatalogError Catalog :=
  entries.foldlM (fun c entry => (c.apply entry).map Prod.fst) c

theorem replay_append (entries more : List LogEntry) :
    replay (entries ++ more) = replay entries >>= fun c => c.applyAll more := by
  rw [replay, List.foldlM_append]
  rfl

end Catalog

section Context

variable {pre post : List LogEntry} {definition : LogEntry}

end Context

namespace Catalog

variable {c c' c₀ : Catalog} {e : LogEntry} {applied : Bool}

def effect (e : LogEntry) (b : Option Boundary) : Except CatalogError (Option Boundary) :=
  match e.event with
  | .boundaryCreated d =>
    if d.name = "" then .error .nameRequired
    else if d.placement.backend = "" then .error (.noPlacementBackend d.name)
    else if d.placement.namespace = "" then .error (.noPlacementNamespace d.name)
    else if b.isSome then .error (.alreadyDefined d.name)
    else .ok (some (d.boundary e.position))
  | .boundaryActivated boundary =>
    if boundary = "" then .error (.noBoundary "$BoundaryActivated")
    else .ok (b.map (·.advance e))
  | .boundaryProvisioningFailed boundary error =>
    if boundary = "" then .error (.noBoundary "$BoundaryProvisioningFailed")
    else match b with
      | none => .ok none
      | some b =>
        if error = "" then .error (.emptyError "$BoundaryProvisioningFailed")
        else .ok (some (b.advance e))
  | .undecodable eventType => .error (.decode eventType)
  | .other _ => .ok b

end Catalog

end Orisun.Admin
