import Orisun.Admin.UserProjection

/-!
# Calls and their authorization

Users and boundaries are changed by calls of the admin service, and both are projections of the log
of the admin boundary, to which the general append call writes as well. Each call checks the roles of
its caller. The user projector and the boundary provisioner work on the resulting log.
-/

namespace Orisun.Admin.Authorization

open OptimisticLog Orisun.Admin.Users

def authorizeRequest (caller : User) (roles : List Role) : Bool :=
  roles.isEmpty || roles.any fun role => decide (role ∈ caller.roles)

def authorizeAdminRPC (caller : User) (allowedRoles : List Role) : Bool :=
  decide (caller.id ≠ "") &&
    (allowedRoles.isEmpty || caller.roles.any fun role => decide (role ∈ allowedRoles))

/-- An event of the admin boundary, as the projection that reads it decodes it. -/
inductive StoredEvent where
  | user (e : Users.Event)
  | boundary (e : AdminEvent)
  deriving DecidableEq, Repr

def AdminEvent.eventType : AdminEvent → String
  | .boundaryCreated _ => "$BoundaryCreated"
  | .boundaryActivated _ => "$BoundaryActivated"
  | .boundaryProvisioningFailed _ _ => "$BoundaryProvisioningFailed"
  | .undecodable eventType => eventType
  | .other eventType => eventType

namespace StoredEvent

def forUsers : StoredEvent → Users.Event
  | user e => e
  | boundary e => .other (AdminEvent.eventType e)

def forCatalog : StoredEvent → AdminEvent
  | user e => .other e.eventType
  | boundary e => e

def administrative : StoredEvent → Bool
  | user (.other _) => false
  | user (.rolesChanged _) => false
  | user (.undecodable eventType _) => isProjected eventType
  | boundary (.other _) => false
  | _ => true

end StoredEvent

abbrev AdminLog := List (Entry Position StoredEvent)

def usersLog (log : AdminLog) : Users.Log := log.map fun e => ⟨e.position, e.event.forUsers⟩

def catalogLog (log : AdminLog) : List LogEntry :=
  log.map fun e => ⟨e.position, e.event.forCatalog⟩

def placed : AdminLog → AdminLog → Bool
  | _, [] => true
  | log, e :: events =>
    (log.all fun f => decide (f.position < e.position)) && placed (log ++ [e]) events

inductive Call where
  | saveEvents (boundary : String) (events : List (Entry Position StoredEvent)) (holds : Bool)
  | createIndex (boundary : String)
  | dropIndex (boundary : String)
  | read
  | createBoundary (command : Definition) (position : Position)
  | createUser (user : NewUser) (id : String) (hash : Option String) (position : Position)
  | deleteUser (userId : String) (position : Position)
  | changePassword (userId currentPassword : String) (hash : Option String) (position : Position)

structure Server where
  log : AdminLog
  active : List String
  users : Table
  handled : ℕ
  callers : List User
  provisioned : List AdminEvent

namespace Server

-- the admin boundary, and `ComparePassword`
variable (adminBoundary : String) (compare : String → String → Bool)

def append (s : Server) (events : List (Entry Position StoredEvent)) : Option Server :=
  if placed s.log events then some { s with log := s.log ++ events } else none

def appendIf (s : Server) (position : Position) : Option StoredEvent → Option Server
  | none => some s
  | some event => s.append [⟨position, event⟩]

def saveEvents (s : Server) (caller : User) (boundary : String)
    (events : List (Entry Position StoredEvent)) (holds : Bool) : Option Server :=
  if !authorizeRequest caller [.admin, .operations] then some s
  else if boundary ∉ s.active || !holds then some s
  -- the events of other boundaries are in their own logs
  else if boundary = adminBoundary then s.append events
  else some s

def createBoundary (s : Server) (caller : User) (command : Definition) : Option StoredEvent :=
  if !authorizeAdminRPC caller [.admin] then none
  else match normalize command with
    | .error _ => none
    | .ok definition =>
      match loadDefinition (catalogLog s.log) definition.name with
      | .error _ => none
      | .ok _ => some (.boundary (.boundaryCreated definition))

/-- The event of a user command that has been decided, where its observation holds. -/
def decided (s : Server) (h : Option Users.Handler) : Option StoredEvent :=
  match h.bind fun h => h.pending (usersLog s.log) with
  | some (event, true) => some (.user event)
  | _ => none

def createUser (s : Server) (caller : User) (user : NewUser) (id : String) (hash : Option String) :
    Option StoredEvent :=
  if !authorizeAdminRPC caller [.admin] then none
  else
    let log := usersLog s.log
    let read := (Users.Handler.createUser user.name user.username user.roles).read log
    -- the second read is only of a user that exists
    let read := read.bind fun h => (h.read log).or (some h)
    s.decided (read.bind fun h => h.decided compare id hash)

def deleteUser (s : Server) (caller : User) (userId : String) : Option StoredEvent :=
  if !authorizeAdminRPC caller [.admin] then none
  else s.decided ((Users.Handler.deleteUser userId caller.id).read (usersLog s.log))

def changePassword (s : Server) (caller : User) (userId currentPassword : String)
    (hash : Option String) : Option StoredEvent :=
  if !authorizeAdminRPC caller [] || caller.id ≠ userId then none
  else
    let log := usersLog s.log
    s.decided (((((Users.Handler.changePassword userId currentPassword).read log).bind fun h =>
      h.readDeleted log).bind fun h => h.readChanged log).bind fun h => h.decided compare "" hash)

def call (s : Server) (caller : User) : Call → Option Server
  | .saveEvents boundary events holds => s.saveEvents adminBoundary caller boundary events holds
  -- the indexes of a boundary are in neither projection
  | .createIndex _ | .dropIndex _ | .read => some s
  | .createBoundary command position => s.appendIf position (s.createBoundary caller command)
  | .createUser user id hash position =>
    s.appendIf position (s.createUser compare caller user id hash)
  | .deleteUser userId position => s.appendIf position (s.deleteUser caller userId)
  | .changePassword userId currentPassword hash position =>
    s.appendIf position (s.changePassword compare caller userId currentPassword hash)

/-- What the provisioner records for a boundary that is defined and not active. -/
def outcome (s : Server) (name : String) (error : Option String) : Option AdminEvent :=
  match requireName name, loadContext (catalogLog s.log) name with
  | .ok _, .ok model =>
    if model.boundary.status = .active then none
    else match error with
      | none => some (.boundaryActivated name)
      | some error =>
        if model.boundary.status = .failed then none
        else some (.boundaryProvisioningFailed name error)
  | _, _ => none

inductive Action where
  | call (caller : User) (c : Call)
  | projectUser
  | provision (name : String) (error : Option String) (position : Position)
  | activate (name : String)

def step (s : Server) : Action → Option Server
  | .call caller c =>
    ({ s with callers := s.callers ++ [caller] } : Server).call adminBoundary compare caller c
  | .projectUser =>
    match s.log[s.handled]? with
    | none => none
    | some e =>
      match handleEvent s.users e.event.forUsers with
      | .error _ => none
      | .ok users => some { s with users, handled := s.handled + 1 }
  | .provision name error position =>
    match s.outcome name error with
    | none => some s
    | some event =>
      ({ s with provisioned := s.provisioned ++ [event] } : Server).append
        [⟨position, .boundary event⟩]
  | .activate name =>
    if s.log.any fun e => e.event == .boundary (.boundaryActivated name) then
      some { s with active := s.active ++ [name] }
    else none

/-- A caller without the role of an admin stores no event in the admin boundary that a projection
takes note of, and errors of the provisioner have a text. -/
def Harmless (s : Server) : Action → Prop
  | .call caller (.saveEvents boundary events holds) =>
    .admin ∉ caller.roles ∧ (boundary = adminBoundary → boundary ∈ s.active → holds = true →
      authorizeRequest caller [.admin, .operations] = true →
        ∀ e ∈ events, e.event.administrative = false)
  | .call caller _ => .admin ∉ caller.roles
  | .provision _ error _ => error ≠ some ""
  | _ => True

end Server

def boundaryEvents (log : AdminLog) : List AdminEvent :=
  ((catalogLog log).map Entry.event).filter fun e => e ≠ .other (AdminEvent.eventType e)

def identity (u : User) : String × String × String × List Role := (u.id, u.name, u.username, u.roles)

def Boundary.definition (b : Boundary) : Definition := ⟨b.name, b.description, b.placement⟩

end Orisun.Admin.Authorization
