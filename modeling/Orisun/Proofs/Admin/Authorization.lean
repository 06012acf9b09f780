import Orisun.Admin.Authorization
import Orisun.Proofs.Admin.BoundaryCatalog
import Orisun.Proofs.Admin.PasswordChanges

/-!
# What callers without the role of an admin can change

The calls of the admin service are refused to them, but the general append call is not, and the
admin boundary takes what it stores.
-/

namespace Orisun.Admin.Authorization

open OptimisticLog Orisun.Admin.Users

variable {adminBoundary : String} {compare : String → String → Bool} {s s' s₀ : Server}
  {caller : User}

theorem authorizeAdminRPC_admin (h : .admin ∉ caller.roles) :
    authorizeAdminRPC caller [.admin] = false := by
  rw [authorizeAdminRPC, Bool.and_eq_false_iff]
  right
  simp only [List.isEmpty_cons, Bool.false_or, List.any_eq_false, List.mem_singleton,
    decide_eq_true_eq]
  rintro role hrole rfl
  exact h hrole

theorem decided_eq_some {h : Option Users.Handler} {event : StoredEvent}
    (hd : s.decided h = some event) : ∃ h' e, h = some h' ∧
      h'.pending (usersLog s.log) = some (e, true) ∧ event = .user e := by
  unfold Server.decided at hd
  split at hd
  · rename_i e hp
    obtain ⟨h', hh, hp⟩ := Option.bind_eq_some_iff.1 hp
    exact ⟨h', e, hh, hp, (Option.some.inj hd).symm⟩
  · simp at hd

theorem changePassword_eq_some {userId currentPassword : String} {hash : Option String}
    {event : StoredEvent}
    (h : s.changePassword compare caller userId currentPassword hash = some event) :
    ∃ hash, event = .user (.userPasswordChanged caller.id hash) := by
  unfold Server.changePassword at h
  split_ifs at h with hown
  obtain rfl : caller.id = userId := by
    simp only [Bool.or_eq_true, decide_eq_true_eq, not_or, not_not] at hown
    exact hown.2
  obtain ⟨h', e, hh, hp, rfl⟩ := decided_eq_some h
  unfold Users.Handler.changePassword at hh
  split_ifs at hh
  · simp [Users.Handler.read] at hh
  simp only [Users.Handler.read, Users.Handler.readDeleted,
    Users.Handler.readChanged, Users.Handler.decided, Option.bind_some, Option.some.injEq] at hh
  subst hh
  split at hp
  · simp [Users.Handler.pending] at hp
  · simp only [Users.Handler.pending, Option.some.injEq, Prod.mk.injEq] at hp
    exact ⟨_, by rw [← hp.1]⟩

def SameDefinitions (c c' : Catalog) : Prop :=
  ∀ name, (c'.get name).map Boundary.definition = (c.get name).map Boundary.definition

theorem SameDefinitions.insert {c : Catalog} {name : String} {b b' : Boundary}
    (hb : c.lookup name = some b) (hd : Boundary.definition b' = Boundary.definition b) :
    SameDefinitions c (Fields.insert name b' c) := by
  intro n
  by_cases hn : n = name
  · subst hn
    rw [Catalog.get, Catalog.get, Fields.lookup_insert_self, hb, Option.map_some, Option.map_some, hd]
  · rw [Catalog.get, Catalog.get, Fields.lookup_insert_of_ne _ hn]

/-- An event that defines no boundary. -/
inductive Outcome : AdminEvent → Prop where
  | other (eventType : String) : Outcome (.other eventType)
  | activated (name : String) : name ≠ "" → Outcome (.boundaryActivated name)
  | failed (name error : String) : name ≠ "" → error ≠ "" →
      Outcome (.boundaryProvisioningFailed name error)

theorem Outcome.apply {e : LogEntry} (h : Outcome e.event) (c : Catalog) :
    ∃ c', (c.apply e).map Prod.fst = .ok c' ∧ SameDefinitions c c' := by
  rcases e with ⟨position, event⟩
  rcases h with eventType | ⟨name, hname⟩ | ⟨name, error, hname, herror⟩
  · exact ⟨c, rfl, fun _ => rfl⟩
  · simp only [Catalog.apply, if_neg hname]
    rcases hb : c.lookup name with _ | b
    · exact ⟨c, rfl, fun _ => rfl⟩
    · exact ⟨_, rfl, SameDefinitions.insert hb rfl⟩
  · simp only [Catalog.apply, if_neg hname]
    rcases hb : c.lookup name with _ | b
    · exact ⟨c, rfl, fun _ => rfl⟩
    · simp only [if_neg herror]
      split_ifs
      · exact ⟨c, rfl, fun _ => rfl⟩
      · exact ⟨_, rfl, SameDefinitions.insert hb rfl⟩

theorem replay_outcomes {log more : List LogEntry} {c : Catalog} (hc : Catalog.replay log = .ok c)
    (h : ∀ e ∈ more, Outcome e.event) :
    ∃ c', Catalog.replay (log ++ more) = .ok c' ∧ SameDefinitions c c' := by
  induction more using List.reverseRecOn with
  | nil => exact ⟨c, by rwa [List.append_nil], fun _ => rfl⟩
  | append_singleton more e ih =>
    obtain ⟨c', hc', hsame⟩ := ih fun f hf => h f (List.mem_append_left _ hf)
    obtain ⟨c'', hc'', hsame'⟩ := (h e (by simp)).apply c'
    refine ⟨c'', ?_, fun name => (hsame' name).trans (hsame name)⟩
    rw [← List.append_assoc, Catalog.replay_concat, hc']
    exact hc''

/-- An event that may be added: a password change of a caller, the outcome of a provisioning, or an
event that no projection takes note of. -/
def Allowed (callers : List User) : StoredEvent → Prop
  | .user (.userPasswordChanged userId _) => ∃ c ∈ callers, c.id = userId
  | .user e => StoredEvent.administrative (.user e) = false
  | .boundary e => Outcome e

structure Kept (s₀ s : Server) : Prop where
  keyed : s.users.Keyed
  identities : ∀ x, x ∈ s.users.map identity ↔ x ∈ s₀.users.map identity
  passwords : ∀ r ∈ s.users, r ∈ s₀.users ∨ ∃ c ∈ s.callers, c.id = r.id
  log : ∃ more, s.log = s₀.log ++ more ∧ (∀ e ∈ more, Allowed s.callers e.event) ∧
    boundaryEvents more = s.provisioned
  handled : s₀.log.length ≤ s.handled

variable {e : StoredEvent} {callers : List User}

theorem Allowed.mono {callers' : List User} (hc : callers ⊆ callers') (h : Allowed callers e) :
    Allowed callers' e := by
  rcases e with e | e
  · rcases e with _ | _ | ⟨userId, hash⟩ | _ | _ | _
    case userPasswordChanged =>
      obtain ⟨c, hmem, hid⟩ := h
      exact ⟨c, hc hmem, hid⟩
    all_goals exact h
  · exact h

theorem Allowed.outcome (h : Allowed callers e) :
    Outcome e.forCatalog := by
  rcases e with e | e
  · exact .other _
  · exact h

theorem Kept.call (h : Kept s₀ s) (caller : User) :
    Kept s₀ { s with callers := s.callers ++ [caller] } where
  keyed := h.keyed
  identities := h.identities
  passwords r hr := (h.passwords r hr).imp_right fun ⟨c, hc, hid⟩ =>
    ⟨c, List.mem_append_left _ hc, hid⟩
  log := by
    obtain ⟨more, hlog, hallowed, hb⟩ := h.log
    exact ⟨more, hlog, fun e he => (hallowed e he).mono (List.subset_append_left _ _), hb⟩
  handled := h.handled

theorem boundaryEvents_append (l l' : AdminLog) :
    boundaryEvents (l ++ l') = boundaryEvents l ++ boundaryEvents l' := by
  simp [boundaryEvents, catalogLog]

theorem Kept.append (h : Kept s₀ s) (events : List (Entry Position StoredEvent))
    (provisioned : List AdminEvent) (he : ∀ e ∈ events, Allowed s.callers e.event)
    (hb : boundaryEvents events = provisioned) :
    Kept s₀ { s with log := s.log ++ events, provisioned := s.provisioned ++ provisioned } where
  keyed := h.keyed
  identities := h.identities
  passwords := h.passwords
  log := by
    obtain ⟨more, hlog, hallowed, hmore⟩ := h.log
    refine ⟨more ++ events, by simp [hlog], fun e hmem => ?_, ?_⟩
    · rcases List.mem_append.1 hmem with hmem | hmem
      · exact hallowed e hmem
      · exact he e hmem
    · rw [boundaryEvents_append, hmore, hb]
  handled := h.handled

theorem Allowed.handleEvent (h : Allowed callers e) {t t' : Table} (ht : t.Keyed)
    (hu : handleEvent t e.forUsers = .ok t') :
    t' = t ∨ ∃ row ∈ t, ∃ hash, (∃ c ∈ callers, c.id = row.id) ∧
      t.upsert { row with hashedPassword := hash } = some t' := by
  rcases e with e | e
  · rcases e with data | userId | ⟨userId, hash⟩ | userId | ⟨eventType, userId⟩ | eventType
    case userCreated => simp [Allowed, StoredEvent.administrative] at h
    case userDeleted => simp [Allowed, StoredEvent.administrative] at h
    case userPasswordChanged =>
      right
      simp only [StoredEvent.forUsers, Users.handleEvent] at hu
      split at hu
      · simp at hu
      · rename_i row hrow
        obtain ⟨hmem, rfl⟩ := (Table.getById_eq_some ht).1 hrow
        refine ⟨row, hmem, hash, h, ?_⟩
        unfold createNewUser at hu
        split at hu
        · simp at hu
        · rename_i hup
          rw [hup, Except.ok.inj hu]
    case rolesChanged => exact .inl (Except.ok.inj hu).symm
    case undecodable =>
      have hp : isProjected eventType = false := h
      simp only [StoredEvent.forUsers, Users.handleEvent, hp] at hu
      exact .inl (Except.ok.inj hu).symm
    case other => exact .inl (Except.ok.inj hu).symm
  · exact .inl (Except.ok.inj hu).symm

theorem mem_identity_upsert {t t' : Table} (ht : t.Keyed) {row : User} (hrow : row ∈ t) {hash : String}
    (hu : t.upsert { row with hashedPassword := hash } = some t')
    (x : String × String × String × List Role) :
    x ∈ t'.map identity ↔ x ∈ t.map identity := by
  constructor
  · intro hx
    obtain ⟨r, hr, rfl⟩ := List.mem_map.1 hx
    rcases (Table.mem_upsert hu).1 hr with rfl | ⟨hr, -⟩
    · exact List.mem_map.2 ⟨row, hrow, rfl⟩
    · exact List.mem_map.2 ⟨r, hr, rfl⟩
  · intro hx
    obtain ⟨r, hr, rfl⟩ := List.mem_map.1 hx
    by_cases hid : r.id = row.id
    · rw [List.inj_on_of_nodup_map ht.ids hr hrow hid]
      exact List.mem_map.2 ⟨_, (Table.mem_upsert hu).2 (.inl rfl), rfl⟩
    · exact List.mem_map.2 ⟨r, (Table.mem_upsert hu).2 (.inr ⟨hr, hid⟩), rfl⟩

theorem Kept.project (h : Kept s₀ s) {e : Entry Position StoredEvent}
    (he : s.log[s.handled]? = some e) {users : Table}
    (hu : handleEvent s.users e.event.forUsers = .ok users) :
    Kept s₀ { s with users := users, handled := s.handled + 1 } := by
  obtain ⟨more, hlog, hallowed, hb⟩ := h.log
  have hmem : e ∈ more := by
    rw [hlog, List.getElem?_append_right h.handled] at he
    exact List.mem_of_getElem? he
  have hle := h.handled
  rcases (hallowed e hmem).handleEvent h.keyed hu with rfl | ⟨row, hrow, hash, ⟨c, hc, hid⟩, hup⟩
  · exact ⟨h.keyed, h.identities, h.passwords, ⟨more, hlog, hallowed, hb⟩, hle.trans (Nat.le_succ _)⟩
  · refine ⟨h.keyed.upsert hup, fun x => ?_, fun r hr => ?_, ⟨more, hlog, hallowed, hb⟩,
      hle.trans (Nat.le_succ _)⟩
    · exact (mem_identity_upsert h.keyed hrow hup x).trans (h.identities x)
    · rcases (Table.mem_upsert hup).1 hr with rfl | ⟨hr, -⟩
      · exact .inr ⟨c, hc, hid⟩
      · exact h.passwords r hr

theorem append_eq_some {events : List (Entry Position StoredEvent)}
    (h : s.append events = some s') : s' = { s with log := s.log ++ events } := by
  unfold Server.append at h
  split_ifs at h
  exact (Option.some.inj h).symm

theorem Kept.appendIf (h : Kept s₀ s) {position : Position} {event : Option StoredEvent}
    (he : ∀ e, event = some e → ∃ e', e = .user e' ∧ Allowed s.callers e)
    (hs : s.appendIf position event = some s') : Kept s₀ s' := by
  rcases event with _ | event
  · cases hs
    exact h
  · obtain ⟨e', rfl, hallowed⟩ := he event rfl
    obtain rfl := append_eq_some hs
    have happ := h.append [⟨position, .user e'⟩] [] (by simpa using hallowed)
      (by simp [boundaryEvents, catalogLog, StoredEvent.forCatalog, AdminEvent.eventType])
    rwa [List.append_nil] at happ

theorem allowed_of_not_administrative (callers : List User) (h : e.administrative = false) :
    Allowed callers e ∧ ∃ t, e.forCatalog = .other t := by
  rcases e with e | e
  · rcases e with _ | _ | _ | _ | _ | _
    case userPasswordChanged => simp [StoredEvent.administrative] at h
    all_goals exact ⟨h, _, rfl⟩
  · rcases e with _ | _ | _ | _ | t
    case other => exact ⟨.other t, t, rfl⟩
    all_goals simp [StoredEvent.administrative] at h

theorem Kept.saveEvents (h : Kept s₀ s) {boundary : String}
    {events : List (Entry Position StoredEvent)} {holds : Bool}
    (hh : boundary = adminBoundary → boundary ∈ s.active → holds = true →
      authorizeRequest caller [.admin, .operations] = true →
        ∀ e ∈ events, e.event.administrative = false)
    (hs : s.saveEvents adminBoundary caller boundary events holds = some s') : Kept s₀ s' := by
  unfold Server.saveEvents at hs
  split_ifs at hs with hauth hactive hadmin
  · cases hs
    exact h
  · cases hs
    exact h
  · obtain rfl := append_eq_some hs
    simp only [Bool.not_eq_true', Bool.not_eq_false, Bool.or_eq_true, decide_eq_true_eq, not_or,
      not_not] at hauth hactive
    have hnot := hh hadmin hactive.1 hactive.2 hauth
    have happ := h.append events [] (fun e he => (allowed_of_not_administrative _ (hnot e he)).1) ?_
    · rwa [List.append_nil] at happ
    · refine List.filter_eq_nil_iff.2 fun b hb => ?_
      simp only [catalogLog, List.map_map, List.mem_map, Function.comp_apply] at hb
      obtain ⟨e, he, rfl⟩ := hb
      obtain ⟨t, ht⟩ := (allowed_of_not_administrative [] (hnot e he)).2
      simp [ht, AdminEvent.eventType]
  · cases hs
    exact h

theorem outcome_eq_some {name : String} {error : Option String} {event : AdminEvent}
    (h : s.outcome name error = some event) (herror : error ≠ some "") :
    Outcome event ∧ event ≠ .other (AdminEvent.eventType event) := by
  unfold Server.outcome at h
  split at h
  · rename_i hname _
    have hne : name ≠ "" := by
      rintro rfl
      simp [requireName, validateName, Except.mapError] at hname
    rcases error with _ | error
    · dsimp only at h
      split_ifs at h
      cases h
      exact ⟨.activated name hne, by simp⟩
    · split_ifs at h
      cases h
      exact ⟨.failed name error hne (by simpa using herror), by simp⟩
  · simp at h

theorem Kept.step (h : Kept s₀ s) {a : Server.Action} (hh : s.Harmless adminBoundary a)
    (hs : s.step adminBoundary compare a = some s') : Kept s₀ s' := by
  rcases a with ⟨caller, c⟩ | _ | ⟨name, error, position⟩ | name
  · have hc := h.call caller
    rcases c with ⟨boundary, events, holds⟩ | boundary | boundary | _ | ⟨command, position⟩ |
      ⟨user, id, hash, position⟩ | ⟨userId, position⟩ | ⟨userId, password, hash, position⟩
    case saveEvents => exact hc.saveEvents hh.2 hs
    case createIndex => exact Option.some.inj hs ▸ hc
    case dropIndex => exact Option.some.inj hs ▸ hc
    case read => exact Option.some.inj hs ▸ hc
    case createBoundary =>
      refine hc.appendIf (fun e he => ?_) hs
      simp [Server.createBoundary, authorizeAdminRPC_admin hh] at he
    case createUser =>
      refine hc.appendIf (fun e he => ?_) hs
      simp [Server.createUser, authorizeAdminRPC_admin hh] at he
    case deleteUser =>
      refine hc.appendIf (fun e he => ?_) hs
      simp [Server.deleteUser, authorizeAdminRPC_admin hh] at he
    case changePassword =>
      refine hc.appendIf (fun e he => ?_) hs
      obtain ⟨hash, rfl⟩ := changePassword_eq_some he
      exact ⟨_, rfl, caller, by simp, rfl⟩
  · simp only [Server.step] at hs
    split at hs
    · simp at hs
    · rename_i e he
      split at hs
      · simp at hs
      · rename_i users hu
        cases hs
        exact h.project he hu
  · simp only [Server.step] at hs
    split at hs
    · exact Option.some.inj hs ▸ h
    · rename_i event hevent
      obtain ⟨hout, hother⟩ := outcome_eq_some hevent hh
      obtain rfl := append_eq_some hs
      refine h.append [⟨position, .boundary event⟩] [event] (fun e he => ?_)
        (by simp [boundaryEvents, catalogLog, StoredEvent.forCatalog, hother])
      rw [List.mem_singleton.1 he]
      exact hout
  · simp only [Server.step] at hs
    split_ifs at hs
    cases hs
    exact ⟨h.keyed, h.identities, h.passwords, h.log, h.handled⟩

/-- Callers without the role of an admin who store nothing administrative in the admin boundary change
no user, no password but their own, and no boundary. -/
theorem unprivileged_calls_harmless {log : AdminLog} {active : List String} {users : Table}
    (hk : users.Keyed) {as : List Server.Action}
    (hr : Transition.run (Server.step adminBoundary compare)
      ⟨log, active, users, log.length, [], []⟩ as = some s)
    (hh : Transition.Along (Server.step adminBoundary compare) (Server.Harmless adminBoundary)
      ⟨log, active, users, log.length, [], []⟩ as) :
    (∀ x, x ∈ s.users.map identity ↔ x ∈ users.map identity) ∧
    (∀ r ∈ s.users, r ∈ users ∨ ∃ c ∈ s.callers, c.id = r.id) ∧
    boundaryEvents s.log = boundaryEvents log ++ s.provisioned ∧
    ∀ c, Catalog.replay (catalogLog log) = .ok c →
      ∃ c', Catalog.replay (catalogLog s.log) = .ok c' ∧ SameDefinitions c c' := by
  have h0 : Kept ⟨log, active, users, log.length, [], []⟩ ⟨log, active, users, log.length, [], []⟩ :=
    ⟨hk, fun _ => Iff.rfl, fun _ hr => .inl hr, ⟨[], by simp, by simp, rfl⟩, le_rfl⟩
  have h := Transition.run_invariant_along (I := Kept _) (fun _ _ _ h hh hs => h.step hh hs) h0 hh hr
  obtain ⟨more, hlog, hallowed, hb⟩ := h.log
  refine ⟨h.identities, h.passwords, ?_, fun c hc => ?_⟩
  · rw [hlog, boundaryEvents_append, hb]
  · rw [hlog, catalogLog, List.map_append]
    refine replay_outcomes hc fun e he => ?_
    obtain ⟨f, hf, rfl⟩ := List.mem_map.1 he
    exact (hallowed f hf).outcome

def ops : User := ⟨"u2", "Ops", "ops", "h1", [.operations]⟩

def opsLog : AdminLog :=
  [⟨⟨0, 0⟩, .user (.userCreated ⟨"Ops", "u2", "ops", [.operations], "h0"⟩)⟩,
    ⟨⟨1, 1⟩, .user (.userPasswordChanged "u2" "h1")⟩]

def opsServer : Server := ⟨opsLog, ["admin"], [ops], opsLog.length, [], []⟩

def Server.Action.harmless : Server.Action → Bool
  | .call caller (.saveEvents _ events _) =>
    decide (.admin ∉ caller.roles) && events.all fun e => !e.event.administrative
  | .call caller _ => decide (.admin ∉ caller.roles)
  | .provision _ error _ => decide (error ≠ some "")
  | _ => true

theorem Server.Action.harmless_spec {a : Server.Action} (h : a.harmless = true) (s : Server) :
    s.Harmless adminBoundary a := by
  rcases a with ⟨caller, c⟩ | _ | ⟨name, error, position⟩ | name
  · rcases c with ⟨boundary, events, holds⟩ | _ | _ | _ | _ | _ | _ | _
    case saveEvents =>
      obtain ⟨hrole, hall⟩ := Bool.and_eq_true_iff.1 h
      exact ⟨of_decide_eq_true hrole, fun _ _ _ _ e he => by simpa using List.all_eq_true.1 hall e he⟩
    all_goals
      have hrole : .admin ∉ caller.roles := of_decide_eq_true h
      exact hrole
  · trivial
  · have herror : error ≠ some "" := of_decide_eq_true h
    exact herror
  · trivial

/-- The caller is refused a new user, saves an event and changes its own password. -/
def opsCalls : List Server.Action :=
  [.call ops (.createUser ⟨"Mallory", "mallory", [.admin]⟩ "u3" (some "h3") ⟨2, 2⟩),
    .call ops (.saveEvents "admin" [⟨⟨2, 2⟩, .user (.other "OrderPlaced")⟩] true),
    .call ops (.changePassword "u2" "p" (some "h2") ⟨3, 3⟩), .projectUser, .projectUser]

theorem unprivileged_calls_harmless_ops : ∃ s,
    Transition.run (Server.step "admin" fun _ _ => true) opsServer opsCalls = some s ∧
    s.users = [{ ops with hashedPassword := "h2" }] ∧
    (∀ x, x ∈ s.users.map identity ↔ x ∈ [ops].map identity) ∧
    ∀ r ∈ s.users, r ∈ [ops] ∨ ∃ c ∈ s.callers, c.id = r.id := by
  obtain ⟨s, hs, hp⟩ := Transition.exists_run opsServer opsCalls
    (fun s => decide (s.users = [{ ops with hashedPassword := "h2" }]))
    (by decide +kernel : (Transition.run (Server.step "admin" fun _ _ => true) _ _).any _ = true)
  obtain ⟨hid, hpw, -⟩ := unprivileged_calls_harmless ⟨by simp, by simp⟩ hs
    (Transition.along_of_mem _ fun a ha s => Server.Action.harmless_spec
      (List.all_eq_true.1 (by decide +kernel : opsCalls.all Server.Action.harmless = true) a ha) s)
  exact ⟨s, hs, of_decide_eq_true hp, hid, hpw⟩

/-- The same caller saves the creation of an admin and of a boundary in the admin boundary. -/
def opsSaves : List Server.Action :=
  [.call ops (.saveEvents "admin"
    [⟨⟨2, 0⟩, .user (.userCreated ⟨"Mallory", "u3", "mallory", [.admin], "h3"⟩)⟩,
      ⟨⟨2, 1⟩, .boundary (.boundaryCreated ⟨"orders", "", ⟨"postgres", "public"⟩⟩)⟩] true),
    .projectUser, .projectUser]

/-- A new admin is in the table of users, and a new boundary in the catalog. -/
theorem operations_create_admin : ∃ s,
    Transition.run (Server.step "admin" fun _ _ => true) opsServer opsSaves = some s ∧
    s.users = [ops, ⟨"u3", "Mallory", "mallory", "h3", [.admin]⟩] ∧
    (Catalog.replay (catalogLog opsLog)).toOption.map (·.get "orders") = some none ∧
    (Catalog.replay (catalogLog s.log)).toOption.any (fun c => (c.get "orders").isSome) = true := by
  obtain ⟨s, hs, hp⟩ := Transition.exists_run opsServer opsSaves
    (fun s => decide (s.users = [ops, ⟨"u3", "Mallory", "mallory", "h3", [.admin]⟩] ∧
      (Catalog.replay (catalogLog s.log)).toOption.any (fun c => (c.get "orders").isSome) = true))
    (by decide +kernel : (Transition.run (Server.step "admin" fun _ _ => true) _ _).any _ = true)
  obtain ⟨husers, hcat⟩ := of_decide_eq_true hp
  exact ⟨s, hs, husers, by decide +kernel, hcat⟩

end Orisun.Admin.Authorization
