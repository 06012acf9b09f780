import Orisun.Lib.Attempt
import Orisun.Proofs.Admin.UserProjection

/-!
# Password changes of deleted users

A password change looks for a deletion and appends under an observation of other password changes. A
user deleted in between is changed after all, and the projector finds no row for it.
-/

namespace Orisun.Admin.Users

open OptimisticLog

variable {compare : String → String → Bool} {log : Log} {userId : String}

variable {e : Event}

theorem changesPassword_iff :
    e.changesPassword userId = true ↔ (passwordQuery userId).selects e = true := by
  rw [selects_passwordQuery]
  simp [Event.changesPassword]

theorem deletes_iff : e.deletes userId = true ↔
    Query.selects ⟨[byUserId userId eventTypeUserDeleted]⟩ e = true := by
  rw [selects_byUserId]
  simp [Event.deletes]

/-- The events a password change has read are in the log, and so is the position it expects. -/
def Handler.ReadFrom (log : Log) : Handler → Prop
  | .changingReads _ _ created _ changed =>
    created ⊆ log ∧ ∀ events, changed = some events → events ⊆ log
  | .appendingPassword _ _ position => ∃ e ∈ log, e.position = position
  | _ => True

variable {h : Handler}

theorem Handler.ReadFrom.append (hr : h.ReadFrom log) (more : Log) :
    h.ReadFrom (log ++ more) := by
  rcases h with user | ⟨user, data⟩ | ⟨user, events⟩ | data | u | ⟨u, position⟩ |
    ⟨u, password⟩ | ⟨u, password, created, deleted, changed⟩ | ⟨u, hash, position⟩ | result
  case changingReads =>
    exact ⟨fun e he => List.mem_append_left _ (hr.1 he),
      fun events hev e he => List.mem_append_left _ (hr.2 events hev he)⟩
  case appendingPassword =>
    obtain ⟨e, he, hp⟩ := hr
    exact ⟨e, List.mem_append_left _ he, hp⟩
  all_goals trivial

theorem getEvents_subset (q : Query) (n : ℕ) (log : Log) : getEvents q n log ⊆ log :=
  fun _ he => (mem_of_mem_getEvents he).1

variable {h' : Handler}

theorem Handler.read_readFrom (hr : h.read log = some h') :
    h'.ReadFrom log ∧ h'.pastDeletionCheck userId = false := by
  rcases h with user | ⟨user, data⟩ | ⟨user, events⟩ | data | u | ⟨u, position⟩ |
    ⟨u, password⟩ | ⟨u, password, created, deleted, changed⟩ | ⟨u, hash, position⟩ | result <;>
    simp only [Handler.read, Option.some.injEq, reduceCtorEq] at hr
  · subst hr
    split
    · exact ⟨trivial, rfl⟩
    · split
      · exact ⟨trivial, rfl⟩
      · exact ⟨trivial, rfl⟩
  · subst hr
    exact ⟨trivial, rfl⟩
  · subst hr
    split
    · exact ⟨trivial, rfl⟩
    · exact ⟨trivial, rfl⟩
  · subst hr
    exact ⟨⟨getEvents_subset _ _ _, by simp⟩, rfl⟩

theorem Handler.readDeleted_readFrom (hs : h.ReadFrom log) (hr : h.readDeleted log = some h') :
    h'.ReadFrom log ∧
      ((∃ e ∈ log, e.event.deletes userId = true) → h'.pastDeletionCheck userId = false) := by
  unfold Handler.readDeleted at hr
  split at hr
  · cases hr
    refine ⟨hs, ?_⟩
    rintro ⟨e, he, hd⟩
    rename_i u password created changed
    by_cases hu : u = userId
    · subst hu
      have hmem : e ∈ select (Query.selects ⟨[byUserId u eventTypeUserDeleted]⟩) log :=
        mem_select.2 ⟨he, deletes_iff.1 hd⟩
      have hne : getEvents ⟨[byUserId u eventTypeUserDeleted]⟩ 1 log ≠ [] := by
        intro hnil
        have hlen := congrArg List.length hnil
        have hpos := List.length_pos_of_mem hmem
        simp only [getEvents, List.length_take, List.length_reverse, List.length_nil] at hlen
        omega
      simp [Handler.pastDeletionCheck, hne]
    · simp [Handler.pastDeletionCheck, hu]
  · simp at hr

theorem Handler.readChanged_readFrom (hs : h.ReadFrom log) (hr : h.readChanged log = some h') :
    h'.ReadFrom log ∧
      h'.pastDeletionCheck userId = h.pastDeletionCheck userId := by
  unfold Handler.readChanged at hr
  split at hr
  · cases hr
    rename_i u password created deleted
    refine ⟨⟨hs.1, ?_⟩, ?_⟩
    · rintro events hev
      cases hev
      exact getEvents_subset _ _ _
    · rcases deleted with _ | deleted <;> rfl
  · simp at hr

theorem changePasswordDecision_spec {password : String} {hash : Option String}
    {reads : PasswordReads} {h : String} {p : Position}
    (hd : changePasswordDecision compare password hash reads = .ok (h, p)) :
    reads.deleted = [] ∧ ((∃ e ∈ reads.changed, e.position = p) ∨
      reads.changed = [] ∧ ∃ e ∈ reads.created, e.position = p) := by
  unfold changePasswordDecision at hd
  split at hd
  · simp at hd
  · simp at hd
  · rename_i created rest hcreated hdeleted
    refine ⟨hdeleted, ?_⟩
    split at hd
    · simp at hd
    · split_ifs at hd
      split at hd
      · simp at hd
      · obtain ⟨-, rfl⟩ := Prod.mk.inj (Except.ok.inj hd)
        rcases hch : reads.changed with _ | ⟨e, rest⟩
        · exact .inr ⟨rfl, created, by simp [hcreated], by simp [expectedPosition, hch]⟩
        · exact .inl ⟨e, by simp, by simp [expectedPosition, hch]⟩

theorem Handler.decided_readFrom {id : String} {hash : Option String} (hs : h.ReadFrom log)
    (hr : h.decided compare id hash = some h') :
    h'.ReadFrom log ∧ (h.pastDeletionCheck userId = false →
      h'.pastDeletionCheck userId = false) := by
  unfold Handler.decided at hr
  split at hr
  · cases hr
    split
    · exact ⟨trivial, fun _ => rfl⟩
    · exact ⟨trivial, fun _ => rfl⟩
  · cases hr
    split
    · exact ⟨trivial, fun _ => rfl⟩
    · rename_i u password created deleted changed hash' position hd
      obtain ⟨hdel, hpos⟩ := changePasswordDecision_spec hd
      constructor
      · rcases hpos with ⟨e, he, hp⟩ | ⟨-, e, he, hp⟩
        · exact ⟨e, hs.2 _ rfl he, hp⟩
        · exact ⟨e, hs.1 he, hp⟩
      · intro hpast
        rw [Handler.pastDeletionCheck, show created = [] from hdel] at hpast
        simpa [Handler.pastDeletionCheck] using hpast
  · simp at hr

/-- No password change follows a deletion, and where the user is deleted none is about to be
appended. -/
structure World.Ordered (userId : String) (w : World) : Prop where
  increasing : Increasing notExistsPosition w.log
  order : w.log.Pairwise fun e f =>
    e.event.deletes userId = true → f.event.changesPassword userId = false
  handlers : ∀ h ∈ w.handlers, h.ReadFrom w.log
  deleted : (∃ e ∈ w.log, e.event.deletes userId = true) →
    (∀ e ∈ w.log, e.event.changesPassword userId = false) ∨
      ∀ h ∈ w.handlers, h.pastDeletionCheck userId = false

variable {w : World}

theorem World.Ordered.setHandler (hw : w.Ordered userId) (i : ℕ) (hr : h.ReadFrom w.log)
    (hp : (∃ e ∈ w.log, e.event.deletes userId = true) →
      (∀ h ∈ w.handlers, h.pastDeletionCheck userId = false) →
      h.pastDeletionCheck userId = false) : (w.setHandler i h).Ordered userId where
  increasing := hw.increasing
  order := hw.order
  handlers g hg := by
    rcases List.mem_or_eq_of_mem_set hg with hg | rfl
    · exact hw.handlers g hg
    · exact hr
  deleted hd := by
    refine (hw.deleted hd).imp_right fun hpast g hg => ?_
    rcases List.mem_or_eq_of_mem_set hg with hg | rfl
    · exact hpast g hg
    · exact hp hd hpast

theorem World.Ordered.addHandler (hw : w.Ordered userId) (hr : h.ReadFrom w.log)
    (hp : h.pastDeletionCheck userId = false) :
    ({ w with handlers := w.handlers ++ [h] } : World).Ordered userId where
  increasing := hw.increasing
  order := hw.order
  handlers g hg := by
    rcases List.mem_append.1 hg with hg | hg
    · exact hw.handlers g hg
    · rw [List.mem_singleton.1 hg]
      exact hr
  deleted hd := by
    refine (hw.deleted hd).imp_right fun hpast g hg => ?_
    rcases List.mem_append.1 hg with hg | hg
    · exact hpast g hg
    · rw [List.mem_singleton.1 hg]
      exact hp

theorem World.Ordered.append (hw : w.Ordered userId) {event : Event} {position : Position}
    (hnext : nextPosition w.log position = true) (hdel : event.deletes userId = true →
      (∀ e ∈ w.log, e.event.changesPassword userId = false) ∨
        ∀ h ∈ w.handlers, h.pastDeletionCheck userId = false)
    (hch : event.changesPassword userId = true →
      ∀ e ∈ w.log, e.event.deletes userId = false) :
    World.Ordered userId ⟨w.log ++ [⟨position, event⟩], w.handlers⟩ where
  increasing := by
    obtain ⟨hbottom, habove⟩ := nextPosition_spec hnext
    exact hw.increasing.append_singleton hbottom habove
  order := by
    refine List.pairwise_append.2 ⟨hw.order, List.pairwise_singleton _ _, ?_⟩
    intro e he f hf hd
    rw [List.mem_singleton.1 hf]
    by_contra hc
    rw [hch (by simpa using hc) e he] at hd
    simp at hd
  handlers h hh := (hw.handlers h hh).append _
  deleted := by
    rintro ⟨e, he, hd⟩
    rcases List.mem_append.1 he with he | he
    · refine (hw.deleted ⟨e, he, hd⟩).imp_left fun hno f hf => ?_
      rcases List.mem_append.1 hf with hf | hf
      · exact hno f hf
      · rw [List.mem_singleton.1 hf]
        by_contra hc
        rw [hch (by simpa using hc) e he] at hd
        simp at hd
    · rw [List.mem_singleton.1 he] at hd
      refine (hdel hd).imp_left fun hno f hf => ?_
      rcases List.mem_append.1 hf with hf | hf
      · exact hno f hf
      · rw [List.mem_singleton.1 hf]
        obtain ⟨-, htype⟩ := Bool.and_eq_true_iff.1 hd
        simp only [Event.changesPassword, eq_of_beq htype]
        rw [show (eventTypeUserDeleted == eventTypeUserPasswordChanged) = false by decide,
          Bool.and_false]

theorem World.Ordered.changing (hw : w.Ordered userId) {hash : String} {position : Position}
    (hh : Handler.appendingPassword userId hash position ∈ w.handlers)
    (hs : standsAt notExistsPosition (passwordQuery userId).selects w.log = position) :
    ∀ e ∈ w.log, e.event.deletes userId = false := by
  intro e he
  by_contra hd
  rcases hw.deleted ⟨e, he, by simpa using hd⟩ with hno | hpast
  · -- without any change the observation stands below every event
    have hnil : select (passwordQuery userId).selects w.log = [] := by
      refine List.eq_nil_iff_forall_not_mem.2 fun f hf => ?_
      obtain ⟨hf, hsel⟩ := mem_select.1 hf
      have := hno f hf
      rw [changesPassword_iff.2 hsel] at this
      simp at this
    obtain ⟨f, hf, hp⟩ := hw.handlers _ hh
    have habove := hw.increasing.above f hf
    rw [hp, ← hs, standsAt_of_select_eq_nil hnil] at habove
    exact lt_irrefl _ habove
  · have := hpast _ hh
    simp [Handler.pastDeletionCheck] at this

theorem deletes_userDeleted {u : String} (h : (Event.userDeleted u).deletes userId = true) :
    u = userId := by
  simpa [Event.deletes, Event.tag, Event.field, Event.eventType] using h

theorem changes_userPasswordChanged {u hash : String}
    (h : (Event.userPasswordChanged u hash).changesPassword userId = true) : u = userId := by
  simpa [Event.changesPassword, Event.tag, Event.field, Event.eventType] using h

theorem World.Ordered.pending (hw : w.Ordered userId) {i : ℕ} {event : Event}
    (hh : w.handlers[i]? = some h) (hp : h.pending w.log = some (event, true))
    (hdel : ∀ p, w.handlers[i]? = some (.appendingDeleted userId p) →
      (∀ e ∈ w.log, e.event.changesPassword userId = false) ∨
        ∀ h ∈ w.handlers, h.pastDeletionCheck userId = false) :
    (event.deletes userId = true →
      (∀ e ∈ w.log, e.event.changesPassword userId = false) ∨
        ∀ h ∈ w.handlers, h.pastDeletionCheck userId = false) ∧
    (event.changesPassword userId = true → ∀ e ∈ w.log, e.event.deletes userId = false) := by
  rcases h with user | ⟨user, data⟩ | ⟨user, events⟩ | data | u | ⟨u, position⟩ |
    ⟨u, password⟩ | ⟨u, password, created, deleted, changed⟩ | ⟨u, hash, position⟩ | result <;>
    simp only [Handler.pending, Option.some.injEq, Prod.mk.injEq, reduceCtorEq] at hp <;>
    obtain ⟨rfl, hs⟩ := hp
  case appendingCreated =>
    constructor
    · intro hd
      simp [Event.deletes, Event.eventType, eventTypeUserCreated, eventTypeUserDeleted] at hd
    · intro hc
      simp [Event.changesPassword, Event.eventType, eventTypeUserCreated,
        eventTypeUserPasswordChanged] at hc
  case appendingDeleted =>
    constructor
    · intro hd
      obtain rfl := deletes_userDeleted hd
      exact hdel position hh
    · intro hc
      simp [Event.changesPassword, Event.eventType, eventTypeUserDeleted,
        eventTypeUserPasswordChanged] at hc
  case appendingPassword =>
    constructor
    · intro hd
      simp [Event.deletes, Event.eventType, eventTypeUserPasswordChanged,
        eventTypeUserDeleted] at hd
    · intro hc
      obtain rfl := changes_userPasswordChanged hc
      exact hw.changing (List.mem_of_getElem? hh) (eq_of_beq hs)

theorem World.Ordered.step {w' : World} (hw : w.Ordered userId) {a : Action}
    (ho : w.Orderly userId a) (hs : w.step compare a = some w') : w'.Ordered userId := by
  rcases a with ⟨name, username, roles⟩ | ⟨u, currentUserId⟩ | ⟨u, password⟩ | i | i | i |
    ⟨i, id, hash⟩ | ⟨i, position, fault⟩ | i | ⟨position, eventType⟩
  · cases hs
    obtain ⟨e, h⟩ | h := createUser_cases name username roles <;> rw [h]
    · exact hw.addHandler trivial rfl
    · exact hw.addHandler trivial rfl
  · cases hs
    obtain ⟨e, h⟩ | h := deleteUser_cases u currentUserId <;> rw [h]
    · exact hw.addHandler trivial rfl
    · exact hw.addHandler trivial rfl
  · cases hs
    obtain ⟨e, h⟩ | h := changePassword_cases u password <;> rw [h]
    · exact hw.addHandler trivial rfl
    · exact hw.addHandler trivial rfl
  · obtain ⟨h, h', hh, hf, rfl⟩ := World.move_eq hs
    obtain ⟨hr, hp⟩ := Handler.read_readFrom hf
    exact hw.setHandler i hr fun _ _ => hp
  · obtain ⟨h, h', hh, hf, rfl⟩ := World.move_eq hs
    obtain ⟨hr, hp⟩ := Handler.readDeleted_readFrom (hw.handlers h (List.mem_of_getElem? hh)) hf
    exact hw.setHandler i hr fun hd _ => hp hd
  · obtain ⟨h, h', hh, hf, rfl⟩ := World.move_eq hs
    have hmem := List.mem_of_getElem? hh
    obtain ⟨hr, hp⟩ := Handler.readChanged_readFrom (hw.handlers h hmem) hf
    refine hw.setHandler i hr fun _ hpast => ?_
    rw [hp]
    exact hpast h hmem
  · simp only [World.step] at hs
    split_ifs at hs
    obtain ⟨h, h', hh, hf, rfl⟩ := World.move_eq hs
    have hmem := List.mem_of_getElem? hh
    obtain ⟨hr, hp⟩ := Handler.decided_readFrom (hw.handlers h hmem) hf
    exact hw.setHandler i hr fun _ hpast => hp (hpast h hmem)
  · obtain ⟨h, event, holds, result, hh, hp, hnext, rfl⟩ := World.step_append hs
    have hfin : (w.setHandler i (.finished result)).Ordered userId :=
      hw.setHandler i trivial fun _ _ => rfl
    rcases appendEvent_fst w.log event holds position fault with heq | ⟨rfl, heq⟩ <;> rw [heq]
    · exact hfin
    · obtain ⟨hdel, hch⟩ := hw.pending hh hp (ho i position fault rfl)
      refine hfin.append hnext (fun hd => (hdel hd).imp_right fun hpast g hg => ?_) hch
      rcases List.mem_or_eq_of_mem_set hg with hg | rfl
      · exact hpast g hg
      · rfl
  · obtain ⟨h, h', hh, hf, rfl⟩ := World.move_eq hs
    cases hf
    exact hw.setHandler i trivial fun _ _ => rfl
  · simp only [World.step] at hs
    split_ifs at hs with hguard
    cases hs
    rw [Bool.and_eq_true] at hguard
    refine hw.append hguard.1 ?_ ?_ <;> intro h <;>
      simp [Event.deletes, Event.changesPassword, Event.tag, Event.field] at h

theorem handleAll_append (log : Log) (e : Entry Position Event) :
    handleAll (log ++ [e]) = handleAll log >>= fun t => handleEvent t e.event := by
  simp [handleAll, List.foldlM_append]

variable {t : Table}

theorem upsert_of_createNewUser {t' : Table} {u : User} (h : createNewUser t u = .ok t') :
    t.upsert u = some t' := by
  unfold createNewUser at h
  split at h
  · simp at h
  · rename_i hup
    rw [hup, Except.ok.inj h]

theorem handleEvent_cases {t' : Table} (h : handleEvent t e = .ok t') :
    t' = t ∨ (∃ u, e = .userDeleted u ∧ t' = t.delete u) ∨ ∃ u, t.upsert u = some t' := by
  rcases e with data | u | ⟨u, hash⟩ | u | ⟨eventType, u⟩ | eventType <;>
    simp only [handleEvent] at h
  · exact .inr (.inr ⟨_, upsert_of_createNewUser h⟩)
  · exact .inr (.inl ⟨u, rfl, (Except.ok.inj h).symm⟩)
  · split at h
    · simp at h
    · exact .inr (.inr ⟨_, upsert_of_createNewUser h⟩)
  · exact .inl (Except.ok.inj h).symm
  · split_ifs at h
    exact .inl (Except.ok.inj h).symm
  · exact .inl (Except.ok.inj h).symm

theorem handleAll_keyed (h : handleAll log = .ok t) : t.Keyed := by
  refine Attempt.foldlM_invariant (P := Table.Keyed) ?_ (s := []) ⟨List.nodup_nil, List.nodup_nil⟩ h
  intro t t' e _ ht he
  rcases handleEvent_cases he with rfl | ⟨u, -, rfl⟩ | ⟨u, hu⟩
  · exact ht
  · exact ht.delete u
  · exact ht.upsert hu

theorem exists_row (hall : handleAll log = .ok t)
    (hc : ∃ e ∈ log, ∃ c, e.event = .userCreated c ∧ c.userId = userId)
    (hd : ∀ e ∈ log, e.event ≠ .userDeleted userId) : ∃ r ∈ t, r.id = userId := by
  induction log using List.reverseRecOn generalizing t with
  | nil => simp at hc
  | append_singleton log e ih =>
    rw [handleAll_append] at hall
    obtain ⟨s, hs, he⟩ := Attempt.bind_eq_ok.1 hall
    obtain ⟨f, hf, c, hfc, hcu⟩ := hc
    rcases List.mem_append.1 hf with hf | hf
    · obtain ⟨r, hr, hid⟩ :=
        ih hs ⟨f, hf, c, hfc, hcu⟩ fun g hg => hd g (List.mem_append_left _ hg)
      rcases handleEvent_cases he with rfl | ⟨u, hu, rfl⟩ | ⟨u, hu⟩
      · exact ⟨r, hr, hid⟩
      · refine ⟨r, Table.mem_delete.2 ⟨hr, ?_⟩, hid⟩
        rintro rfl
        exact hd e (by simp) (by rw [hu, hid])
      · by_cases hru : r.id = u.id
        · exact ⟨u, (Table.mem_upsert hu).2 (.inl rfl), by rw [← hru, hid]⟩
        · exact ⟨r, (Table.mem_upsert hu).2 (.inr ⟨hr, hru⟩), hid⟩
    · rw [← List.mem_singleton.1 hf, hfc] at he
      exact ⟨c.user, (Table.mem_upsert (upsert_of_createNewUser he)).2 (.inl rfl), hcu⟩

theorem exists_upsert (ht : t.Keyed) {r u : User} (hr : r ∈ t) (hid : u.id = r.id)
    (hname : u.username = r.username) : ∃ t', t.upsert u = some t' := by
  have hfree : (t.any fun q => decide (q.username = u.username ∧ q.id ≠ u.id)) = false := by
    simp only [List.any_eq_false, decide_eq_true_eq, not_and, not_not]
    intro q hq hq'
    rw [List.inj_on_of_nodup_map ht.usernames hq hr (hq'.trans hname), hid]
  rw [Table.upsert, hfree, if_neg Bool.false_ne_true]
  split_ifs
  · exact ⟨_, rfl⟩
  · exact ⟨_, rfl⟩

theorem handleEvent_changed (ht : t.Keyed) (hr : ∃ r ∈ t, r.id = userId) (hash : String) :
    ∃ t', handleEvent t (.userPasswordChanged userId hash) = .ok t' := by
  obtain ⟨r, hr, hid⟩ := hr
  have hget : t.getById userId = some r := (Table.getById_eq_some ht).2 ⟨hr, hid⟩
  obtain ⟨t', ht'⟩ := exists_upsert (u := { r with hashedPassword := hash }) ht hr rfl rfl
  refine ⟨t', ?_⟩
  simp only [handleEvent, hget, createNewUser, ht']

theorem World.step_log {w' : World} {a : Action} (hs : w.step compare a = some w') :
    w.log <+: w'.log := by
  rcases World.step_log_cases hs with heq | ⟨position, event, heq, -⟩ <;> rw [heq]
  exact List.prefix_append _ _

/-- The user was created before any change of its password, and is not deleted. -/
def UserExists (userId : String) (log : Log) : Prop :=
  (∃ before e after c, log = before ++ e :: after ∧ e.event = .userCreated c ∧ c.userId = userId ∧
    ∀ f ∈ before, f.event.changesPassword userId = false) ∧
  ∀ f ∈ log, f.event.deletes userId = false

theorem created_of_changed {before after more : Log} {e : Entry Position Event}
    (hex : UserExists userId log) (hw : log ++ more = before ++ e :: after) (he : e.event.changesPassword userId = true) :
    ∃ f ∈ before, ∃ c, f.event = .userCreated c ∧ c.userId = userId := by
  obtain ⟨⟨b, f, a, c, rfl, hf, hc, hno⟩, -⟩ := hex
  rw [List.append_assoc, List.cons_append] at hw
  rcases List.append_eq_append_iff.1 hw with ⟨m, rfl, hm⟩ | ⟨m, rfl, hm⟩
  · rcases m with _ | ⟨g, m⟩
    · rw [List.nil_append] at hm
      obtain ⟨rfl, -⟩ := List.cons.inj hm
      rw [hf] at he
      exact absurd he (by simp [Event.changesPassword, Event.eventType, eventTypeUserCreated,
        eventTypeUserPasswordChanged])
    · obtain ⟨rfl, -⟩ := List.cons.inj hm
      exact ⟨f, by simp, c, hf, hc⟩
  · rcases m with _ | ⟨g, m⟩
    · rw [List.nil_append] at hm
      obtain ⟨rfl, -⟩ := List.cons.inj hm
      rw [hf] at he
      exact absurd he (by simp [Event.changesPassword, Event.eventType, eventTypeUserCreated,
        eventTypeUserPasswordChanged])
    · obtain ⟨rfl, -⟩ := List.cons.inj hm
      rw [hno e (by simp)] at he
      simp at he

/-- Where users are deleted in order, no password change is stored after the deletion, and the
projector handles each of them. -/
theorem passwordChanges_before_deletion (hlog : Increasing notExistsPosition log)
    (hex : UserExists userId log) {as : List Action} {w : World}
    (hr : Transition.run (World.step compare) ⟨log, []⟩ as = some w)
    (ho : Transition.Along (World.step compare) (World.Orderly userId) ⟨log, []⟩ as) :
    (w.log.Pairwise fun e f =>
      e.event.deletes userId = true → f.event.changesPassword userId = false) ∧
    ∀ before e after hash, w.log = before ++ e :: after →
      e.event = .userPasswordChanged userId hash → ∀ t, handleAll before = .ok t →
        ∃ t', handleEvent t e.event = .ok t' := by
  have h0 : World.Ordered userId ⟨log, []⟩ := by
    refine ⟨hlog, ?_, by simp, fun ⟨e, he, hd⟩ => ?_⟩
    · refine List.pairwise_of_forall_mem_list fun e he f _ hd => ?_
      rw [hex.2 e he] at hd
      simp at hd
    · rw [hex.2 e he] at hd
      simp at hd
  have hw := Transition.run_invariant_along (I := World.Ordered userId)
    (fun _ _ _ hw ho hs => hw.step ho hs) h0 ho hr
  have hpre : log <+: w.log := Transition.run_invariant (I := fun w => log <+: w.log)
    (fun _ _ _ hw hs => hw.trans (World.step_log hs)) List.prefix_rfl hr
  refine ⟨hw.order, fun before e after hash heq he t ht => ?_⟩
  obtain ⟨more, hmore⟩ := hpre
  have hch : e.event.changesPassword userId = true := by
    rw [he]
    simp [Event.changesPassword, Event.tag, Event.field, Event.eventType]
  have hc := created_of_changed hex (hmore.trans heq) hch
  rw [he]
  refine handleEvent_changed (handleAll_keyed ht) (exists_row ht hc fun f hf hd => ?_) hash
  -- a deletion before the change would be followed by it
  have horder := hw.order
  rw [heq] at horder
  have := (List.pairwise_append.1 horder).2.2 f hf e (by simp)
    (by rw [hd]; simp [Event.deletes, Event.tag, Event.field, Event.eventType])
  rw [hch] at this
  simp at this

def changeThenDelete : List Action :=
  [.changePassword "u1" "p", .read 0, .readDeleted 0, .deleteUser "u1" "u2", .read 1,
    .append 1 ⟨1, 1⟩ .none, .readChanged 0, .decide 0 "" (some "h1"), .append 0 ⟨2, 2⟩ .none]

theorem passwordChanges_before_deletion_anna : ∃ w,
    Transition.run (World.step fun _ _ => true) ⟨annaCreated, []⟩ changeThenDelete = some w ∧
    w.log.any (fun e => e.event.deletes "u1") = true ∧
    w.log.Pairwise fun e f =>
      e.event.deletes "u1" = true → f.event.changesPassword "u1" = false := by
  obtain ⟨w, hw, hlog⟩ := Transition.exists_run (⟨annaCreated, []⟩ : World) changeThenDelete
    (fun w => w.log.any fun e => e.event.deletes "u1")
    (by decide +kernel : (Transition.run (World.step fun _ _ => true) _ _).any _ = true)
  refine ⟨w, hw, hlog,
    (passwordChanges_before_deletion ⟨by decide +kernel, by decide +kernel⟩ ?_ hw ?_).1⟩
  · exact ⟨⟨[], _, [], _, rfl, rfl, rfl, by simp⟩, by decide +kernel⟩
  · -- the password is not changed in this run
    refine Transition.along_of_checkAlong
      (p := fun w _ => w.log.all fun e => !e.event.changesPassword "u1") ?_ (by decide +kernel)
    intro w a hno _ _ _ _ _ _
    left
    simpa using hno

/-- A password change that has read everything is stored after the deletion, and the projector finds
no row for it. -/
theorem passwordChange_after_deletion : UserExists "u1" annaChanged ∧
    (Transition.run (World.step fun _ _ => true) ⟨annaChanged, []⟩
      [.changePassword "u1" "p", .read 0, .readDeleted 0, .readChanged 0,
        .decide 0 "" (some "h2"), .deleteUser "u1" "u2", .read 1, .append 1 ⟨2, 2⟩ .none,
        .append 0 ⟨3, 3⟩ .none]).map World.log =
      some (annaChanged ++
        [⟨⟨2, 2⟩, .userDeleted "u1"⟩, ⟨⟨3, 3⟩, .userPasswordChanged "u1" "h2"⟩]) ∧
    handleAll (annaChanged ++ [⟨⟨2, 2⟩, .userDeleted "u1"⟩]) = .ok [] ∧
    handleEvent [] (.userPasswordChanged "u1" "h2") = .error (.notFound "u1") := by
  refine ⟨⟨⟨[], _, _, _, rfl, rfl, rfl, by simp⟩, by decide +kernel⟩, ?_, ?_, ?_⟩
  · decide +kernel
  · decide +kernel
  · rfl

end Orisun.Admin.Users
