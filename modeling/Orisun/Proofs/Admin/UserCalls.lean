import Orisun.Admin.UserCalls
import Orisun.Proofs.Admin.PasswordChanges

/-!
# What a call on users does by itself

The first change of a password is refused: it is appended at the position of the creation, under a
query that selects password changes only. A name stays taken after its user was deleted: the
deletion is looked up under a tag that no event has.
-/

namespace Orisun.Admin.Users

open OptimisticLog

variable {log : Log} {userId : String} {compare : String → String → Bool} {id : String}
  {hash : Option String} {position : Position}

theorem getEvents_one (q : Query) (log : Log) :
    getEvents q 1 log = (latest? q.selects log).toList := by
  unfold getEvents latest?
  rcases List.eq_nil_or_concat (select q.selects log) with h | ⟨es, e, h⟩ <;> rw [h] <;> simp

theorem selects_byUserId_eq (eventType : String) :
    Query.selects ⟨[byUserId userId eventType]⟩ =
      fun e : Event => e.tag "user_id" == some userId && e.eventType == eventType := by
  funext e
  rw [Bool.eq_iff_iff, selects_byUserId]
  simp

theorem getEvents_byUserId (log : Log) (eventType : String) :
    getEvents ⟨[byUserId userId eventType]⟩ 1 log =
      (latest? (fun e => e.tag "user_id" == some userId && e.eventType == eventType) log).toList := by
  rw [getEvents_one, selects_byUserId_eq]

theorem selects_passwordQuery_eq : (passwordQuery userId).selects = Event.changesPassword userId := by
  funext e
  rw [Bool.eq_iff_iff, changesPassword_iff]

theorem changePassword_run (hnul : containsNul userId = false) (currentPassword : String) :
    (Handler.changePassword userId currentPassword).run compare id hash position log callSteps =
      some (match changePasswordDecision compare currentPassword hash
          ⟨(latest? (Event.creates userId) log).toList, (latest? (Event.deletes userId) log).toList,
            (latest? (Event.changesPassword userId) log).toList⟩ with
        | .error e => (log, .error e)
        | .ok (hash, p) => appendEvent log (.userPasswordChanged userId hash)
            (standsAt notExistsPosition (Event.changesPassword userId) log == p) position .none) := by
  have hc : getEvents ⟨[byUserId userId eventTypeUserCreated]⟩ 1 log =
      (latest? (Event.creates userId) log).toList := getEvents_byUserId log _
  have hd : getEvents ⟨[byUserId userId eventTypeUserDeleted]⟩ 1 log =
      (latest? (Event.deletes userId) log).toList := getEvents_byUserId log _
  have hch : getEvents ⟨[byUserId userId eventTypeUserPasswordChanged]⟩ 1 log =
      (latest? (Event.changesPassword userId) log).toList := getEvents_byUserId log _
  rw [Handler.changePassword, if_neg (by rw [hnul]; exact Bool.false_ne_true)]
  simp only [callSteps, Handler.run, Handler.pending, Handler.advance, Handler.read, Handler.readDeleted, Handler.readChanged, Handler.decided, Option.some_or,
    Option.none_or, Option.bind_some, hc, hd, hch]
  rcases changePasswordDecision _ _ _ _ with e | ⟨hash, p⟩
  · rfl
  · simp only [Handler.run, Handler.pending, selects_passwordQuery_eq]

theorem exists_latest? {q : Event → Bool} (h : ∃ e ∈ log, q e.event = true) :
    ∃ e, latest? q log = some e := by
  obtain ⟨e, he, hq⟩ := h
  refine Option.ne_none_iff_exists'.1 fun hnone => ?_
  have hmem : e ∈ select q log := mem_select.2 ⟨he, hq⟩
  rw [latest?_eq_none.1 hnone] at hmem
  simp at hmem

theorem latest?_none {q : Event → Bool} (h : ∀ e ∈ log, q e.event = false) :
    latest? q log = none := by
  rw [latest?_eq_none, select, List.filter_eq_nil_iff]
  intro e he
  simp [h e he]

theorem changePasswordDecision_of_stored {c : Entry Position Event}
    {currentPassword stored : String}
    (hc : latest? (Event.creates userId) log = some c)
    (hstored : storedHash log userId = some stored) (hcompare : compare stored currentPassword = true)
    (hash : Option String) : changePasswordDecision compare currentPassword hash
        ⟨[c], [], (latest? (Event.changesPassword userId) log).toList⟩ =
      match hash with
      | none => .error .hash
      | some hash => .ok (hash, ((latest? (Event.changesPassword userId) log).getD c).position) := by
  unfold storedHash at hstored
  rw [hc] at hstored
  rcases hch : latest? (Event.changesPassword userId) log with _ | e <;> rw [hch] at hstored
  · have hq := (latest?_mem hc).2
    rcases hev : c.event with data | u | ⟨u, h⟩ | u | ⟨t, u⟩ | t <;>
      simp [hev, Event.passwordHash] at hstored
    · cases hash <;>
        simp [changePasswordDecision, currentPasswordHash, expectedPosition, hev, hstored, hcompare]
    · rw [hev] at hq
      simp [Event.creates, Event.eventType, eventTypeUserCreated, eventTypeUserPasswordChanged] at hq
  · have hq := (latest?_mem hch).2
    rcases hev : e.event with data | u | ⟨u, h⟩ | u | ⟨t, u⟩ | t <;>
      simp [hev, Event.passwordHash] at hstored
    · rw [hev] at hq
      simp [Event.changesPassword, Event.eventType, eventTypeUserCreated,
        eventTypeUserPasswordChanged] at hq
    · cases hash <;>
        simp [changePasswordDecision, currentPasswordHash, expectedPosition, hev, hstored, hcompare]

/-- A user that is not deleted changes the password with the right one exactly where it was changed
before and the new one can be hashed. The first change is refused. -/
theorem changePassword_accepted_iff (hlog : Increasing notExistsPosition log)
    (hcreated : ∃ e ∈ log, e.event.creates userId = true)
    (hdeleted : ∀ e ∈ log, e.event.deletes userId = false) {currentPassword stored : String}
    (hstored : storedHash log userId = some stored) (hcompare : compare stored currentPassword = true)
    (hnul : containsNul userId = false) (generate : String → String) (id new : String)
    (position : Position) :
    ((Handler.changePassword userId currentPassword).run compare id (hashPassword generate new)
        position log callSteps
          = some (log ++ [⟨position, .userPasswordChanged userId (generate new)⟩], .ok ()) ↔
      new.utf8ByteSize ≤ 72 ∧ ∃ e ∈ log, e.event.changesPassword userId = true) ∧
    (new.utf8ByteSize ≤ 72 → (∀ e ∈ log, e.event.changesPassword userId = false) →
      (Handler.changePassword userId currentPassword).run compare id (hashPassword generate new)
        position log callSteps = some (log, .error .conflict)) := by
  obtain ⟨c, hc⟩ := exists_latest? hcreated
  have hd := latest?_none hdeleted
  rw [changePassword_run hnul, hc, hd]
  simp only [Option.toList_some, Option.toList_none]
  by_cases hlong : 72 < new.utf8ByteSize
  · have hdec := changePasswordDecision_of_stored hc hstored hcompare none
    rw [hashPassword, if_pos hlong, hdec]
    refine ⟨iff_of_false (by simp) fun h => absurd h.1 (not_le.2 hlong), fun hle => ?_⟩
    exact absurd hle (not_le.2 hlong)
  · have hdec := changePasswordDecision_of_stored hc hstored hcompare (some (generate new))
    rw [hashPassword, if_neg hlong, hdec]
    have hle : new.utf8ByteSize ≤ 72 := not_lt.1 hlong
    by_cases hch : ∃ e ∈ log, e.event.changesPassword userId = true
    · obtain ⟨e, he⟩ := exists_latest? hch
      have hstands : standsAt notExistsPosition (Event.changesPassword userId) log = e.position :=
        standsAt_of_latest? he
      obtain ⟨f, hf, hfch⟩ := hch
      refine ⟨iff_of_true ?_ ⟨hle, f, hf, hfch⟩, fun _ hno => ?_⟩
      · simp [he, hstands, appendEvent]
      · rw [hno f hf] at hfch
        simp at hfch
    · have hno : ∀ e ∈ log, e.event.changesPassword userId = false := by simpa using hch
      have hnone := latest?_none hno
      have hstands : standsAt notExistsPosition (Event.changesPassword userId) log =
          notExistsPosition := standsAt_of_select_eq_nil (latest?_eq_none.1 hnone)
      have hne : (notExistsPosition == c.position) = false :=
        beq_eq_false_iff_ne.2 (hlog.above c (latest?_mem hc).1).ne
      refine ⟨iff_of_false ?_ fun h => hch h.2, fun _ _ => ?_⟩
      · simp [hnone, hstands, hne, appendEvent]
      · simp [hnone, hstands, hne, appendEvent]

def changedOnce : Log :=
  [⟨⟨1, 1⟩, .userCreated ⟨"Anna", "u1", "anna", [.admin], "first"⟩⟩,
    ⟨⟨2, 2⟩, .userPasswordChanged "u1" "pw"⟩]

theorem changePassword_accepted_iff_changedOnce :
    (Handler.changePassword "u1" "pw").run (fun h p => h == p) "" (hashPassword (fun hash => hash) "new")
        ⟨3, 3⟩ changedOnce callSteps =
      some (changedOnce ++ [⟨⟨3, 3⟩, .userPasswordChanged "u1" "new"⟩], .ok ()) := by
  obtain ⟨hpair, habove, hcreated, hdeleted, hchanged, hstored⟩ :
      (changedOnce.Pairwise fun e f => e.position < f.position) ∧
      (∀ e ∈ changedOnce, notExistsPosition < e.position) ∧
      (∃ e ∈ changedOnce, e.event.creates "u1" = true) ∧
      (∀ e ∈ changedOnce, e.event.deletes "u1" = false) ∧
      (∃ e ∈ changedOnce, e.event.changesPassword "u1" = true) ∧
      storedHash changedOnce "u1" = some "pw" := by
    decide +kernel
  exact (changePassword_accepted_iff ⟨hpair, habove⟩ hcreated hdeleted hstored
    (beq_self_eq_true "pw") (by decide) (fun hash => hash) "" "new" ⟨3, 3⟩).1.2
      ⟨by decide +kernel, hchanged⟩

def createdOnly : Log := [⟨⟨1, 1⟩, .userCreated ⟨"Anna", "u1", "anna", [.admin], "pw"⟩⟩]

/-- The first change of a password is refused, with the right current password and nothing else
going on. -/
theorem first_change_refused :
    (∀ e ∈ createdOnly, e.event.deletes "u1" = false) ∧ storedHash createdOnly "u1" = some "pw" ∧
    (Handler.changePassword "u1" "pw").run (fun h p => h == p) "" (hashPassword (fun hash => hash) "new")
        ⟨2, 2⟩ createdOnly callSteps = some (createdOnly, .error .conflict) := by
  decide +kernel

def oneCreated : List Action :=
  [.createUser "Anna" " anna" [.admin], .read 0, .decide 0 "u1" (some "h1"), .append 0 ⟨1, 1⟩ .none]

def oneDeleted : List Action :=
  oneCreated ++ [.deleteUser "u1" "u2", .read 1, .append 1 ⟨2, 2⟩ .none]

theorem represents_of_handleAll {t : Table} (hu : UniqueLifecycles log)
    (hall : handleAll log = .ok t) : Represents log t := by
  induction log using List.reverseRecOn generalizing t with
  | nil =>
    cases hall
    exact ⟨⟨List.nodup_nil, List.nodup_nil⟩, by simp [IsUser]⟩
  | append_singleton log e ih =>
    rw [handleAll_append] at hall
    obtain ⟨s, hs, he⟩ := Attempt.bind_eq_ok.1 hall
    have hu' := hu.of_isPrefix (List.prefix_append log [e])
    have hnear : Near log e s := .inl (ih hu' hs)
    rcases hev : e.event with c | u | ⟨u, hash⟩ | u | ⟨eventType, u⟩ | eventType <;> rw [hev] at he
    · exact represents_of_created hu hev hnear (upsert_of_createNewUser he)
    · cases he
      exact represents_of_deleted hev hnear
    · simp only [handleEvent] at he
      split at he
      · simp at he
      · rename_i row hrow
        obtain ⟨hmem, hid⟩ := (Table.getById_eq_some hnear.keyed).1 hrow
        exact represents_of_changed hu' hev hnear hmem hid (upsert_of_createNewUser he)
    · cases he
      exact represents_of_other (by simp [hev]) (by simp [hev]) (by simp [hev]) hnear
    · simp only [handleEvent] at he
      split_ifs at he
      cases he
      exact represents_of_other (by simp [hev]) (by simp [hev]) (by simp [hev]) hnear
    · cases he
      exact represents_of_other (by simp [hev]) (by simp [hev]) (by simp [hev]) hnear

def AllDecode (w : World) : Prop := ∀ e ∈ w.log, ∀ t u, e.event ≠ .undecodable t u

theorem pending_ne_undecodable {h : Handler} {event : Event} {holds : Bool}
    (hp : h.pending log = some (event, holds)) (t u : String) : event ≠ .undecodable t u := by
  rcases h with _ | _ | _ | data | _ | _ | _ | _ | _ | _ <;>
    simp only [Handler.pending, Option.some.injEq, Prod.mk.injEq, reduceCtorEq] at hp <;>
    simp [← hp.1]

theorem AllDecode.step {w w' : World} {a : Action} (hw : AllDecode w)
    (hs : w.step compare a = some w') : AllDecode w' := by
  intro e he
  rcases World.step_log_cases hs with heq | ⟨position, event, heq, hevent⟩ <;> rw [heq] at he
  · exact hw e he
  · rcases List.mem_append.1 he with he | he
    · exact hw e he
    · rw [List.mem_singleton.1 he]
      rcases hevent with ⟨h, -, hp⟩ | ⟨t, rfl⟩
      · exact pending_ne_undecodable hp
      · simp

theorem listUsers_eq {w : World} (hw : AllDecode w) (t : Table) : listUsers w.log t = t := by
  refine List.filter_eq_self.2 fun user _ => ?_
  have hnone : latest? (Query.selects ⟨[byUserId user.id "UserDeleted"]⟩) w.log = none := by
    refine latest?_none fun e he => Bool.eq_false_iff.2 fun hq => ?_
    obtain ⟨htag, htype⟩ := selects_byUserId.1 hq
    rcases hev : e.event with c | u | ⟨u, h⟩ | u | ⟨t, u⟩ | t <;> rw [hev] at htag htype
    · exact absurd htype (by decide : eventTypeUserCreated ≠ "UserDeleted")
    · exact absurd htype (by decide : eventTypeUserDeleted ≠ "UserDeleted")
    · exact absurd htype (by decide : eventTypeUserPasswordChanged ≠ "UserDeleted")
    · exact absurd htype (by decide : eventTypeRolesChanged ≠ "UserDeleted")
    · exact hw e he t u hev
    · simp [Event.tag, Event.field] at htag
  simp [isUserDeleted, getEvents_one, hnone]

/-- A table that is behind the log lists the users that are not deleted exactly where no event it has
yet to handle deletes one of its users. -/
theorem listUsers_hides_deleted_iff {as : List Action} {w : World}
    (hr : Transition.run (World.step compare) ⟨[], []⟩ as = some w) {handled : ℕ} {t : Table}
    (ht : handleAll (w.log.take handled) = .ok t) :
    ((∀ user ∈ listUsers w.log t, ∀ e ∈ w.log, e.event ≠ .userDeleted user.id) ∧
      ∀ user ∈ t, (∀ e ∈ w.log, e.event ≠ .userDeleted user.id) → user ∈ listUsers w.log t) ↔
    ∀ user ∈ t, ∀ e ∈ w.log.drop handled, e.event ≠ .userDeleted user.id := by
  have hlog := soundLog_of_run increasing_nil (by simp [NoUsers]) hr
  have hdec : AllDecode w := Transition.run_invariant (I := AllDecode)
    (fun _ _ _ hw hs => hw.step hs) (by simp [AllDecode]) hr
  have hrows := represents_of_handleAll (hlog.unique.of_isPrefix (List.take_prefix handled w.log)) ht
  rw [listUsers_eq hdec]
  constructor
  · rintro ⟨hhidden, -⟩ user huser e he
    exact hhidden user huser e (List.mem_of_mem_drop he)
  · intro hlater
    refine ⟨fun user huser e he => ?_, fun user huser _ => huser⟩
    rw [← List.take_append_drop handled w.log] at he
    rcases List.mem_append.1 he with he | he
    · obtain ⟨-, -, -, -, -, hdel, -⟩ := isUser_id ((hrows.rows user).1 huser)
      exact hdel e he
    · exact hlater user huser e he

theorem listUsers_hides_deleted_iff_oneCreated : ∃ w,
    Transition.run (World.step fun _ _ => true) ⟨[], []⟩ oneCreated = some w ∧ w.log.length = 1 ∧
    handleAll (w.log.take 1) = .ok [⟨"u1", "Anna", "anna", "h1", [.admin]⟩] ∧
    ∀ user ∈ [(⟨"u1", "Anna", "anna", "h1", [.admin]⟩ : User)],
      (∀ e ∈ w.log, e.event ≠ .userDeleted user.id) →
        user ∈ listUsers w.log [⟨"u1", "Anna", "anna", "h1", [.admin]⟩] := by
  obtain ⟨w, hw, hlog⟩ := Transition.exists_run (⟨[], []⟩ : World) oneCreated
    (fun w => decide (w.log.length = 1 ∧
      handleAll (w.log.take 1) = .ok [⟨"u1", "Anna", "anna", "h1", [.admin]⟩]))
    (by decide +kernel : (Transition.run (World.step fun _ _ => true) _ _).any _ = true)
  obtain ⟨hlen, hall⟩ := of_decide_eq_true hlog
  refine ⟨w, hw, hlen, hall, ((listUsers_hides_deleted_iff hw hall).2 ?_).2⟩
  rw [List.drop_of_length_le hlen.le]
  simp

/-- A user whose deletion the table is behind is listed. -/
theorem deleted_user_listed : ∃ w,
    Transition.run (World.step fun _ _ => true) ⟨[], []⟩ oneDeleted = some w ∧
    (∃ e ∈ w.log, e.event = .userDeleted "u1") ∧
    handleAll (w.log.take 1) = .ok [⟨"u1", "Anna", "anna", "h1", [.admin]⟩] ∧
    listUsers w.log [⟨"u1", "Anna", "anna", "h1", [.admin]⟩] =
      [⟨"u1", "Anna", "anna", "h1", [.admin]⟩] := by
  obtain ⟨w, hw, hlog⟩ := Transition.exists_run (⟨[], []⟩ : World) oneDeleted
    (fun w => decide ((∃ e ∈ w.log, e.event = .userDeleted "u1") ∧
      handleAll (w.log.take 1) = .ok [⟨"u1", "Anna", "anna", "h1", [.admin]⟩] ∧
      listUsers w.log [⟨"u1", "Anna", "anna", "h1", [.admin]⟩] =
        [⟨"u1", "Anna", "anna", "h1", [.admin]⟩]))
    (by decide +kernel : (Transition.run (World.step fun _ _ => true) _ _).any _ = true)
  exact ⟨w, hw, of_decide_eq_true hlog⟩

end Orisun.Admin.Users
