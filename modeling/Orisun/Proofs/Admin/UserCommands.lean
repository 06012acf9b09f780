import Mathlib.Data.List.DropRight
import Orisun.Admin.UserCommands

/-!
# Users in every run of their commands

A creation is accepted only where no user of that name was created before, and a deletion only where
the creation it read is still the last event of its user.
-/

namespace Orisun.Admin.Users

open OptimisticLog

variable {log : Log} {userId username : String} {e : Event}

theorem selects_createdByUsername :
    Query.selects ⟨[createdByUsername username]⟩ e = true ↔
      ∃ c, e = .userCreated c ∧ c.username = username := by
  rcases e with c | u | ⟨u, h⟩ | u | ⟨t, u⟩ | t <;>
    simp [Query.selects, createdByUsername, Event.tag, Event.field, Event.eventType,
      eventTypeUserCreated]

theorem selects_creationQuery :
    (creationQuery username userId).selects e = true ↔
      ∃ c, e = .userCreated c ∧ c.username = username := by
  rw [← selects_createdByUsername]
  have hnone : e.tag "userId" = none := by
    rcases e with c | u | ⟨u, h⟩ | u | ⟨t, u⟩ | t <;> rfl
  simp [Query.selects, creationQuery, deletedByUserId, hnone]

theorem selects_byUserId {eventType : String} :
    Query.selects ⟨[byUserId userId eventType]⟩ e = true ↔
      e.tag "user_id" = some userId ∧ e.eventType = eventType := by
  simp [Query.selects, byUserId, Event.tag]

theorem selects_deletionQuery :
    (deletionQuery userId).selects e = true ↔ e.tag "user_id" = some userId ∧
      (e.eventType = eventTypeUserCreated ∨ e.eventType = eventTypeUserDeleted) := by
  simp [Query.selects, deletionQuery, byUserId, Event.tag]
  tauto

theorem selects_passwordQuery :
    (passwordQuery userId).selects e = true ↔ e.tag "user_id" = some userId ∧
      e.eventType = eventTypeUserPasswordChanged := by
  simp [Query.selects, passwordQuery, Event.tag]
  tauto

def Decodable (log : Log) : Prop :=
  ∀ e ∈ log, ∀ t u, e.event = .undecodable t u → Event.isUserType t = false

theorem Decodable.created (hd : Decodable log) {e : Entry Position Event} (he : e ∈ log)
    (ht : e.event.eventType = eventTypeUserCreated) (hu : e.event.tag "user_id" = some userId) :
    ∃ c, e.event = .userCreated c ∧ c.userId = userId := by
  rcases hev : e.event with c | u | ⟨u, h⟩ | u | ⟨t, u⟩ | t <;> rw [hev] at ht hu
  · exact ⟨c, rfl, Option.some.inj hu⟩
  · exact absurd ht (by decide : eventTypeUserDeleted ≠ eventTypeUserCreated)
  · exact absurd ht (by decide : eventTypeUserPasswordChanged ≠ eventTypeUserCreated)
  · exact absurd ht (by decide : eventTypeRolesChanged ≠ eventTypeUserCreated)
  · obtain rfl : t = eventTypeUserCreated := ht
    exact absurd (hd e he _ _ hev) (by decide)
  · exact absurd hu (by simp [Event.tag, Event.field])

theorem Decodable.deleted (hd : Decodable log) {e : Entry Position Event} (he : e ∈ log)
    (ht : e.event.eventType = eventTypeUserDeleted) (hu : e.event.tag "user_id" = some userId) :
    e.event = .userDeleted userId := by
  rcases hev : e.event with c | u | ⟨u, h⟩ | u | ⟨t, u⟩ | t <;> rw [hev] at ht hu
  · exact absurd ht (by decide : eventTypeUserCreated ≠ eventTypeUserDeleted)
  · rw [← Option.some.inj hu]
  · exact absurd ht (by decide : eventTypeUserPasswordChanged ≠ eventTypeUserDeleted)
  · exact absurd ht (by decide : eventTypeRolesChanged ≠ eventTypeUserDeleted)
  · obtain rfl : t = eventTypeUserDeleted := ht
    exact absurd (hd e he _ _ hev) (by decide)
  · exact absurd hu (by simp [Event.tag, Event.field])

theorem Decodable.of_isPrefix (hd : Decodable log) {before : Log} (hp : before <+: log) :
    Decodable before := fun e he => hd e (hp.subset he)

theorem UniqueLifecycles.of_isPrefix (h : UniqueLifecycles log) {before : Log}
    (hp : before <+: log) : UniqueLifecycles before where
  usernames := h.usernames.sublist hp.sublist
  ids := h.ids.sublist hp.sublist
  deletedOnce := h.deletedOnce.sublist hp.sublist
  createdBefore := by
    obtain ⟨more, rfl⟩ := hp
    rintro pre e post rfl u hu
    exact h.createdBefore pre e (post ++ more) (by simp) u hu

theorem UniqueLifecycles.append (h : UniqueLifecycles log) {e : Entry Position Event}
    (hc : ∀ c, e.event = .userCreated c → ∀ f ∈ log, ∀ d, f.event = .userCreated d →
      trimSpace d.username ≠ trimSpace c.username ∧ d.userId ≠ c.userId)
    (hd : ∀ u, e.event = .userDeleted u → (∀ f ∈ log, f.event ≠ .userDeleted u) ∧
      ∃ f ∈ log, ∃ c, f.event = .userCreated c ∧ c.userId = u) :
    UniqueLifecycles (log ++ [e]) where
  usernames := List.pairwise_append.2 ⟨h.usernames, List.pairwise_singleton _ _, by
    intro f hf g hg d c hfd hgc
    obtain rfl := List.mem_singleton.1 hg
    exact (hc c hgc f hf d hfd).1⟩
  ids := List.pairwise_append.2 ⟨h.ids, List.pairwise_singleton _ _, by
    intro f hf g hg d c hfd hgc
    obtain rfl := List.mem_singleton.1 hg
    exact (hc c hgc f hf d hfd).2⟩
  deletedOnce := List.pairwise_append.2 ⟨h.deletedOnce, List.pairwise_singleton _ _, by
    rintro f hf g hg u v hfu hgv rfl
    obtain rfl := List.mem_singleton.1 hg
    exact (hd u hgv).1 f hf hfu⟩
  createdBefore := by
    intro before f after heq u hu
    rcases List.eq_nil_or_concat after with rfl | ⟨rest, g, rfl⟩
    · obtain ⟨rfl, hfe⟩ := List.append_inj' heq rfl
      obtain rfl := List.singleton_inj.1 hfe
      exact (hd u hu).2
    · rw [List.concat_eq_append, ← List.cons_append, ← List.append_assoc] at heq
      exact h.createdBefore before f rest (List.append_inj' heq rfl).1 u hu

theorem UniqueLifecycles.append_other (h : UniqueLifecycles log) {e : Entry Position Event}
    (hc : ∀ c, e.event ≠ .userCreated c) (hd : ∀ u, e.event ≠ .userDeleted u) :
    UniqueLifecycles (log ++ [e]) :=
  h.append (fun c hc' => absurd hc' (hc c)) fun u hu => absurd hu (hd u)

theorem deletion_read (hu : UniqueLifecycles log) (hd : Decodable log) {p : Position}
    (hp : deletionPosition (getEvents (deletionQuery userId) 2 log) = .ok p) :
    ∃ e c, select (deletionQuery userId).selects log = [e] ∧ e.position = p ∧
      e.event = .userCreated c ∧ c.userId = userId := by
  have hsel : ∀ e ∈ select (deletionQuery userId).selects log,
      (∃ c, e.event = .userCreated c ∧ c.userId = userId) ∨ e.event = .userDeleted userId := by
    intro e he
    obtain ⟨hmem, hq⟩ := mem_select.1 he
    obtain ⟨htag, htype⟩ := selects_deletionQuery.1 hq
    exact htype.imp (hd.created hmem · htag) (hd.deleted hmem · htag)
  have hids : (select (deletionQuery userId).selects log).Pairwise _ :=
    hu.ids.sublist List.filter_sublist
  have hdel : (select (deletionQuery userId).selects log).Pairwise _ :=
    hu.deletedOnce.sublist List.filter_sublist
  unfold getEvents at hp
  generalize select (deletionQuery userId).selects log = es at *
  have hnot : ∀ e ∈ es.reverse.take 2, ∃ c, e.event = .userCreated c ∧ c.userId = userId := by
    intro e he
    refine (hsel e (List.mem_reverse.1 (List.mem_of_mem_take he))).resolve_right fun hdel => ?_
    have hany : (es.reverse.take 2).any (fun e => e.event.eventType == eventTypeUserDeleted)
        = true := List.any_eq_true.2 ⟨e, he, by rw [hdel]; rfl⟩
    unfold deletionPosition at hp
    split at hp
    · simp at hp
    · rw [if_pos hany] at hp
      simp at hp
  rcases List.eq_nil_or_concat es with rfl | ⟨rest, e, rfl⟩
  · simp [deletionPosition] at hp
  · rw [List.concat_eq_append] at *
    rcases List.eq_nil_or_concat rest with rfl | ⟨rest, f, rfl⟩
    · obtain ⟨c, hc, hcu⟩ := hnot e (by simp)
      refine ⟨e, c, rfl, ?_, hc, hcu⟩
      have htype : (e.event.eventType == eventTypeUserDeleted) = false := by
        rw [hc]
        exact (by decide : (eventTypeUserCreated == eventTypeUserDeleted) = false)
      simpa [deletionPosition, htype] using hp
    · rw [List.concat_eq_append] at *
      obtain ⟨c, hc, hcu⟩ := hnot e (by simp)
      obtain ⟨d, hd', hdu⟩ := hnot f (by simp)
      have hne := (List.pairwise_append.1 hids).2.2 f (by simp) e (by simp) d c hd' hc
      exact absurd (hdu.trans hcu.symm) hne

def Trimmed (s : String) : Prop := trimSpace s = s

theorem trimSpace_trimmed (s : String) : Trimmed (trimSpace s) := by
  have hlist : ∀ p : Char → Bool, ∀ l : List Char,
      ((l.dropWhile p).rdropWhile p).dropWhile p = (l.dropWhile p).rdropWhile p := by
    intro p l
    rw [List.dropWhile_eq_self_iff]
    intro hlen
    have hpre := List.rdropWhile_prefix p (l := l.dropWhile p)
    rw [hpre.getElem hlen]
    exact List.dropWhile_get_zero_not p l _
  have hrdrop : ∀ l : List Char, ((l.reverse).dropWhile isSpace).reverse = l.rdropWhile isSpace :=
    fun _ => rfl
  unfold Trimmed trimSpace
  rw [String.toList_ofList, hrdrop, hrdrop, hlist, List.rdropWhile_idempotent]

def Mentions (log : Log) (userId : String) : Prop :=
  ∃ e ∈ log, e.event.tag "user_id" = some userId

theorem Mentions.append (h : Mentions log userId) (more : Log) : Mentions (log ++ more) userId := by
  obtain ⟨e, he, hu⟩ := h
  exact ⟨e, List.mem_append_left _ he, hu⟩

def Handler.Sound (log : Log) : Handler → Prop
  | .creating user => Trimmed user.username
  | .creatingOver user _ => Trimmed user.username
  | .decidingCreation user _ => Trimmed user.username
  | .appendingCreated data => Trimmed data.username ∧ ¬ Mentions log data.userId
  | .appendingDeleted userId position => ∃ before, before <+: log ∧
    deletionPosition (getEvents (deletionQuery userId) 2 before) = .ok position
  | .changingReads userId _ created _ _ => created ≠ [] → Mentions log userId
  | .appendingPassword userId _ _ => Mentions log userId
  | _ => True

variable {h : Handler}

theorem Handler.Sound.append (hs : h.Sound log) {e : Entry Position Event}
    (hid : ∀ id, h.newId = some id → e.event.tag "user_id" ≠ some id) :
    h.Sound (log ++ [e]) := by
  rcases h with user | ⟨user, data⟩ | ⟨user, events⟩ | data | userId | ⟨userId, position⟩ |
    ⟨userId, password⟩ | ⟨userId, password, created, deleted, changed⟩ | ⟨userId, hash, position⟩ |
    result
  · exact hs
  · exact hs
  · exact hs
  · refine ⟨hs.1, ?_⟩
    rintro ⟨f, hf, hu⟩
    rcases List.mem_append.1 hf with hf | hf
    · exact hs.2 ⟨f, hf, hu⟩
    · rw [List.mem_singleton.1 hf] at hu
      exact hid _ rfl hu
  · trivial
  · obtain ⟨before, hp, hd⟩ := hs
    exact ⟨before, hp.trans (List.prefix_append _ _), hd⟩
  · trivial
  · exact fun hc => (hs hc).append _
  · exact Mentions.append hs _
  · trivial

theorem mem_of_mem_getEvents {q : Query} {n : ℕ} {e : Entry Position Event}
    (h : e ∈ getEvents q n log) : e ∈ log ∧ q.selects e.event = true :=
  mem_select.1 (List.mem_reverse.1 (List.mem_of_mem_take h))

variable {h' : Handler}

theorem Handler.read_sound (hs : h.Sound log) (hr : h.read log = some h') :
    h'.Sound log ∧ h'.newId = none := by
  rcases h with user | ⟨user, data⟩ | ⟨user, events⟩ | data | userId | ⟨userId, position⟩ |
    ⟨userId, password⟩ | ⟨userId, password, created, deleted, changed⟩ | ⟨userId, hash, position⟩ |
    result <;> simp only [Handler.read, Option.some.injEq, reduceCtorEq] at hr
  · subst hr
    split
    · exact ⟨hs, rfl⟩
    · split
      · exact ⟨hs, rfl⟩
      · exact ⟨trivial, rfl⟩
  · subst hr
    exact ⟨hs, rfl⟩
  · subst hr
    split
    · exact ⟨trivial, rfl⟩
    · exact ⟨⟨log, List.prefix_refl _, ‹_›⟩, rfl⟩
  · subst hr
    refine ⟨fun hc => ?_, rfl⟩
    obtain ⟨e, he⟩ := List.exists_mem_of_ne_nil _ hc
    obtain ⟨hmem, hq⟩ := mem_of_mem_getEvents he
    exact ⟨e, hmem, (selects_byUserId.1 hq).1⟩

theorem Handler.readDeleted_sound (hs : h.Sound log) (hr : h.readDeleted log = some h') :
    h'.Sound log ∧ h'.newId = none := by
  unfold Handler.readDeleted at hr
  split at hr
  · cases hr
    exact ⟨hs, rfl⟩
  · simp at hr

theorem Handler.readChanged_sound (hs : h.Sound log) (hr : h.readChanged log = some h') :
    h'.Sound log ∧ h'.newId = none := by
  unfold Handler.readChanged at hr
  split at hr
  · cases hr
    exact ⟨hs, rfl⟩
  · simp at hr

variable {compare : String → String → Bool}

theorem created_ne_nil_of_decision {password : String} {hash : Option String}
    {reads : PasswordReads} {r : String × Position}
    (h : changePasswordDecision compare password hash reads = .ok r) : reads.created ≠ [] := by
  intro hnil
  simp [changePasswordDecision, hnil] at h

theorem Handler.decided_sound {id : String} {hash : Option String} (hs : h.Sound log)
    (hfresh : ¬ Mentions log id) (hr : h.decided compare id hash = some h') :
    h'.Sound log ∧ ∀ a, h'.newId = some a → a = id := by
  unfold Handler.decided at hr
  split at hr
  · cases hr
    rename_i user events
    rcases hc : createUserCommandHandler user id hash events with e | data
    · exact ⟨trivial, by simp [Handler.newId]⟩
    · unfold createUserCommandHandler at hc
      split_ifs at hc
      split at hc
      · simp at hc
      · cases hc
        exact ⟨⟨hs, hfresh⟩, by simp [Handler.newId]⟩
  · cases hr
    split
    · exact ⟨trivial, by simp [Handler.newId]⟩
    · rename_i hdec
      exact ⟨hs (created_ne_nil_of_decision hdec), by simp [Handler.newId]⟩
  · simp at hr

/-- A log the commands keep. -/
structure SoundLog (log : Log) : Prop where
  increasing : Increasing notExistsPosition log
  decodable : Decodable log
  trimmed : ∀ e ∈ log, ∀ c, e.event = .userCreated c → Trimmed c.username
  unique : UniqueLifecycles log

def DistinctIds (handlers : List Handler) : Prop :=
  ∀ (i j : ℕ) (h h' : Handler) (id : String), handlers[i]? = some h → handlers[j]? = some h' →
    h.newId = some id → h'.newId = some id → i = j

structure World.Inv (w : World) : Prop where
  log : SoundLog w.log
  handlers : ∀ (i : ℕ) (h : Handler), w.handlers[i]? = some h → h.Sound w.log
  ids : DistinctIds w.handlers

variable {i : ℕ}

theorem getElem?_set_cases {hs : List Handler} {j : ℕ} {g : Handler}
    (hg : (hs.set i h)[j]? = some g) : (j = i ∧ g = h) ∨ (j ≠ i ∧ hs[j]? = some g) := by
  rw [List.getElem?_set] at hg
  split_ifs at hg with hij hlt
  · exact .inl ⟨hij.symm, (Option.some.inj hg).symm⟩
  · exact .inr ⟨fun h => hij h.symm, hg⟩

theorem distinctIds_set {hs : List Handler} (hd : DistinctIds hs)
    (hid : ∀ id, h.newId = some id → ∀ g ∈ hs, g.newId ≠ some id) : DistinctIds (hs.set i h) := by
  intro j k g g' id hj hk hgid hgid'
  rcases getElem?_set_cases hj with ⟨rfl, rfl⟩ | ⟨hji, hj⟩ <;>
    rcases getElem?_set_cases hk with ⟨hki, hg'⟩ | ⟨hki, hk⟩
  · exact hki.symm
  · exact absurd hgid' (hid id hgid g' (List.mem_of_getElem? hk))
  · rw [hg'] at hgid'
    exact absurd hgid (hid id hgid' g (List.mem_of_getElem? hj))
  · exact hd j k g g' id hj hk hgid hgid'

variable {w w' : World}

theorem World.move_eq {f : Handler → Option Handler} (hm : w.move i f = some w') :
    ∃ h h', w.handlers[i]? = some h ∧ f h = some h' ∧ w' = w.setHandler i h' := by
  obtain ⟨h, hh, hm⟩ := Option.bind_eq_some_iff.1 hm
  obtain ⟨h', hf, hm⟩ := Option.bind_eq_some_iff.1 hm
  exact ⟨h, h', hh, hf, (Option.some.inj hm).symm⟩

theorem World.Inv.setHandler (hw : w.Inv) (i : ℕ) (hs : h.Sound w.log)
    (hid : ∀ id, h.newId = some id → ∀ g ∈ w.handlers, g.newId ≠ some id) :
    (w.setHandler i h).Inv where
  log := hw.log
  handlers j g hg := by
    rcases getElem?_set_cases hg with ⟨-, rfl⟩ | ⟨-, hg⟩
    · exact hs
    · exact hw.handlers j g hg
  ids := distinctIds_set hw.ids hid

theorem World.Inv.addHandler (hw : w.Inv) (hs : h.Sound w.log) (hid : h.newId = none) :
    ({ w with handlers := w.handlers ++ [h] } : World).Inv where
  log := hw.log
  handlers j g hg := by
    rcases List.mem_append.1 (List.mem_of_getElem? hg) with hmem | hmem
    · obtain ⟨k, hk⟩ := List.mem_iff_getElem?.1 hmem
      exact hw.handlers k g hk
    · rw [List.mem_singleton.1 hmem]
      exact hs
  ids := by
    intro j k g g' id hj hk hgid hgid'
    have hold : ∀ (l : ℕ) (a : Handler), (w.handlers ++ [h])[l]? = some a → a.newId = some id →
        w.handlers[l]? = some a := by
      intro l a hl ha
      rw [List.getElem?_append] at hl
      split_ifs at hl
      · exact hl
      · rw [List.mem_singleton.1 (List.mem_of_getElem? hl), hid] at ha
        simp at ha
    exact hw.ids j k g g' id (hold j g hj hgid) (hold k g' hk hgid') hgid hgid'

variable {position : Position}

theorem nextPosition_spec (h : nextPosition log position = true) :
    notExistsPosition < position ∧ ∀ e ∈ log, e.position < position := by
  simpa [nextPosition] using h

theorem select_eq_nil_of_standsAt {q : Event → Bool} (hlog : Increasing notExistsPosition log)
    (h : standsAt notExistsPosition q log = notExistsPosition) : select q log = [] :=
  hlog.select_of_standsAt (List.nil_prefix) h

variable {event : Event}

theorem pending_append (hlog : SoundLog log) (hs : h.Sound log)
    (hp : h.pending log = some (event, true)) (position : Position) :
    UniqueLifecycles (log ++ [⟨position, event⟩]) ∧
      (∀ c, event = .userCreated c → Trimmed c.username) ∧
      (∀ t u, event ≠ .undecodable t u) ∧
      ∀ u, event.tag "user_id" = some u → Mentions log u ∨ h.newId = some u := by
  rcases h with user | ⟨user, data⟩ | ⟨user, events⟩ | data | userId | ⟨userId, p⟩ |
    ⟨userId, password⟩ | ⟨userId, password, created, deleted, changed⟩ | ⟨userId, hash, p⟩ |
    result <;>
    simp only [Handler.pending, Option.some.injEq, Prod.mk.injEq, beq_iff_eq, reduceCtorEq] at hp
  · obtain ⟨rfl, hstands⟩ := hp
    have hnil := select_eq_nil_of_standsAt hlog.increasing hstands
    refine ⟨hlog.unique.append ?_ (by simp), ?_, by simp, fun u hu => .inr hu⟩
    · intro c hc f hf d hd
      obtain rfl := Event.userCreated.inj hc
      refine ⟨fun hname => ?_, fun hid => hs.2 ⟨f, hf, by rw [hd, ← hid]; rfl⟩⟩
      rw [hlog.trimmed f hf d hd, hs.1] at hname
      have : f ∈ select (creationQuery data.username data.userId).selects log :=
        mem_select.2 ⟨hf, selects_creationQuery.2 ⟨d, hd, hname⟩⟩
      rw [hnil] at this
      simp at this
    · rintro c hc
      obtain rfl := Event.userCreated.inj hc
      exact hs.1
  · obtain ⟨rfl, hstands⟩ := hp
    obtain ⟨before, hpre, hread⟩ := hs
    obtain ⟨e, c, hsel, rfl, hc, rfl⟩ := deletion_read (hlog.unique.of_isPrefix hpre)
      (hlog.decodable.of_isPrefix hpre) hread
    have hbefore : standsAt notExistsPosition (deletionQuery c.userId).selects before = e.position :=
      standsAt_of_latest? (by rw [latest?, hsel]; rfl)
    have hsame := hlog.increasing.select_of_standsAt hpre (hstands.trans hbefore.symm)
    have he : e ∈ log := by
      have : e ∈ select (deletionQuery c.userId).selects log := by rw [hsame, hsel]; simp
      exact (mem_select.1 this).1
    refine ⟨hlog.unique.append (by simp) ?_, by simp, by simp, ?_⟩
    · intro u hu
      obtain rfl := Event.userDeleted.inj hu
      refine ⟨fun f hf hdel => ?_, e, he, c, hc, rfl⟩
      have : f ∈ select (deletionQuery c.userId).selects log :=
        mem_select.2 ⟨hf, selects_deletionQuery.2 (by rw [hdel]; exact ⟨rfl, .inr rfl⟩)⟩
      rw [hsame, hsel, List.mem_singleton] at this
      rw [this, hc] at hdel
      simp at hdel
    · intro u hu
      cases hu
      exact .inl ⟨e, he, by rw [hc]; rfl⟩
  · obtain ⟨rfl, -⟩ := hp
    refine ⟨hlog.unique.append_other (by simp) (by simp), by simp, by simp, fun u hu => .inl ?_⟩
    cases hu
    exact hs

theorem SoundLog.append (hlog : SoundLog log) (hnext : nextPosition log position = true)
    (hunique : UniqueLifecycles (log ++ [⟨position, event⟩]))
    (htrim : ∀ c, event = .userCreated c → Trimmed c.username)
    (hdec : ∀ t u, event = .undecodable t u → Event.isUserType t = false) :
    SoundLog (log ++ [⟨position, event⟩]) where
  increasing := by
    obtain ⟨hbottom, habove⟩ := nextPosition_spec hnext
    exact hlog.increasing.append_singleton hbottom habove
  decodable e he := by
    rcases List.mem_append.1 he with he | he
    · exact hlog.decodable e he
    · rw [List.mem_singleton.1 he]
      exact hdec
  trimmed e he := by
    rcases List.mem_append.1 he with he | he
    · exact hlog.trimmed e he
    · rw [List.mem_singleton.1 he]
      exact htrim
  unique := hunique

theorem appendEvent_fst (log : Log) (event : Event) (holds : Bool) (position : Position)
    (fault : Fault) : (appendEvent log event holds position fault).1 = log ∨
      holds = true ∧ (appendEvent log event holds position fault).1 = log ++ [⟨position, event⟩] := by
  rcases fault with _ | _ | _ <;> rcases holds with _ | _ <;> simp [appendEvent]

theorem World.step_append {fault : Fault} (hs : w.step compare (.append i position fault) = some w') :
    ∃ h event holds result, w.handlers[i]? = some h ∧ h.pending w.log = some (event, holds) ∧
      nextPosition w.log position = true ∧
      w' = ⟨(appendEvent w.log event holds position fault).1,
        w.handlers.set i (.finished result)⟩ := by
  obtain ⟨h, hh, hs⟩ := Option.bind_eq_some_iff.1 hs
  obtain ⟨⟨event, holds⟩, hp, hs⟩ := Option.bind_eq_some_iff.1 hs
  simp only at hs
  split_ifs at hs with hnext
  exact ⟨h, event, holds, _, hh, hp, hnext, (Option.some.inj hs).symm⟩

theorem World.step_log_cases {a : Action} (hs : w.step compare a = some w') :
    w'.log = w.log ∨ ∃ position event, w'.log = w.log ++ [⟨position, event⟩] ∧
      ((∃ h ∈ w.handlers, h.pending w.log = some (event, true)) ∨ ∃ t, event = .other t) := by
  have hmove : ∀ {i f}, w.move i f = some w' → w'.log = w.log := by
    intro i f hm
    obtain ⟨h, h', -, -, rfl⟩ := World.move_eq hm
    rfl
  rcases a with ⟨name, username, roles⟩ | ⟨u, currentUserId⟩ | ⟨u, password⟩ | i | i | i |
    ⟨i, id, hash⟩ | ⟨i, position, fault⟩ | i | ⟨position, eventType⟩
  · cases hs
    exact .inl rfl
  · cases hs
    exact .inl rfl
  · cases hs
    exact .inl rfl
  · exact .inl (hmove hs)
  · exact .inl (hmove hs)
  · exact .inl (hmove hs)
  · simp only [World.step] at hs
    split_ifs at hs
    exact .inl (hmove hs)
  · obtain ⟨h, event, holds, result, hh, hp, -, rfl⟩ := World.step_append hs
    rcases appendEvent_fst w.log event holds position fault with heq | ⟨rfl, heq⟩
    · exact .inl heq
    · exact .inr ⟨position, event, heq, .inl ⟨h, List.mem_of_getElem? hh, hp⟩⟩
  · exact .inl (hmove hs)
  · simp only [World.step] at hs
    split_ifs at hs
    cases hs
    exact .inr ⟨position, _, rfl, .inr ⟨eventType, rfl⟩⟩

theorem World.Inv.appended (hw : w.Inv) (hh : w.handlers[i]? = some h)
    (hp : h.pending w.log = some (event, true)) (hnext : nextPosition w.log position = true)
    (result : Except UserError Unit) :
    World.Inv ⟨w.log ++ [⟨position, event⟩], w.handlers.set i (.finished result)⟩ := by
  obtain ⟨hunique, htrim, hdec, hmention⟩ := pending_append hw.log (hw.handlers i h hh) hp position
  refine ⟨hw.log.append hnext hunique htrim fun t u h => absurd h (hdec t u), ?_,
    distinctIds_set hw.ids (by simp [Handler.newId])⟩
  intro j g hg
  rcases getElem?_set_cases hg with ⟨-, rfl⟩ | ⟨hji, hg⟩
  · trivial
  · refine (hw.handlers j g hg).append fun id hid htag => ?_
    rcases hmention id htag with hm | hm
    · -- the id of another creation is in no event yet
      rcases g with _ | _ | _ | data | _ | _ | _ | _ | _ | _ <;>
        simp only [Handler.newId, Option.some.injEq, reduceCtorEq] at hid
      subst hid
      exact (hw.handlers j _ hg).2 hm
    · exact hji (hw.ids j i g h id hg hh hid hm)

theorem createUser_cases (name username : String) (roles : List Role) :
    (∃ e, Handler.createUser name username roles = .finished (.error e)) ∨
      Handler.createUser name username roles = .creating ⟨name, trimSpace username, roles⟩ := by
  unfold Handler.createUser
  split_ifs
  · exact .inl ⟨_, rfl⟩
  · exact .inr rfl

theorem deleteUser_cases (userId currentUserId : String) :
    (∃ e, Handler.deleteUser userId currentUserId = .finished (.error e)) ∨
      Handler.deleteUser userId currentUserId = .deleting (trimSpace userId) := by
  unfold Handler.deleteUser
  split_ifs
  · exact .inl ⟨_, rfl⟩
  · exact .inl ⟨_, rfl⟩
  · exact .inr rfl

theorem changePassword_cases (userId password : String) :
    (∃ e, Handler.changePassword userId password = .finished (.error e)) ∨
      Handler.changePassword userId password = .changing userId password := by
  unfold Handler.changePassword
  split_ifs
  · exact .inl ⟨_, rfl⟩
  · exact .inr rfl

theorem World.Inv.step (hw : w.Inv) {a : Action} (hs : w.step compare a = some w') : w'.Inv := by
  rcases a with ⟨name, username, roles⟩ | ⟨userId, currentUserId⟩ | ⟨userId, password⟩ | i | i | i |
    ⟨i, id, hash⟩ | ⟨i, position, fault⟩ | i | ⟨position, eventType⟩
  · cases hs
    obtain ⟨e, h⟩ | h := createUser_cases name username roles <;> rw [h]
    · exact hw.addHandler trivial rfl
    · exact hw.addHandler (trimSpace_trimmed username) rfl
  · cases hs
    obtain ⟨e, h⟩ | h := deleteUser_cases userId currentUserId <;> rw [h]
    · exact hw.addHandler trivial rfl
    · exact hw.addHandler trivial rfl
  · cases hs
    obtain ⟨e, h⟩ | h := changePassword_cases userId password <;> rw [h]
    · exact hw.addHandler trivial rfl
    · exact hw.addHandler trivial rfl
  · obtain ⟨h, h', hh, hf, rfl⟩ := World.move_eq hs
    obtain ⟨hs', hid⟩ := Handler.read_sound (hw.handlers i h hh) hf
    exact hw.setHandler i hs' (by simp [hid])
  · obtain ⟨h, h', hh, hf, rfl⟩ := World.move_eq hs
    obtain ⟨hs', hid⟩ := Handler.readDeleted_sound (hw.handlers i h hh) hf
    exact hw.setHandler i hs' (by simp [hid])
  · obtain ⟨h, h', hh, hf, rfl⟩ := World.move_eq hs
    obtain ⟨hs', hid⟩ := Handler.readChanged_sound (hw.handlers i h hh) hf
    exact hw.setHandler i hs' (by simp [hid])
  · simp only [World.step] at hs
    split_ifs at hs with hfresh
    obtain ⟨h, h', hh, hf, rfl⟩ := World.move_eq hs
    simp only [World.freshId, Bool.and_eq_true, List.all_eq_true, bne_iff_ne] at hfresh
    obtain ⟨hs', hid⟩ := Handler.decided_sound (hw.handlers i h hh)
      (fun ⟨e, he, hu⟩ => hfresh.1 e he hu) hf
    refine hw.setHandler i hs' fun a ha g hg => ?_
    rw [hid a ha]
    exact hfresh.2 g hg
  · obtain ⟨h, event, holds, result, hh, hp, hnext, rfl⟩ := World.step_append hs
    rcases appendEvent_fst w.log event holds position fault with heq | ⟨rfl, heq⟩ <;> rw [heq]
    · exact hw.setHandler i (h := .finished result) trivial (by simp [Handler.newId])
    · exact hw.appended hh hp hnext result
  · obtain ⟨h, h', hh, hf, rfl⟩ := World.move_eq hs
    cases hf
    exact hw.setHandler i trivial (by simp [Handler.newId])
  · simp only [World.step] at hs
    split_ifs at hs with hguard
    cases hs
    rw [Bool.and_eq_true] at hguard
    refine ⟨hw.log.append hguard.1 (hw.log.unique.append_other (by simp) (by simp)) (by simp)
      (by simp), fun j g hg => (hw.handlers j g hg).append ?_, hw.ids⟩
    simp [Event.tag, Event.field]

def NoUsers (log : Log) : Prop := ∀ e ∈ log, Event.isUserType e.event.eventType = false

theorem soundLog_of_noUsers (h : NoUsers log) (hlog : Increasing notExistsPosition log) :
    SoundLog log := by
  have hc : ∀ e ∈ log, ∀ c, e.event ≠ .userCreated c := fun e he c hc => by
    have := h e he
    rw [hc] at this
    exact absurd this (by decide : Event.isUserType eventTypeUserCreated ≠ false)
  have hd : ∀ e ∈ log, ∀ u, e.event ≠ .userDeleted u := fun e he u hu => by
    have := h e he
    rw [hu] at this
    exact absurd this (by decide : Event.isUserType eventTypeUserDeleted ≠ false)
  refine ⟨hlog, fun e he t u hu => ?_, fun e he c hc' => absurd hc' (hc e he c), ?_⟩
  · have := h e he
    rwa [hu] at this
  · refine ⟨?_, ?_, ?_, ?_⟩
    · exact List.pairwise_of_forall_mem_list fun e he f _ c d hec _ => absurd hec (hc e he c)
    · exact List.pairwise_of_forall_mem_list fun e he f _ c d hec _ => absurd hec (hc e he c)
    · exact List.pairwise_of_forall_mem_list fun e he f _ u v heu _ => absurd heu (hd e he u)
    · rintro before e after rfl u hu
      exact absurd hu (hd e (by simp) u)

theorem soundLog_of_run (hlog : Increasing notExistsPosition log) (h : NoUsers log)
    {as : List Action} (hr : Transition.run (World.step compare) ⟨log, []⟩ as = some w) :
    SoundLog w.log := by
  have h0 : World.Inv ⟨log, []⟩ :=
    ⟨soundLog_of_noUsers h hlog, by simp, by intro i j h h' id hi; simp at hi⟩
  exact (Transition.run_invariant (I := World.Inv) (fun _ _ _ hw hs => hw.step hs) h0 hr).log

/-- However the commands are interleaved, users are created once under a name and deleted once, after
they were created. -/
theorem userLifecycles_unique (hlog : Increasing notExistsPosition log) (h : NoUsers log)
    {as : List Action} {w : World}
    (hr : Transition.run (World.step compare) ⟨log, []⟩ as = some w) : UniqueLifecycles w.log :=
  (soundLog_of_run hlog h hr).unique

/-- Two creations under one name, both decided before the first is appended, and a deletion. -/
def twoCreations : List Action :=
  [.createUser "Anna" " anna" [.admin], .createUser "Ann" "anna " [.operations], .read 0, .read 1,
    .decide 0 "u1" (some "h1"), .decide 1 "u2" (some "h2"), .append 1 ⟨1, 1⟩ .unacknowledged,
    .append 0 ⟨2, 2⟩ .none, .deleteUser "u2" "u3", .read 2, .append 2 ⟨3, 3⟩ .none]

theorem userLifecycles_unique_twoCreations : ∃ w,
    Transition.run (World.step fun _ _ => true) ⟨[⟨⟨0, 0⟩, .other "$BoundaryCreated"⟩], []⟩
      twoCreations = some w ∧
    w.log.map (fun e => e.event.eventType) =
      ["$BoundaryCreated", eventTypeUserCreated, eventTypeUserDeleted] ∧
    UniqueLifecycles w.log := by
  obtain ⟨w, hw, hlog⟩ := Transition.exists_run
    (⟨[⟨⟨0, 0⟩, .other "$BoundaryCreated"⟩], []⟩ : World) twoCreations
    (fun w => decide (w.log.map (fun e => e.event.eventType) =
      ["$BoundaryCreated", eventTypeUserCreated, eventTypeUserDeleted]))
    (by decide +kernel : (Transition.run (World.step fun _ _ => true) _ _).any _ = true)
  have hno : NoUsers [⟨⟨0, 0⟩, .other "$BoundaryCreated"⟩] := by
    rw [NoUsers]
    decide +kernel
  exact ⟨w, hw, of_decide_eq_true hlog,
    userLifecycles_unique ⟨by decide +kernel, by decide +kernel⟩ hno hw⟩

end Orisun.Admin.Users
