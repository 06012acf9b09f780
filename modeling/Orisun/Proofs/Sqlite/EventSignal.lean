import Orisun.Sqlite.EventSignal

/-!
# No wake-up is lost

The notifier's timer of a boundary is one that will still run (`Good.current`): a stale callback
may delete a newer timer from the map, and that timer runs all the same. So a call of `Notify`
leaves a token or finds a timer, a token is consumed by a relay that publishes afterwards, and
what the calls have left stays until it is published (`Good.reaches`). The one way out is a relay
that gives up.
-/

namespace Orisun.Sqlite

/-- The relay's counts of calls are in order. -/
def RelayState.Timely (clock : ℕ) : RelayState → Prop
  | publishing (some c) => c ≤ clock
  | attempting (some c) began => c ≤ began ∧ began ≤ clock
  | _ => True

theorem RelayState.Timely.mono {r : RelayState} {clock clock' : ℕ} (h : r.Timely clock)
    (hle : clock ≤ clock') : r.Timely clock' := by
  match r, h with
  | publishing (some _), h => exact Nat.le_trans h hle
  | attempting (some _) _, h => exact ⟨h.1, Nat.le_trans h.2 hle⟩
  | publishing none, _ => trivial
  | attempting none _, _ => trivial
  | waiting, _ => trivial
  | returning _, _ => trivial
  | stopped, _ => trivial

namespace EventSignal

/-- The call is published, or it is with the signal or its relay. -/
def Keeps (s : EventSignal) (k : ℕ) : Prop :=
  k < s.published ∨ s.token = true ∨
    s.relay.inLoopSince k = true ∨ s.relay.returningSince k = true

variable {clock k : ℕ} {s s' : EventSignal} {a : RelayAction}

theorem advance_same (h : s.advance clock a = some s') : s'.boundary = s.boundary ∧
    s'.registeredAt = s.registeredAt ∧ s'.registered = s.registered := by
  unfold advance at h
  split at h
  case h_5 =>
    split_ifs at h
    cases h
    exact ⟨rfl, rfl, rfl⟩
  case h_7 => cases h
  all_goals
    cases h
    exact ⟨rfl, rfl, rfl⟩

theorem advance_timely (h : s.advance clock a = some s') (hs : s.relay.Timely clock) :
    s'.relay.Timely clock := by
  unfold advance at h
  split at h
  next consumed hr =>
    rw [hr] at hs
    cases h
    cases consumed with
    | none => trivial
    | some c => exact ⟨hs, Nat.le_refl _⟩
  next =>
    cases h
    trivial
  next =>
    cases h
    trivial
  next cancelled consumed began hr =>
    rw [hr] at hs
    cases h
    cases cancelled with
    | true => trivial
    | false =>
      cases consumed with
      | none => trivial
      | some c => exact Nat.le_trans hs.1 hs.2
  next =>
    split_ifs at h
    cases h
    exact Nat.le_refl _
  next =>
    cases h
    trivial
  next => cases h

/-- A call that a relay's move finds is kept by it. -/
theorem Keeps.advance (hk : s.Keeps k) (h : s.advance clock a = some s')
    (hs : s.relay.Timely clock) (hlt : k < clock) : s'.Keeps k := by
  unfold EventSignal.advance at h
  split at h
  next consumed hr =>
    cases h
    rcases hk with hk | hk | hk | hk
    · exact .inl hk
    · exact .inr (.inl hk)
    · exact .inr (.inr (.inl (by rwa [hr] at hk)))
    · rw [hr] at hk
      cases hk
  next consumed hr =>
    cases h
    rcases hk with hk | hk | hk | hk
    · exact .inl hk
    · exact .inr (.inl hk)
    · exact .inr (.inr (.inr (by rwa [hr] at hk)))
    · rw [hr] at hk
      cases hk
  next consumed began hr =>
    cases h
    rcases hk with hk | hk | hk | hk
    · exact .inl (Nat.lt_of_lt_of_le hk (Nat.le_max_left _ _))
    · exact .inr (.inl hk)
    · rw [hr] at hk hs
      match consumed, hk, hs with
      | some c, hk, hs =>
        have hkc : k < c := of_decide_eq_true hk
        exact .inl (Nat.lt_of_lt_of_le (Nat.lt_of_lt_of_le hkc hs.1) (Nat.le_max_right _ _))
    · rw [hr] at hk
      cases hk
  next cancelled consumed began hr =>
    cases h
    rcases hk with hk | hk | hk | hk
    · exact .inl hk
    · exact .inr (.inl hk)
    · rw [hr] at hk
      cases cancelled with
      | true => exact .inr (.inr (.inr hk))
      | false => exact .inr (.inr (.inl hk))
    · rw [hr] at hk
      cases hk
  next =>
    split_ifs at h
    cases h
    exact .inr (.inr (.inl (decide_eq_true hlt)))
  next hr =>
    cases h
    rcases hk with hk | hk | hk | hk
    · exact .inl hk
    · exact .inr (.inl hk)
    · rw [hr] at hk
      cases hk
    · rw [hr] at hk
      cases hk
  next => cases h

end EventSignal

namespace SqliteEventNotifier

variable {n : SqliteEventNotifier} {b : String} {i k : ℕ} {s s' : EventSignal} {t : Timer}

theorem Notified.lt (h : n.Notified s k) : k < n.notifies.length :=
  (List.getElem?_eq_some_iff.1 h.2).1

/-- What holds after every run. -/
structure Good (n : SqliteEventNotifier) : Prop where
  reaches : ∀ s ∈ n.signals, s.registered = true → ∀ k, n.Notified s k → n.Armed s.boundary ∨ s.Keeps k
  current : ∀ b k, n.current b = some k →
    ∃ t, n.timers[k]? = some t ∧ t.boundary = b ∧ t.isArmed = true
  timely : ∀ s ∈ n.signals, s.relay.Timely n.notifies.length

theorem Good.initial : initial.Good where
  reaches s hs := by cases hs
  current b k h := by cases h
  timely s hs := by cases hs

theorem Good.armed (hn : n.Good) (h : (n.current b).isSome = true) : n.Armed b := by
  obtain ⟨k, hk⟩ := Option.isSome_iff_exists.1 h
  obtain ⟨t, ht, hb, ha⟩ := hn.current b k hk
  exact ⟨t, List.mem_of_getElem? ht, hb, ha⟩

theorem hasSignals_of_mem (hs : s ∈ n.signals) (hr : s.registered = true) :
    n.hasSignals s.boundary = true :=
  List.any_eq_true.2 ⟨s, hs, by simp [hr]⟩

variable {state : TimerState}

theorem Armed.setTimer (h : n.Armed b) (hk : n.timers[k]? = some t)
    (hst : t.boundary = b → state ≠ .finished) : (n.setTimer k t state).Armed b := by
  obtain ⟨u, hu, hb, ha⟩ := h
  obtain ⟨j, hj⟩ := List.mem_iff_getElem?.1 hu
  have hlt : k < n.timers.length := (List.getElem?_eq_some_iff.1 hk).1
  by_cases hkj : k = j
  · subst hkj
    obtain rfl := Option.some.inj (hk.symm.trans hj)
    refine ⟨{ t with state := state }, ?_, hb, by simp [Timer.isArmed, hst hb]⟩
    exact List.mem_of_getElem? (List.getElem?_set_self hlt)
  · refine ⟨u, ?_, hb, ha⟩
    exact List.mem_of_getElem? ((List.getElem?_set_ne hkj).trans hj)

theorem Good.current_setTimer (hn : n.Good) (hk : n.timers[k]? = some t) {j : ℕ}
    (hj : n.current b = some j) (hst : t.boundary = b → state ≠ .finished) :
    ∃ u, (n.setTimer k t state).timers[j]? = some u ∧ u.boundary = b ∧ u.isArmed = true := by
  obtain ⟨u, hu, hb, ha⟩ := hn.current b j hj
  by_cases hkj : k = j
  · subst hkj
    obtain rfl := Option.some.inj (hk.symm.trans hu)
    exact ⟨_, List.getElem?_set_self (List.getElem?_eq_some_iff.1 hk).1, hb,
      by simp [Timer.isArmed, hst hb]⟩
  · exact ⟨u, (List.getElem?_set_ne hkj).trans hu, hb, ha⟩

theorem Good.current_forget (hn : n.Good) (hk : n.timers[k]? = some t) {j : ℕ}
    (hj : Function.update n.current t.boundary none b = some j) :
    ∃ u, (n.setTimer k t state).timers[j]? = some u ∧ u.boundary = b ∧ u.isArmed = true := by
  have hb : b ≠ t.boundary := by
    rintro rfl
    simp at hj
  rw [Function.update_of_ne hb] at hj
  exact hn.current_setTimer hk hj fun h => absurd h.symm hb

variable {n' : SqliteEventNotifier}

theorem Good.fire (hn : n.Good) (h : n.fire k = some n') :
    n'.Good := by
  unfold SqliteEventNotifier.fire at h
  split at h
  next t hk =>
    split_ifs at h
    cases h
    refine ⟨fun s hs hr j hj => ?_, fun b j hj => ?_, hn.timely⟩
    · exact (hn.reaches s hs hr j hj).imp_left fun ha => ha.setTimer hk fun _ => by decide
    · exact hn.current_setTimer hk hj fun _ => by decide
  next => cases h

theorem mem_notifyLocked (hs : s ∈ (n.notifyLocked b).signals) :
    ∃ u ∈ n.signals, (u.registered = true ∧ u.boundary = b ∧ s = { u with token := true }) ∨
      (s = u ∧ (u.registered = true → u.boundary ≠ b)) := by
  obtain ⟨u, hu, rfl⟩ := List.mem_map.1 hs
  refine ⟨u, hu, ?_⟩
  split_ifs with h
  · exact .inl ⟨h.1, h.2, rfl⟩
  · exact .inr ⟨rfl, fun hr hb => h ⟨hr, hb⟩⟩

theorem reaches_notifyLocked
    (hn : ∀ s ∈ n.signals, s.registered = true → s.boundary ≠ b → ∀ k, n.Notified s k →
      n.Armed s.boundary ∨ s.Keeps k) :
    ∀ s ∈ (n.notifyLocked b).signals, s.registered = true → ∀ k,
      (n.notifyLocked b).Notified s k → (n.notifyLocked b).Armed s.boundary ∨ s.Keeps k := by
  intro s hs hr k hk
  obtain ⟨u, hu, ⟨-, -, rfl⟩ | ⟨rfl, hne⟩⟩ := mem_notifyLocked hs
  · exact .inr (.inr (.inl rfl))
  · exact (hn s hu hr (hne hr) k hk)

theorem timely_notifyLocked (hn : ∀ s ∈ n.signals, s.relay.Timely n.notifies.length) :
    ∀ s ∈ (n.notifyLocked b).signals, s.relay.Timely n.notifies.length := by
  intro s hs
  obtain ⟨u, hu, ⟨-, -, rfl⟩ | ⟨rfl, -⟩⟩ := mem_notifyLocked hs
  · exact hn u hu
  · exact hn s hu

theorem Good.callback (hn : n.Good) (h : n.callback k = some n') :
    n'.Good := by
  unfold SqliteEventNotifier.callback at h
  split at h
  next t hk =>
    split_ifs at h
    cases h
    refine ⟨reaches_notifyLocked fun s hs hr hne j hj => ?_, fun b j hj => ?_,
      timely_notifyLocked hn.timely⟩
    · refine (hn.reaches s hs hr j hj).imp_left fun ha => ?_
      exact ha.setTimer hk fun h => absurd h.symm hne
    · exact hn.current_forget hk hj
  next => cases h

theorem notified_append (hn' : n'.notifies = n.notifies ++ [b]) (h : n'.Notified s k) :
    n.Notified s k ∨ (k = n.notifies.length ∧ s.boundary = b) := by
  obtain ⟨hle, hk⟩ := h
  rw [hn', List.getElem?_append] at hk
  split_ifs at hk with hlt
  · exact .inl ⟨hle, hk⟩
  · obtain ⟨hlt', hb⟩ := List.getElem?_eq_some_iff.1 hk
    simp only [List.length_singleton] at hlt'
    simp only [List.getElem_singleton] at hb
    exact .inr ⟨by omega, hb.symm⟩

theorem Good.notify (wakeDelay : ℤ) (hn : n.Good) (b : String) : (n.notify wakeDelay b).Good := by
  have htimely : ∀ s ∈ n.signals, s.relay.Timely (n.notifies ++ [b]).length :=
    fun s hs => (hn.timely s hs).mono (by simp)
  unfold SqliteEventNotifier.notify
  split_ifs with hnone hdelay htimer
  · -- the boundary has no signals
    refine ⟨fun s hs hr k hk => ?_, hn.current, htimely⟩
    obtain hk | ⟨-, rfl⟩ := notified_append rfl hk
    · exact hn.reaches s hs hr k hk
    · exact absurd (hnone.symm.trans (hasSignals_of_mem hs hr)) Bool.false_ne_true
  · refine ⟨fun s hs hr k hk => ?_, hn.current, htimely⟩
    obtain hk | ⟨-, rfl⟩ := notified_append rfl hk
    · exact hn.reaches s hs hr k hk
    · exact .inl (hn.armed htimer)
  · refine ⟨fun s hs hr k hk => ?_, fun c k hk => ?_, htimely⟩
    · obtain hk | ⟨-, rfl⟩ := notified_append rfl hk
      · refine (hn.reaches s hs hr k hk).imp_left fun ⟨t, ht, h⟩ => ⟨t, ?_, h⟩
        exact List.mem_append_left _ ht
      · refine .inl ⟨⟨s.boundary, .scheduled⟩, ?_, rfl, rfl⟩
        exact List.mem_append_right _ (List.mem_singleton_self _)
    · have hk : Function.update n.current b (some n.timers.length) c = some k := hk
      by_cases hc : c = b
      · subst hc
        rw [Function.update_self] at hk
        cases hk
        exact ⟨⟨c, .scheduled⟩, List.getElem?_concat_length, rfl, rfl⟩
      · rw [Function.update_of_ne hc] at hk
        obtain ⟨t, ht, h⟩ := hn.current c k hk
        refine ⟨t, ?_, h⟩
        exact (List.getElem?_append_left (List.getElem?_eq_some_iff.1 ht).1).trans ht
  · refine ⟨reaches_notifyLocked fun s hs hr hne k hk => ?_, hn.current,
      timely_notifyLocked htimely⟩
    obtain hk | ⟨-, rfl⟩ := notified_append rfl hk
    · exact hn.reaches s hs hr k hk
    · exact absurd rfl hne

theorem Good.signal (hn : n.Good) (b : String) : (n.signal b).Good := by
  refine ⟨fun s hs hr k hk => ?_, hn.current, fun s hs => ?_⟩
  · rcases List.mem_append.1 hs with hs | hs
    · exact hn.reaches s hs hr k hk
    · obtain rfl := List.mem_singleton.1 hs
      exact absurd hk.1 (Nat.not_le.2 hk.lt)
  · rcases List.mem_append.1 hs with hs | hs
    · exact hn.timely s hs
    · obtain rfl := List.mem_singleton.1 hs
      trivial

theorem Good.setSignal (hn : n.Good)
    (hreach : s.registered = true → ∀ k, n.Notified s k → n.Armed s.boundary ∨ s.Keeps k)
    (htimely : s.relay.Timely n.notifies.length) : (n.setSignal i s).Good := by
  refine ⟨fun u hu hr k hk => ?_, hn.current, fun u hu => ?_⟩
  · rcases List.mem_or_eq_of_mem_set hu with hu | rfl
    · exact hn.reaches u hu hr k hk
    · exact hreach hr k hk
  · rcases List.mem_or_eq_of_mem_set hu with hu | rfl
    · exact hn.timely u hu
    · exact htimely

theorem Good.stopTimer (hn : n.Good) (hb : n.hasSignals b = false) : (n.stopTimer b).Good := by
  unfold SqliteEventNotifier.stopTimer
  split
  next => exact hn
  next k hk =>
    split
    next => exact hn
    next t ht =>
      obtain ⟨u, hu, rfl, -⟩ := hn.current b k hk
      obtain rfl := Option.some.inj (ht.symm.trans hu)
      refine ⟨fun s hs hr j hj => ?_, fun c j hj => hn.current_forget ht hj, hn.timely⟩
      refine (hn.reaches s hs hr j hj).imp_left fun ha => ha.setTimer ht fun h => ?_
      exact absurd (hb.symm.trans (h ▸ hasSignals_of_mem hs hr)) Bool.false_ne_true

theorem Good.unregister (hn : n.Good) (i : ℕ) (s : EventSignal) : (n.unregister i s).Good := by
  have hset : (n.removeSignal i s).Good := hn.setSignal nofun trivial
  unfold SqliteEventNotifier.unregister
  split_ifs with h
  · exact hset
  · exact hset.stopTimer ((Bool.not_eq_true _).mp h)

theorem Good.advance {a : RelayAction} (hn : n.Good) (hs : s ∈ n.signals)
    (h : s.advance n.notifies.length a = some s') : (n.setSignal i s').Good := by
  obtain ⟨hb, hat, hreg⟩ := EventSignal.advance_same h
  have htimely := hn.timely s hs
  refine hn.setSignal (fun hr k hk => ?_) (EventSignal.advance_timely h htimely)
  have hk : n.Notified s k := by rwa [Notified, ← hb, ← hat]
  rw [hb]
  exact (hn.reaches s hs (hreg ▸ hr) k hk).imp_right fun h' => h'.advance h htimely hk.lt

theorem Good.step {wakeDelay : ℤ} {a : Action} (hn : n.Good) (h : n.step wakeDelay a = some n') :
    n'.Good := by
  cases a with
  | signal b =>
    cases h
    exact hn.signal b
  | notify b =>
    cases h
    exact hn.notify wakeDelay b
  | fire k => exact hn.fire h
  | callback k => exact hn.callback h
  | relay i a =>
    simp only [SqliteEventNotifier.step] at h
    split at h
    next s hs =>
      obtain ⟨s', hs', rfl⟩ := Option.map_eq_some_iff.1 h
      exact hn.advance (List.mem_of_getElem? hs) hs'
    next => cases h
  | stop i =>
    simp only [SqliteEventNotifier.step] at h
    split at h
    next s hs =>
      unfold SqliteEventNotifier.stop at h
      split at h
      next =>
        cases h
        exact hn.unregister i s
      next => cases h
    next => cases h

/-- What becomes of every call of `Notify`, for every signal registered before it. -/
theorem notify_reaches_or_relay_returns (wakeDelay : ℤ) (as : List Action)
    (h : Transition.run (fun n => n.step wakeDelay) initial as = some n) :
    ∀ s ∈ n.signals, s.registered = true → ∀ k, n.Notified s k →
      n.Reaches s k ∨ s.relay.returningSince k = true := by
  have hn : n.Good := Transition.run_invariant (fun _ _ _ hn h => Good.step hn h) Good.initial h
  intro s hs hr k hk
  rcases hn.reaches s hs hr k hk with ha | hp | ht | hl | hg
  · exact .inl (.inr (.inr (.inl ha)))
  · exact .inl (.inl hp)
  · exact .inl (.inr (.inl ht))
  · exact .inl (.inr (.inr (.inr hl)))
  · exact .inr hg

/-- A timer fires before the only signal of its boundary is stopped, and its callback deletes the
timer of the signal that comes next. -/
def staleCallback : List Action :=
  [.signal "orders", .relay 0 .attempt, .relay 0 .published, .notify "orders", .fire 0,
    .relay 0 .cancelled, .stop 0, .signal "orders", .relay 1 .attempt, .relay 1 .published,
    .notify "orders", .callback 0, .relay 1 .receive, .notify "orders"]

theorem notify_reaches_staleCallback : ∃ n,
    Transition.run (fun n => n.step 5) initial staleCallback = some n ∧
      ∀ s ∈ n.signals, s.registered = true → ∀ k, n.Notified s k →
        n.Reaches s k ∨ s.relay.returningSince k = true := by
  obtain ⟨n, hn, -⟩ := Transition.exists_run initial staleCallback (fun _ => true)
    (by decide +kernel : (Transition.run (fun n => n.step 5) _ _).any _ = true)
  exact ⟨n, hn, notify_reaches_or_relay_returns 5 staleCallback hn⟩

/-- A token is consumed, and the lease found lost before the publish. -/
def consumedAndLost : List Action :=
  [.signal "orders", .relay 0 .attempt, .relay 0 .published, .notify "orders",
    .relay 0 .receive, .relay 0 .leaseLost]

/-- The signal is still registered, and nothing is left of the call. -/
theorem notify_lost_on_return : ∃ n,
    Transition.run (fun n => n.step 0) initial consumedAndLost = some n ∧
      ∃ s ∈ n.signals, s.registered = true ∧ n.Notified s 0 ∧ ¬ n.Reaches s 0 := by
  obtain ⟨n, hn, hp⟩ := Transition.exists_run initial consumedAndLost
    (fun n => decide (∃ s ∈ n.signals, s.registered = true ∧ n.Notified s 0 ∧ ¬ n.Reaches s 0))
    (by decide +kernel : (Transition.run (fun n => n.step 0) _ _).any _ = true)
  exact ⟨n, hn, of_decide_eq_true hp⟩

end SqliteEventNotifier

end Orisun.Sqlite
