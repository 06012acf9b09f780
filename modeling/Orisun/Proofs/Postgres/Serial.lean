import Orisun.Proofs.Postgres.Positions

/-!
# A save keeps the log sound

The events of an accepted save take the next global ids in order under one transaction id above
all others, so they lie above everything stored, and keys stay unique.
-/

namespace Orisun.Postgres

variable {st : Statement} {tx wid : ℤ}

theorem storedEvent_eq_some {event : EventItem} {gid : ℤ} {e : StoredEvent}
    (h : storedEvent st tx wid event gid = some e) : e.position = ⟨tx, gid⟩ ∧ e.writeId = wid := by
  simp only [storedEvent, Option.bind_eq_some_iff] at h
  obtain ⟨eventId, -, h⟩ := h
  split_ifs at h
  cases h
  exact ⟨rfl, rfl⟩

theorem storedEvents_spec : ∀ {events : List EventItem} {gid : ℤ} {es : List StoredEvent},
    storedEvents st tx wid events gid = some es →
      (∀ e ∈ es, e.position.commitPosition = tx ∧ e.writeId = wid ∧
        gid ≤ e.position.preparePosition ∧ e.position.preparePosition < gid + events.length) ∧
      es.Pairwise (fun d d' => d.position < d'.position)
  | [], gid, es, h => by
    cases h
    simp
  | event :: events, gid, es, h => by
    simp only [storedEvents, Option.bind_eq_some_iff, Option.map_eq_some_iff] at h
    obtain ⟨e, he, ds, hds, rfl⟩ := h
    obtain ⟨hall, hp⟩ := storedEvents_spec hds
    obtain ⟨hpos, hw⟩ := storedEvent_eq_some he
    refine ⟨List.forall_mem_cons.2 ⟨⟨by rw [hpos], hw, by rw [hpos], ?_⟩, fun d hd => ?_⟩,
      List.pairwise_cons.2 ⟨fun d hd => ?_, hp⟩⟩
    · rw [hpos, List.length_cons]
      push_cast
      omega
    · obtain ⟨h1, h2, h3, h4⟩ := hall d hd
      refine ⟨h1, h2, by omega, ?_⟩
      rw [List.length_cons]
      push_cast
      omega
    · obtain ⟨h1, -, h3, -⟩ := hall d hd
      rw [hpos, Position.lt_iff]
      exact .inr ⟨h1.symm, by simp only; omega⟩

variable {log : Log}

theorem Log.Sound.placed (h : log.Sound) : Placed log.events := by
  intro e he
  obtain ⟨h1, h2, -⟩ := h.events e he
  rw [Position.lt_iff]
  simp only [notExistsPosition]
  omega

variable {log' : Log} {r : Request} {p : Position}

theorem Log.append_eq_some (h : log.append st r = some (log', p)) :
    log.sequence + r.events.length ≤ maxBigint ∧
      p = ⟨log.sequence + r.events.length, log.sequence + r.events.length - 1⟩ ∧
      ∃ es, storedEvents st (log.sequence + r.events.length)
          (log.sequence + r.events.length - 1) r.events log.sequence = some es ∧
        log' = ⟨log.events ++ es,
          log.writes ++ [⟨log.sequence + r.events.length - 1, r.consistency⟩],
          log.sequence + r.events.length⟩ := by
  simp only [Log.append] at h
  split_ifs at h with hmax
  obtain ⟨es, hes, h⟩ := Option.map_eq_some_iff.1 h
  cases h
  exact ⟨not_lt.1 hmax, rfl, es, hes, rfl⟩

theorem one_le_events (r : Request) : 1 ≤ (r.events.length : ℤ) := by
  have := List.length_pos_of_ne_nil r.events_ne
  omega

theorem Log.Sound.new_events (h : log.Sound) {es : List StoredEvent}
    (hes : storedEvents st (log.sequence + r.events.length)
      (log.sequence + r.events.length - 1) r.events log.sequence = some es) :
    Placed es ∧ ∀ e ∈ log.events, ∀ d ∈ es, e.position < d.position := by
  obtain ⟨hall, -⟩ := storedEvents_spec hes
  have hn := one_le_events r
  have h0 := h.sequence_nonneg
  constructor
  · intro d hd
    obtain ⟨h1, -⟩ := hall d hd
    rw [Position.lt_iff, h1]
    simp only [notExistsPosition]
    omega
  · intro e he d hd
    obtain ⟨h1, -⟩ := hall d hd
    have := (h.events e he).2.2
    rw [Position.lt_iff, h1]
    omega

theorem Log.Sound.append (h : log.Sound) (ha : log.append st r = some (log', p)) : log'.Sound := by
  obtain ⟨-, -, es, hes, rfl⟩ := Log.append_eq_some ha
  obtain ⟨hall, hp⟩ := storedEvents_spec hes
  have hn := one_le_events r
  have h0 := h.sequence_nonneg
  refine ⟨by simp only; omega, ?_, ?_, ?_, ?_⟩
  · simp only [List.map_append]
    refine List.nodup_append.2 ⟨h.globalIds, ?_, ?_⟩
    · refine List.pairwise_map.2 (hp.imp_of_mem fun {d d'} hd hd' hlt => ?_)
      have h1 := (hall d hd).1
      have h2 := (hall d' hd').1
      rw [Position.lt_iff] at hlt
      omega
    · intro g hg g' hg'
      obtain ⟨e, he, rfl⟩ := List.mem_map.1 hg
      obtain ⟨d, hd, rfl⟩ := List.mem_map.1 hg'
      have h1 := h.events e he
      have h2 := hall d hd
      omega
  · simp only [List.map_append, List.map_cons, List.map_nil]
    refine List.nodup_append.2 ⟨h.writeIds, List.nodup_singleton _, ?_⟩
    intro g hg g' hg'
    obtain ⟨w, hw, rfl⟩ := List.mem_map.1 hg
    have := h.writes w hw
    rw [List.mem_singleton.1 hg']
    omega
  · refine List.forall_mem_append.2 ⟨fun e he => ?_, fun d hd => ?_⟩
    · have := h.events e he
      simp only
      omega
    · have := hall d hd
      simp only
      omega
  · refine List.forall_mem_append.2 ⟨fun w hw => ?_, fun w hw => ?_⟩
    · have := h.writes w hw
      simp only
      omega
    · rw [List.mem_singleton.1 hw]
      simp only
      omega

variable {o : Outcome}

theorem Log.save_cases (h : log.save st r = some (log', o)) :
    (∃ c, log.firstConflict r.consistency = some c ∧ log' = log ∧ o = .conflict c.1 c.2) ∨
      (log.firstConflict r.consistency = none ∧
        ∃ p, log.append st r = some (log', p) ∧ o = .accepted p) := by
  simp only [Log.save] at h
  split at h
  next expected actual hc =>
    cases h
    exact .inl ⟨_, hc, rfl, rfl⟩
  next hc =>
    obtain ⟨⟨log'', p⟩, ha, h⟩ := Option.map_eq_some_iff.1 h
    cases h
    exact .inr ⟨hc, p, ha, rfl⟩

theorem Log.Sound.save (h : log.Sound) (hs : log.save st r = some (log', o)) : log'.Sound := by
  obtain ⟨c, -, rfl, -⟩ | ⟨-, p, ha, -⟩ := Log.save_cases hs
  · exact h
  · exact h.append ha

theorem Log.Sound.draw (h : log.Sound) {sequence : ℤ} (hle : log.sequence ≤ sequence) :
    Log.Sound { log with sequence := sequence } where
  sequence_nonneg := h.sequence_nonneg.trans hle
  globalIds := h.globalIds
  writeIds := h.writeIds
  events := fun e he => ⟨(h.events e he).1, (h.events e he).2.1, (h.events e he).2.2.trans hle⟩
  writes := fun w hw => (h.writes w hw).trans_le hle

/-- The second log has what the first has, and above it, in order, what came later. -/
structure Log.Extends (log final : Log) : Prop where
  sequence : log.sequence ≤ final.sequence
  events : ∃ new, final.events = log.events ++ new ∧
    new.Pairwise (fun d d' => d.position < d'.position) ∧
    ∀ d ∈ new, log.sequence < d.position.commitPosition
  writes : ∃ new, final.writes = log.writes ++ new

theorem Log.Extends.refl (log : Log) : log.Extends log :=
  ⟨le_rfl, ⟨[], (List.append_nil _).symm, .nil, by simp⟩, ⟨[], (List.append_nil _).symm⟩⟩

theorem Log.Extends.trans {mid final : Log} (h : log.Extends mid) (h' : mid.Extends final)
    (hs : mid.Sound) : log.Extends final := by
  obtain ⟨hseq, ⟨new, hnew, hsorted, hlt⟩, ⟨writes, hwrites⟩⟩ := h
  obtain ⟨hseq', ⟨new', hnew', hsorted', hlt'⟩, ⟨writes', hwrites'⟩⟩ := h'
  refine ⟨hseq.trans hseq', ⟨new ++ new', by rw [hnew', hnew, List.append_assoc],
    List.pairwise_append.2 ⟨hsorted, hsorted', fun d hd d' hd' => ?_⟩, fun d hd => ?_⟩,
    ⟨writes ++ writes', by rw [hwrites', hwrites, List.append_assoc]⟩⟩
  · have hle := (hs.events d (hnew ▸ List.mem_append_right _ hd)).2.2
    rw [Position.lt_iff]
    exact .inl (hle.trans_lt (hlt' d' hd'))
  · rcases List.mem_append.1 hd with hd | hd
    · exact hlt d hd
    · exact hseq.trans_lt (hlt' d hd)

theorem Log.extends_append (ha : log.append st r = some (log', p)) : log.Extends log' := by
  obtain ⟨-, -, es, hes, rfl⟩ := Log.append_eq_some ha
  obtain ⟨hall, hsorted⟩ := storedEvents_spec hes
  have hn := one_le_events r
  refine ⟨by simp only; omega, ⟨es, rfl, hsorted, fun d hd => ?_⟩, ⟨_, rfl⟩⟩
  rw [(hall d hd).1]
  omega

theorem Log.extends_save (hs : log.save st r = some (log', o)) : log.Extends log' := by
  obtain ⟨c, -, rfl, -⟩ | ⟨-, p, ha, -⟩ := Log.save_cases hs
  · exact .refl _
  · exact Log.extends_append ha

theorem Log.extends_saveAll : ∀ {requests : List Request} {log final : Log} {outs : List Outcome},
    log.Sound → log.saveAll st requests = some (final, outs) → log.Extends final ∧ final.Sound
  | [], log, final, outs, h, hs => by
    cases hs
    exact ⟨.refl _, h⟩
  | r :: requests, log, final, outs, h, hs => by
    simp only [Log.saveAll, Option.bind_eq_some_iff, Option.map_eq_some_iff] at hs
    obtain ⟨⟨log1, o⟩, h1, ⟨final', outs'⟩, h2, he⟩ := hs
    cases he
    obtain ⟨hext, hsound⟩ := Log.extends_saveAll (h.save h1) h2
    exact ⟨(Log.extends_save h1).trans hext (h.save h1), hsound⟩

theorem storedEvents_xid (x tx wid : ℤ) : ∀ (events : List EventItem) (gid : ℤ),
    storedEvents { st with currentXactId := x } tx wid events gid
      = storedEvents st tx wid events gid
  | [], _ => rfl
  | event :: events, gid => by
    rw [storedEvents, storedEvents, storedEvents_xid x tx wid events (gid + 1)]
    rfl

theorem save_xid (x : ℤ) (log : Log) (r : Request) :
    log.save { st with currentXactId := x } r = log.save st r := by
  simp only [Log.save, Log.append, storedEvents_xid]

theorem storedEvents_isSome (tx wid : ℤ) : ∀ {events : List EventItem} (gid : ℤ),
    (∀ event ∈ events, StorableEvent st event) → (storedEvents st tx wid events gid).isSome
  | [], _, _ => rfl
  | event :: events, gid, h => by
    obtain ⟨eventId, hid, hindex⟩ := h event (List.mem_cons_self ..)
    have ih := storedEvents_isSome tx wid (gid + 1)
      fun e he => h e (List.mem_cons_of_mem event he)
    simpa [storedEvents, storedEvent, hid, hindex] using ih

theorem save_isSome (h : ∀ event ∈ r.events, StorableEvent st event)
    (hroom : log.sequence + r.events.length ≤ maxBigint) : (log.save st r).isSome := by
  have hes := storedEvents_isSome (log.sequence + r.events.length)
    (log.sequence + r.events.length - 1) log.sequence h
  rw [Log.save]
  split
  · rfl
  · simpa [Log.append, not_lt.2 hroom] using hes

theorem Log.sequence_save_le (hs : log.save st r = some (log', o)) :
    log'.sequence ≤ log.sequence + r.events.length := by
  obtain ⟨c, -, rfl, -⟩ | ⟨-, p, ha, -⟩ := Log.save_cases hs
  · omega
  · obtain ⟨-, -, es, -, rfl⟩ := Log.append_eq_some ha
    exact le_rfl

theorem saveAll_isSome : ∀ {requests : List Request} {log : Log},
    (∀ r ∈ requests, ∀ event ∈ r.events, StorableEvent st event) →
    log.sequence + ((requests.map fun r => r.events.length).sum : ℕ) ≤ maxBigint →
      (log.saveAll st requests).isSome
  | [], _, _, _ => rfl
  | r :: requests, log, h, hroom => by
    rw [List.map_cons, List.sum_cons] at hroom
    have hsave : (log.save st r).isSome := save_isSome (h r (List.mem_cons_self ..)) (by omega)
    obtain ⟨⟨log', o⟩, hs⟩ := Option.isSome_iff_exists.1 hsave
    have hseq : log'.sequence ≤ log.sequence + r.events.length := Log.sequence_save_le hs
    have ih : (log'.saveAll st requests).isSome :=
      saveAll_isSome (fun s hs => h s (List.mem_cons_of_mem r hs)) (by omega)
    simpa [Log.saveAll, hs] using ih

end Orisun.Postgres
