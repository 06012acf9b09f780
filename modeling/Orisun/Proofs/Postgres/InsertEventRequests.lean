import Orisun.Proofs.Postgres.InsertedRows

/-!
# The group commit is the serial execution

`BatchInv` relates the variables of the batch to the log that running the same requests one after
another would have left, and every request keeps it.
-/

namespace Orisun.Postgres

/-- The results of the requests run so far, and nothing for the others. -/
def pending {α : Type*} (n : ℕ) (done : List (Option α)) : List (Option α) :=
  done ++ List.replicate (n - done.length) none

section Pending

variable {α : Type*} {n : ℕ} {done : List (Option α)}

theorem pending_set (h : done.length < n) (x : Option α) :
    (pending n done).set done.length x = pending n (done ++ [x]) := by
  obtain ⟨m, hm⟩ : ∃ m, n - done.length = m + 1 := ⟨n - done.length - 1, by omega⟩
  rw [pending, pending, hm, List.set_append_right _ _ le_rfl, Nat.sub_self, List.replicate_succ,
    List.set_cons_zero, List.append_assoc, List.length_append, List.length_singleton,
    show n - (done.length + 1) = m by omega]
  rfl

theorem pending_none (h : done.length < n) : pending n done = pending n (done ++ [none]) := by
  obtain ⟨m, hm⟩ : ∃ m, n - done.length = m + 1 := ⟨n - done.length - 1, by omega⟩
  rw [pending, pending, hm, List.replicate_succ, List.append_assoc, List.length_append,
    List.length_singleton, show n - (done.length + 1) = m by omega]
  rfl

theorem getElem?_pending_of_lt {i : ℕ} (h : i < done.length) :
    (pending n done)[i]? = done[i]? := by
  rw [pending, List.getElem?_append_left h]

theorem pending_of_length (h : done.length = n) : pending n done = done := by
  rw [pending, h, Nat.sub_self, List.replicate_zero, List.append_nil]

end Pending

theorem insertedWrites_append {run : List Request} {done : List (Option ℤ)} (r : Request)
    (x : Option ℤ) (hl : done.length = run.length) :
    insertedWrites (run ++ [r]) (done ++ [x])
      = insertedWrites run done ++ (x.map fun gid => ⟨gid, r.consistency⟩).toList := by
  rw [insertedWrites, List.zip_append hl, List.filterMap_append, insertedWrites]
  congr 1

def Outcome.globalId? : Outcome → Option ℤ
  | accepted p => some p.preparePosition
  | conflict _ _ => none

def Outcome.message? : Outcome → Option String
  | accepted _ => none
  | conflict expected actual => some (conflictMessage expected actual)

/-- The variables after the requests `run`, by the log and outcomes of running them one by one. -/
structure BatchInv (st : Statement) (t : Tables) (requests run : List Request) (plan : Plan)
    (b : Batch) (log : Log) (outs : List Outcome) : Prop where
  sound : log.Sound
  length : outs.length = run.length
  sequence : b.sequence = log.sequence
  positions : b.criterionPositions = plan.allCriteria.map (latestOf log.events)
  globalIds : b.resultGlobalIds = pending requests.length (outs.map Outcome.globalId?)
  errors : b.resultErrors = pending requests.length (outs.map Outcome.message?)
  indices : ∀ a ∈ b.acceptedEvents, a.requestIndex < run.length
  stored : ∃ es, b.acceptedEvents.mapM (acceptedStored st requests b.resultGlobalIds) = some es ∧
    log.events = t.log.events ++ es
  writes : log.writes = t.writes ++ insertedWrites run (outs.map Outcome.globalId?)
  accepted : ∀ p, .accepted p ∈ outs → p.commitPosition = p.preparePosition + 1
  unwritten : b.lastInsertedGid = none → log = t.log

/-- Some accepted event of the first `k` requests cannot be inserted. -/
structure Doomed (st : Statement) (requests : List Request) (k : ℕ) (b : Batch) : Prop where
  length : b.resultGlobalIds.length = requests.length
  written : b.lastInsertedGid.isSome
  row : ∃ a ∈ b.acceptedEvents, a.requestIndex < k ∧ ∃ gid,
    b.resultGlobalIds[a.requestIndex]? = some (some gid) ∧
      (insertedRow st requests (a, gid + 1, gid)).toOption = none

/-- The last phases of the function on the variables the requests leave. -/
def finish (st : Statement) (requests : List Request) (t : Tables) (b : Batch) :
    Option (Log × List ResultRow) :=
  (if b.lastInsertedGid.isSome then insertAccepted st requests b t else pure t).toOption.map
    fun t => (t.log, (b.resultGlobalIds.zip b.resultErrors).zipIdx.map resultRow)

def outcomeRows (outs : List Outcome) : List ResultRow := outs.zipIdx.map outcomeRow

theorem join_eq_some {α : Type*} {x : Option (Option α)} {a : α} :
    x.join = some a ↔ x = some (some a) := by
  rcases x with _ | _ | _ <;> simp

def joinedEvent (results : List (Option ℤ)) (writes : List WriteRow) (a : AcceptedEvent) :
    List (AcceptedEvent × ℤ × ℤ) :=
  match (results[a.requestIndex]?).join with
  | none => []
  | some gid => (writes.filter fun w => w.writeId = gid + 1 - 1).map fun w =>
      (a, gid + 1, w.writeId)

theorem mem_insertedWrites {requests : List Request} {results : List (Option ℤ)} {i : ℕ} {gid : ℤ}
    (hl : results.length ≤ requests.length) (h : results[i]? = some (some gid)) :
    ∃ w ∈ insertedWrites requests results, w.writeId = gid := by
  obtain ⟨hi, hg⟩ := List.getElem?_eq_some_iff.1 h
  refine ⟨⟨gid, (requests[i]).consistency⟩, List.mem_filterMap.2 ⟨(some gid, requests[i]), ?_, rfl⟩,
    rfl⟩
  refine List.mem_iff_getElem.2 ⟨i, by simp; omega, ?_⟩
  rw [List.getElem_zip, hg]

theorem filter_writeId_eq {gid : ℤ} : ∀ {writes : List WriteRow},
    (writes.map WriteRow.writeId).Nodup → (∃ w ∈ writes, w.writeId = gid) →
      ((writes.filter fun w => w.writeId = gid).map WriteRow.writeId) = [gid]
  | w :: writes, hn, ⟨v, hv, hg⟩ => by
    obtain ⟨hw, hn⟩ := List.nodup_cons.1 hn
    rcases List.mem_cons.1 hv with rfl | hv
    · have hrest : (writes.filter fun w => w.writeId = gid) = [] := by
        refine List.filter_eq_nil_iff.2 fun u hu hug => hw ?_
        rw [decide_eq_true_eq] at hug
        exact hg ▸ hug ▸ List.mem_map_of_mem hu
      simp [hg, hrest]
    · have hne : w.writeId ≠ gid := fun he => hw (he ▸ hg ▸ List.mem_map_of_mem hv)
      rw [List.filter_cons_of_neg (by simpa using hne), filter_writeId_eq hn ⟨v, hv, hg⟩]

theorem mapM_joinedEvent {st : Statement} {requests : List Request} {results : List (Option ℤ)}
    (hl : results.length ≤ requests.length)
    (hn : ((insertedWrites requests results).map WriteRow.writeId).Nodup) :
    ∀ {l : List AcceptedEvent} {es : List StoredEvent},
      l.mapM (acceptedStored st requests results) = some es →
      ((l.flatMap (joinedEvent results (insertedWrites requests results))).mapM
        fun e => (insertedRow st requests e).toOption.map EventRow.stored) = some es
  | [], es, h => h
  | a :: l, es, h => by
    rw [List.mapM_cons] at h
    obtain ⟨e, he, h⟩ := Option.bind_eq_some_iff.1 h
    obtain ⟨ds, hds, h⟩ := Option.bind_eq_some_iff.1 h
    obtain rfl : e :: ds = es := Option.some.inj h
    obtain ⟨gid, hgid, hrow⟩ := Option.bind_eq_some_iff.1 he
    have hjoin : joinedEvent results (insertedWrites requests results) a
        = [(a, gid + 1, gid)] := by
      have hw := filter_writeId_eq hn (mem_insertedWrites hl (join_eq_some.1 hgid))
      simp only [joinedEvent, hgid, Int.add_sub_cancel]
      simpa using congrArg (List.map fun w => (a, gid + 1, w)) hw
    rw [List.flatMap_cons, hjoin, List.singleton_append, List.mapM_cons, hrow,
      mapM_joinedEvent hl hn hds]
    rfl

theorem mapM_stored {st : Statement} {requests : List Request} :
    ∀ l : List (AcceptedEvent × ℤ × ℤ),
      ((l.mapM (insertedRow st requests)).toOption.map (List.map EventRow.stored))
        = l.mapM fun e => (insertedRow st requests e).toOption.map EventRow.stored
  | [] => rfl
  | e :: l => by
    rw [List.mapM_cons, List.mapM_cons, ← mapM_stored l, Attempt.toOption_bind]
    rcases (insertedRow st requests e).toOption with _ | row
    · rfl
    · simp only [Option.bind_some, Attempt.toOption_bind, Option.map_some]
      rcases (l.mapM (insertedRow st requests)).toOption with _ | rows <;> rfl

theorem joinedEvents_eq (b : Batch) (writes : List WriteRow) :
    joinedEvents b writes = b.acceptedEvents.flatMap (joinedEvent b.resultGlobalIds writes) := rfl

section Finish

variable {st : Statement} {t : Tables} {requests : List Request} {plan : Plan} {b : Batch}
  {log : Log} {outs : List Outcome}

theorem resultRows_eq (hp : ∀ p, .accepted p ∈ outs → p.commitPosition = p.preparePosition + 1) :
    ((outs.map Outcome.globalId?).zip (outs.map Outcome.message?)).zipIdx.map resultRow
      = outcomeRows outs := by
  rw [List.zip_map', outcomeRows, List.zipIdx_map, List.map_map]
  refine List.map_congr_left fun o ho => ?_
  rcases o with ⟨p | ⟨expected, actual⟩, i⟩
  · have hc := hp p (List.fst_mem_of_mem_zipIdx ho)
    simp [resultRow, outcomeRow, Outcome.globalId?, Outcome.message?, hc]
  · simp [resultRow, outcomeRow, Outcome.globalId?, Outcome.message?]

theorem finish_of_inv (h : BatchInv st t requests requests plan b log outs) :
    finish st requests t b = some (log, outcomeRows outs) := by
  have hg : b.resultGlobalIds = outs.map Outcome.globalId? := by
    rw [h.globalIds, pending_of_length (by rw [List.length_map, h.length])]
  have he : b.resultErrors = outs.map Outcome.message? := by
    rw [h.errors, pending_of_length (by rw [List.length_map, h.length])]
  have hrows : (b.resultGlobalIds.zip b.resultErrors).zipIdx.map resultRow
      = outcomeRows outs := by
    rw [hg, he, resultRows_eq h.accepted]
  rw [finish, hrows]
  by_cases hlast : b.lastInsertedGid.isSome
  · obtain ⟨es, hes, hevents⟩ := h.stored
    have hwrites : log.writes = t.writes ++ insertedWrites requests b.resultGlobalIds := by
      rw [h.writes, hg]
    have hn := h.sound.writeIds
    rw [hwrites, List.map_append] at hn
    have hmap := mapM_joinedEvent (by rw [hg, List.length_map, h.length])
      (List.nodup_append.1 hn).2.1 hes
    rw [← joinedEvents_eq, ← mapM_stored] at hmap
    obtain ⟨rows, hrows, rfl⟩ := Option.map_eq_some_iff.1 hmap
    have hgids := h.sound.globalIds
    rw [hevents, Tables.log, List.map_append, List.map_map, List.map_map] at hgids
    rw [if_pos hlast, insertAccepted, Attempt.toOption_eq_some.1 hrows]
    simp only [bind, Except.bind]
    rw [if_pos ⟨by rw [List.map_append]; exact hn, by rw [List.map_append]; exact hgids⟩]
    simp only [Except.toOption, Option.map_some, Tables.log, List.map_append, h.sequence]
    rw [← hwrites]
    simp only [Tables.log] at hevents
    rw [← hevents]
  · rw [if_neg hlast, h.unwritten (by simpa using hlast)]
    rfl

theorem finish_of_doomed {k : ℕ} (h : Doomed st requests k b) :
    finish st requests t b = none := by
  obtain ⟨a, ha, -, gid, hgid, hrow⟩ := h.row
  obtain ⟨w, hw, hwid⟩ := mem_insertedWrites h.length.le hgid
  have hmem : (a, gid + 1, gid) ∈ joinedEvents b (insertedWrites requests b.resultGlobalIds) := by
    rw [joinedEvents_eq]
    refine List.mem_flatMap.2 ⟨a, ha, ?_⟩
    simp only [joinedEvent, hgid, Option.join_some, Int.add_sub_cancel]
    exact List.mem_map.2 ⟨w, List.mem_filter.2 ⟨hw, by simpa using hwid⟩, by rw [hwid]⟩
  have hnone : ((joinedEvents b (insertedWrites requests b.resultGlobalIds)).mapM
      (insertedRow st requests)).toOption = none := by
    rw [Attempt.toOption_mapM, Attempt.mapM_eq_none]
    exact ⟨_, hmem, hrow⟩
  rw [finish, if_pos h.written, insertAccepted, Attempt.toOption_bind, hnone]
  rfl

end Finish

section Step

variable {st : Statement} {t : Tables} {requests : List Request} {plan : Plan} {b b' : Batch}
  {log : Log} {outs : List Outcome} {run : List Request} {r : Request}

/-- The entries of a request that draws from the given sequence. -/
def acceptedEntries (r : Request) (k : ℕ) (sequence : ℤ) : List AcceptedEvent :=
  (idsFrom r.events.length sequence).zipIdx.map fun g => ⟨k, g.2, g.1⟩

def acceptedBatch (b : Batch) (r : Request) (k : ℕ) (positions : List Position) : Batch where
  sequence := b.sequence + r.events.length
  criterionPositions := positions
  acceptedEvents := b.acceptedEvents ++ acceptedEntries r k b.sequence
  lastInsertedGid := some (b.sequence + r.events.length - 1)
  resultGlobalIds := b.resultGlobalIds.set k (some (b.sequence + r.events.length - 1))
  resultErrors := b.resultErrors

variable {k : ℕ}

theorem acceptRequest_eq_ok (h : acceptRequest st plan b r k = .ok b') :
    b.sequence + r.events.length ≤ maxBigint ∧
      ∃ positions, b' = acceptedBatch b r k positions := by
  rw [acceptRequest, Attempt.bind_eq_ok] at h
  obtain ⟨d, hd, h⟩ := h
  obtain rfl := drawGlobalIds_eq_ok hd
  have hlast := @getLastD_idsFrom _ b.sequence 0 (List.length_pos_of_ne_nil r.events_ne)
  simp only [hlast, Int.sub_add_cancel] at h
  split_ifs at h with hmax
  all_goals
    obtain ⟨_, -, h⟩ := Attempt.bind_eq_ok.1 h
    cases h
    exact ⟨not_lt.1 hmax, _, rfl⟩

theorem acceptRequest_of_stored {es : List StoredEvent} (hs : PlanSpec requests plan)
    (hv : ∀ c ∈ plan.allCriteria, ValidCriterion c) (hsound : log.Sound)
    (hseq : b.sequence = log.sequence)
    (hpos : b.criterionPositions = plan.allCriteria.map (latestOf log.events))
    (hmax : log.sequence + r.events.length ≤ maxBigint)
    (hes : storedEvents st (log.sequence + r.events.length)
      (log.sequence + r.events.length - 1) r.events log.sequence = some es) :
    acceptRequest st plan b r k
      = .ok (acceptedBatch b r k (plan.allCriteria.map (latestOf (log.events ++ es)))) := by
  obtain ⟨hall, hp⟩ := storedEvents_spec hes
  obtain ⟨hplaced, hlt⟩ := hsound.new_events hes
  obtain ⟨d, hd⟩ := drawGlobalIds_of_le hmax
  obtain rfl := drawGlobalIds_eq_ok hd
  have hlast := @getLastD_idsFrom _ log.sequence 0 (List.length_pos_of_ne_nil r.events_ne)
  rw [acceptRequest, hseq, hd]
  simp only [bind, Except.bind, hlast, Int.sub_add_cancel, not_lt.2 hmax, gt_iff_lt, if_false]
  have hdocs := mapM_requestDocument hes
  simp only [bind, Except.bind] at hdocs
  by_cases hc : 0 < plan.allCriteria.length
  · rw [if_pos hc, hdocs]
    simp only [pure, Except.pure, hpos,
      match_documents hs hv hsound.placed hplaced (fun d hd => (hall d hd).1) hlt hp]
    rw [acceptedBatch, hseq]
    rfl
  · have hnil : plan.allCriteria = [] := List.length_eq_zero_iff.1 (by omega)
    rw [if_neg hc]
    simp only [pure, Except.pure, hpos, hnil, List.map_nil]
    rw [acceptedBatch, hseq]
    rfl

theorem conflict_eq (hsound : log.Sound) (observations : List Observation) :
    observations.findSome? (observedConflict (latestOf log.events))
      = (log.firstConflict observations).map fun c => conflictMessage c.1 c.2 := by
  rw [Log.firstConflict, List.map_findSome?]
  congr 1
  funext o
  simp only [observedConflict, ← latest_eq hsound.placed, Function.comp_apply]
  split_ifs <;> rfl

theorem BatchInv.reject (h : BatchInv st t requests run plan b log outs)
    (hlt : run.length < requests.length) (expected actual : Position) :
    BatchInv st t requests (run ++ [r]) plan { b with
        resultErrors := b.resultErrors.set run.length (some (conflictMessage expected actual)) }
      log (outs ++ [.conflict expected actual]) := by
  have hg : (outs.map Outcome.globalId?).length = run.length := by rw [List.length_map, h.length]
  have he : (outs.map Outcome.message?).length = run.length := by rw [List.length_map, h.length]
  refine ⟨h.sound, by simp [h.length], h.sequence, h.positions, ?_, ?_, fun a ha => ?_, h.stored,
    ?_, fun p hp => ?_, h.unwritten⟩
  · rw [h.globalIds, pending_none (by rw [hg]; exact hlt), List.map_append]
    rfl
  · simp only [h.errors]
    rw [← he, pending_set (by rw [he]; exact hlt), List.map_append]
    rfl
  · have := h.indices a ha
    rw [List.length_append, List.length_singleton]
    omega
  · rw [h.writes, List.map_append, List.map_singleton, insertedWrites_append r _ hg]
    simp [Outcome.globalId?]
  · rcases List.mem_append.1 hp with hp | hp
    · exact h.accepted p hp
    · simp at hp

theorem BatchInv.accept {es : List StoredEvent} (h : BatchInv st t requests run plan b log outs)
    (hr : requests[run.length]? = some r) (hes : storedEvents st (log.sequence + r.events.length)
      (log.sequence + r.events.length - 1) r.events log.sequence = some es)
    {log' : Log} {p : Position} (ha : log.append st r = some (log', p)) :
    BatchInv st t requests (run ++ [r]) plan
      (acceptedBatch b r run.length (plan.allCriteria.map (latestOf (log.events ++ es))))
      log' (outs ++ [.accepted p]) := by
  obtain ⟨-, rfl, es', hes', rfl⟩ := Log.append_eq_some ha
  obtain rfl : es = es' := Option.some.inj (hes.symm.trans hes')
  have hlt : run.length < requests.length := (List.getElem?_eq_some_iff.1 hr).1
  have hg : (outs.map Outcome.globalId?).length = run.length := by rw [List.length_map, h.length]
  have he : (outs.map Outcome.message?).length = run.length := by rw [List.length_map, h.length]
  have hids : b.resultGlobalIds.set run.length (some (b.sequence + r.events.length - 1))
      = pending requests.length (outs.map Outcome.globalId? ++
        [some (b.sequence + r.events.length - 1)]) := by
    rw [h.globalIds, ← hg, pending_set (by rw [hg]; exact hlt)]
  refine ⟨h.sound.append ha, by simp [h.length], ?_, rfl, ?_, ?_, fun a ha => ?_, ?_, ?_,
    fun p hp => ?_, fun hnone => by cases hnone⟩
  · simp only [acceptedBatch, h.sequence]
  · refine hids.trans ?_
    rw [List.map_append, h.sequence]
    rfl
  · simp only [acceptedBatch, h.errors]
    rw [pending_none (by rw [he]; exact hlt), List.map_append]
    rfl
  · rw [List.length_append, List.length_singleton]
    rcases List.mem_append.1 ha with ha | ha
    · have := h.indices a ha
      omega
    · obtain ⟨g, -, rfl⟩ := List.mem_map.1 ha
      simp only
      omega
  · obtain ⟨ds, hds, hevents⟩ := h.stored
    refine ⟨ds ++ es, ?_, by rw [hevents, List.append_assoc]⟩
    simp only [acceptedBatch, List.mapM_append]
    have hold : b.acceptedEvents.mapM (acceptedStored st requests
        (b.resultGlobalIds.set run.length (some (b.sequence + r.events.length - 1)))) = some ds := by
      rw [← hds]
      refine Attempt.mapM_congr fun a ha => ?_
      have := h.indices a ha
      rw [acceptedStored, acceptedStored, List.getElem?_set_ne (by omega)]
    have hself : (b.resultGlobalIds.set run.length
        (some (b.sequence + r.events.length - 1)))[run.length]?
          = some (some (b.sequence + r.events.length - 1)) := by
      rw [hids, getElem?_pending_of_lt (by simp [h.length]), List.getElem?_append_right (by rw [hg]),
        hg, Nat.sub_self]
      rfl
    have hnew : (acceptedEntries r run.length b.sequence).mapM (acceptedStored st requests
        (b.resultGlobalIds.set run.length (some (b.sequence + r.events.length - 1)))) = some es := by
      refine (mapM_acceptedStored hr hself r.events [] b.sequence rfl).trans ?_
      rw [Int.sub_add_cancel, h.sequence, hes]
    rw [hold, hnew]
    rfl
  · simp only [List.map_append, List.map_singleton]
    rw [insertedWrites_append r _ hg, h.writes, List.append_assoc]
    rfl
  · rcases List.mem_append.1 hp with hp | hp
    · exact h.accepted p hp
    · obtain rfl : p = _ := by simpa using hp
      simp

theorem doomed_of_none (h : BatchInv st t requests run plan b log outs)
    (hr : requests[run.length]? = some r) (hes : storedEvents st (log.sequence + r.events.length)
      (log.sequence + r.events.length - 1) r.events log.sequence = none)
    (positions : List Position) :
    Doomed st requests (run.length + 1) (acceptedBatch b r run.length positions) := by
  have hlt : run.length < requests.length := (List.getElem?_eq_some_iff.1 hr).1
  have hlen : b.resultGlobalIds.length = requests.length := by
    rw [h.globalIds, pending, List.length_append, List.length_replicate, List.length_map, h.length]
    omega
  have hself : (acceptedBatch b r run.length positions).resultGlobalIds[run.length]?
      = some (some (b.sequence + r.events.length - 1)) := by
    simp only [acceptedBatch]
    rw [List.getElem?_set_self (by omega)]
  have hnone : (acceptedEntries r run.length b.sequence).mapM (acceptedStored st requests
      (acceptedBatch b r run.length positions).resultGlobalIds) = none := by
    refine (mapM_acceptedStored hr hself r.events [] b.sequence rfl).trans ?_
    rw [Int.sub_add_cancel, h.sequence, hes]
  obtain ⟨a, ha, hstored⟩ := Attempt.mapM_eq_none.1 hnone
  obtain ⟨g, -, hg⟩ := List.mem_map.1 ha
  have hk : a.requestIndex = run.length := by rw [← hg]
  refine ⟨by simpa [acceptedBatch] using hlen, rfl, a, List.mem_append_right _ ha, by omega,
    _, by rw [hk]; exact hself, ?_⟩
  rw [acceptedStored, hk, hself] at hstored
  simpa using hstored

theorem Doomed.step (h : Doomed st requests k b) (hb : runRequest st plan b (r, k) = .ok b') :
    Doomed st requests (k + 1) b' := by
  obtain ⟨a, ha, hak, gid, hgid, hrow⟩ := h.row
  simp only [runRequest] at hb
  split at hb
  · cases hb
    exact ⟨h.length, h.written, a, ha, by omega, gid, hgid, hrow⟩
  · obtain ⟨-, positions, rfl⟩ := acceptRequest_eq_ok hb
    refine ⟨by simpa [acceptedBatch] using h.length, rfl, a, List.mem_append_left _ ha, by omega,
      gid, ?_, hrow⟩
    simp only [acceptedBatch]
    rw [List.getElem?_set_ne (by omega), hgid]

theorem Doomed.finish : ∀ {rest : List Request} {k : ℕ} {b : Batch}, Doomed st requests k b →
    ((rest.zipIdx k).foldlM (runRequest st plan) b).toOption.bind (finish st requests t) = none
  | [], k, b, h => finish_of_doomed h
  | r :: rest, k, b, h => by
    rw [List.zipIdx_cons, List.foldlM_cons, Attempt.toOption_bind]
    rcases hb : runRequest st plan b (r, k) with e | b'
    · rfl
    · exact Doomed.finish (h.step hb)

theorem runRequest_eq (hs : PlanSpec requests plan)
    (hp : ∀ r ∈ requests, ∀ o ∈ r.consistency, Planned plan.allCriteria o)
    (h : BatchInv st t requests run plan b log outs) (hr : requests[run.length]? = some r) :
    runRequest st plan b (r, run.length) = match log.firstConflict r.consistency with
      | some c => .ok { b with
          resultErrors := b.resultErrors.set run.length (some (conflictMessage c.1 c.2)) }
      | none => acceptRequest st plan b r run.length := by
  rw [runRequest, hs.checks, h.positions, requestConflict_eq _ hr hp, conflict_eq h.sound]
  rcases log.firstConflict r.consistency with _ | c <;> rfl

theorem runRequests_eq (hs : PlanSpec requests plan)
    (hv : ∀ c ∈ plan.allCriteria, ValidCriterion c)
    (hp : ∀ r ∈ requests, ∀ o ∈ r.consistency, Planned plan.allCriteria o) :
    ∀ {rest run : List Request} {b : Batch} {log : Log} {outs : List Outcome},
      requests = run ++ rest → BatchInv st t requests run plan b log outs →
      ((rest.zipIdx run.length).foldlM (runRequest st plan) b).toOption.bind
          (finish st requests t)
        = (log.saveAll st rest).map fun r => (r.1, outcomeRows (outs ++ r.2))
  | [], run, b, log, outs, hreq, h => by
    obtain rfl : requests = run := by rw [hreq, List.append_nil]
    simp only [List.zipIdx_nil, List.foldlM_nil, Log.saveAll, Option.map_some, List.append_nil]
    exact finish_of_inv h
  | r :: rest, run, b, log, outs, hreq, h => by
    have hr : requests[run.length]? = some r := by
      rw [hreq, List.getElem?_append_right le_rfl, Nat.sub_self]
      rfl
    have hlt : run.length < requests.length := (List.getElem?_eq_some_iff.1 hr).1
    have hreq' : requests = (run ++ [r]) ++ rest := by
      rw [hreq, List.append_assoc, List.singleton_append]
    have hlen : (run ++ [r]).length = run.length + 1 := by simp
    rw [List.zipIdx_cons, List.foldlM_cons, Attempt.toOption_bind, runRequest_eq hs hp h hr,
      Log.saveAll, Log.save, ← hlen]
    rcases log.firstConflict r.consistency with _ | ⟨expected, actual⟩
    · simp only
      rcases ha : log.append st r with _ | ⟨log', p⟩
      · simp only [Option.map_none, Option.bind_none]
        rcases hb : acceptRequest st plan b r run.length with e | b'
        · rfl
        · obtain ⟨hmax, positions, rfl⟩ := acceptRequest_eq_ok hb
          rw [h.sequence] at hmax
          have hes : storedEvents st (log.sequence + r.events.length)
              (log.sequence + r.events.length - 1) r.events log.sequence = none := by
            simpa [Log.append, not_lt.2 hmax] using ha
          rw [hlen]
          exact (doomed_of_none h hr hes positions).finish
      · obtain ⟨hmax, -, es, hes, -⟩ := Log.append_eq_some ha
        rw [acceptRequest_of_stored hs hv h.sound h.sequence h.positions hmax hes]
        refine (runRequests_eq hs hv hp hreq' (h.accept hr hes ha)).trans ?_
        simp only [Option.map_some, Option.bind_some, Option.map_map, Function.comp_def,
          List.append_assoc, List.singleton_append]
    · simp only
      refine (runRequests_eq hs hv hp hreq' (h.reject hlt expected actual)).trans ?_
      simp only [Option.bind_some, Option.map_map, Function.comp_def, List.append_assoc,
        List.singleton_append]

end Step

section Batch

variable {st : Statement} {t : Tables} {requests : List Request}

theorem initial_inv {plan : Plan} (hs : PlanSpec requests plan)
    (hv : ∀ c ∈ plan.allCriteria, ValidCriterion c) (h : t.log.Sound) :
    BatchInv st t requests [] plan (initialBatch plan requests t) t.log [] where
  sound := h
  length := rfl
  sequence := rfl
  positions := initialPositions_eq hs hv t
  globalIds := by simp [initialBatch, pending]
  errors := by simp [initialBatch, pending]
  indices := by simp [initialBatch]
  stored := ⟨[], rfl, (List.append_nil _).symm⟩
  writes := (List.append_nil _).symm
  accepted := by simp
  unwritten := fun _ => rfl

theorem insertEventRequestsV2_eq (h : t.log.Sound) (hne : requests ≠ [])
    (hv : ∀ r ∈ requests, ValidRequest r) :
    (insertEventRequestsV2 st t requests).toOption.map (fun r => (r.1.log, r.2))
      = (t.log.saveAll st requests).map fun r => (r.1, outcomeRows r.2) := by
  obtain ⟨plan, hplan, hs⟩ := compilePlan_spec hv
  have hvalid : ∀ c ∈ plan.allCriteria, ValidCriterion c := fun c hc =>
    valid_of_mem hv (hs.allCriteria ▸ hc)
  have hinit : BatchInv st t requests [] plan (initialBatch plan requests t) t.log [] :=
    initial_inv hs hvalid h
  have hrun := runRequests_eq hs hvalid (hs.allCriteria ▸ planned_of_valid hv)
    (List.nil_append requests).symm hinit
  rw [List.length_nil] at hrun
  simp only [List.nil_append] at hrun
  rw [← hrun, insertEventRequestsV2, if_neg hne, hplan, Attempt.toOption_bind]
  simp only [Except.toOption, Option.bind_some]
  rcases requests.zipIdx.foldlM (runRequest st plan) (initialBatch plan requests t) with e | b
  · rfl
  · simp only [Option.bind_some, finish, bind, Except.bind]
    by_cases hlast : b.lastInsertedGid.isSome = true
    · simp only [hlast, if_true]
      rcases insertAccepted st requests b t with e | t' <;> rfl
    · simp only [hlast]
      rfl

theorem insertEventRequestsV2_eq_ok {t' : Tables} {rows : List ResultRow} (h : t.log.Sound)
    (hv : ∀ r ∈ requests, ValidRequest r)
    (hins : insertEventRequestsV2 st t requests = .ok (t', rows)) :
    ∃ outs, t.log.saveAll st requests = some (t'.log, outs) ∧ rows = outcomeRows outs := by
  have hne : requests ≠ [] := by
    rintro rfl
    simp [insertEventRequestsV2] at hins
  have heq : _ = (t.log.saveAll st requests).map _ := insertEventRequestsV2_eq h hne hv
  rw [hins] at heq
  obtain ⟨⟨log, outs⟩, hall, he⟩ := Option.map_eq_some_iff.1 heq.symm
  have hlog : log = t'.log := (Prod.mk.inj he).1
  exact ⟨outs, hlog ▸ hall, (Prod.mk.inj he).2.symm⟩

theorem oneAtATime_eq (xid : ℕ → ℤ) : ∀ {requests : List Request} {t : Tables} {i : ℕ},
    t.log.Sound → (∀ r ∈ requests, ValidRequest r) →
      (oneAtATime st xid t requests i).map (fun r => (r.1.log, r.2))
        = (t.log.saveAll st requests).map fun r => (r.1, (r.2.zipIdx i).map outcomeRow)
  | [], t, i, _, _ => rfl
  | r :: requests, t, i, h, hv => by
    have hone := @insertEventRequestsV2_eq { st with currentXactId := xid i } t [r] h (by simp)
      (by simpa using hv r (List.mem_cons_self ..))
    simp only [Log.saveAll, save_xid] at hone
    rw [oneAtATime, Log.saveAll]
    rcases hs : t.log.save st r with _ | ⟨log', o⟩
    · rw [hs, Option.bind_none, Option.map_none, Option.map_eq_none_iff] at hone
      rw [hone, Option.bind_none, Option.bind_none]
      rfl
    · rw [hs] at hone
      obtain ⟨⟨t', rows⟩, hins, heq⟩ := Option.map_eq_some_iff.1 hone
      obtain rfl : t'.log = log' := congrArg Prod.fst heq
      obtain rfl : rows = outcomeRows [o] := congrArg Prod.snd heq
      have ih := @oneAtATime_eq xid requests t' (i + 1) (h.save hs)
        fun s hs => hv s (List.mem_cons_of_mem r hs)
      rw [hins, Option.bind_some, Option.bind_some, Option.map_map, Option.map_map]
      rcases hone' : oneAtATime st xid t' requests (i + 1) with _ | ⟨t'', rows⟩
      · rw [hone', Option.map_none, eq_comm, Option.map_eq_none_iff] at ih
        rw [ih]
        rfl
      · rw [hone', Option.map_some, eq_comm] at ih
        obtain ⟨⟨log'', outs⟩, hall, heq⟩ := Option.map_eq_some_iff.1 ih
        obtain rfl : log'' = t''.log := congrArg Prod.fst heq
        obtain rfl : (outs.zipIdx (i + 1)).map outcomeRow = rows := congrArg Prod.snd heq
        rw [hall]
        rcases o with p | ⟨expected, actual⟩ <;> rfl

/-- The group commit refines serial execution: one call on the whole list leaves the log and
returns the outcomes of saving the requests one after another, which is also what one call per
request leaves and returns. Where no cast or index expression raises and the sequence is not
exhausted, all of them return. -/
theorem insertEventRequestsV2_refines_serial (st : Statement) (xid : ℕ → ℤ) (boundary : Boundary)
    (requests : List Request) (hne : requests ≠ []) (hv : ∀ r ∈ requests, ValidRequest r) :
    (insertEventRequestsV2 st boundary.tables requests).toOption.map (fun r => (r.1.log, r.2))
        = (boundary.tables.log.saveAll st requests).map (fun r => (r.1, r.2.zipIdx.map outcomeRow)) ∧
      (insertEventRequestsV2 st boundary.tables requests).toOption.map (fun r => (r.1.log, r.2))
        = (oneAtATime st xid boundary.tables requests 0).map (fun r => (r.1.log, r.2)) ∧
      ((∀ r ∈ requests, ∀ event ∈ r.events, StorableEvent st event) →
        boundary.tables.sequence + ((requests.map fun r => r.events.length).sum : ℕ) ≤ maxBigint →
        ∃ t rows, insertEventRequestsV2 st boundary.tables requests = .ok (t, rows)) := by
  have hbatch := @insertEventRequestsV2_eq st _ _ boundary.sound hne hv
  refine ⟨hbatch, hbatch.trans (oneAtATime_eq xid boundary.sound hv).symm, fun hstore hroom => ?_⟩
  have hsome : (boundary.tables.log.saveAll st requests).isSome := saveAll_isSome hstore hroom
  obtain ⟨r, hr⟩ := Option.isSome_iff_exists.1 hsome
  rw [hr] at hbatch
  obtain ⟨⟨t, rows⟩, hins, -⟩ := Option.map_eq_some_iff.1 hbatch
  exact ⟨t, rows, Attempt.toOption_eq_some.1 hins⟩

def sampleStatement : Statement := ⟨some, "2024-01-01T00:00:00.500000", fun _ => true, 7⟩

/-- Two events under the observation that no `kind` is `a` or from `b` to `c`. -/
def sampleRequest : Request where
  consistency := [⟨encodeReadCriteria [⟨[⟨"kind", "a", ""⟩]⟩,
    ⟨[⟨"kind", "b", "gte"⟩, ⟨"kind", "c", "lte"⟩]⟩], ⟨-1, -1⟩⟩]
  events := [⟨"1", "Opened", [("kind", .string "a")], none⟩,
    ⟨"2", "Opened", [("kind", .string "c")], none⟩]
  events_ne := by simp

/-- The second of two equal requests is rejected for the last event of the first. -/
theorem insertEventRequestsV2_twice :
    (insertEventRequestsV2 sampleStatement freshBoundary.tables
        [sampleRequest, sampleRequest]).toOption.map (fun r => r.2)
      = some [⟨0, some 1, some 2, some 1, none, none⟩,
        ⟨1, none, none, none, some "P0001", some (conflictMessage ⟨-1, -1⟩ ⟨2, 1⟩)⟩] := by
  have h := (insertEventRequestsV2_refines_serial sampleStatement (fun _ => 7) freshBoundary
    [sampleRequest, sampleRequest] (by simp) (by decide)).1
  have h2 := congrArg (Option.map Prod.snd) h
  rw [Option.map_map, Option.map_map] at h2
  exact h2.trans (by decide)

end Batch

end Orisun.Postgres
