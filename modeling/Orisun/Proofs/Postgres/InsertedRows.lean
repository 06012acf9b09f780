import Orisun.Proofs.Postgres.Serial

/-!
# The rows of an accepted request

Both phases build the same document for an event, so the rows the bulk insert writes for a request
are the events one save of it stores (`mapM_acceptedStored`), and the documents the request is
matched as are theirs (`mapM_requestDocument`).
-/

namespace Orisun.Postgres

variable {st : Statement}

def idsFrom : ℕ → ℤ → List ℤ
  | 0, _ => []
  | n + 1, sequence => sequence :: idsFrom n (sequence + 1)

theorem drawGlobalIds_eq_ok : ∀ {n : ℕ} {sequence : ℤ} {d : List ℤ × ℤ},
    drawGlobalIds n sequence = .ok d → d = (idsFrom n sequence, sequence + n)
  | 0, sequence, d, h => by
    cases h
    simp [idsFrom]
  | n + 1, sequence, d, h => by
    simp only [drawGlobalIds] at h
    split_ifs at h
    obtain ⟨d', hd', rfl⟩ := Attempt.map_eq_ok.1 h
    rw [drawGlobalIds_eq_ok hd', idsFrom]
    push_cast
    simp only [Prod.mk.injEq, true_and]
    omega

theorem drawGlobalIds_of_le : ∀ {n : ℕ} {sequence : ℤ}, sequence + n ≤ maxBigint →
    ∃ d, drawGlobalIds n sequence = .ok d
  | 0, sequence, _ => ⟨_, rfl⟩
  | n + 1, sequence, h => by
    push_cast at h
    obtain ⟨d, hd⟩ := @drawGlobalIds_of_le n (sequence + 1) (by omega)
    refine ⟨(sequence :: d.1, d.2), ?_⟩
    rw [drawGlobalIds, if_neg (by omega), hd]
    rfl

theorem getLastD_idsFrom : ∀ {n : ℕ} {sequence x : ℤ}, 0 < n →
    (idsFrom n sequence).getLastD x = sequence + n - 1
  | 1, sequence, x, _ => by simp [idsFrom]
  | n + 2, sequence, x, _ => by
    rw [idsFrom, List.getLastD_cons, getLastD_idsFrom (Nat.succ_pos n)]
    push_cast
    omega

theorem requestDocument_eq (tx wid : ℤ) (event : EventItem) (gid : ℤ) :
    (requestDocument st tx wid event gid).toOption
      = (st.uuid event.eventId).map (eventDocument st tx wid event gid) := by
  rw [requestDocument, castUuid]
  rcases st.uuid event.eventId with _ | eventId
  · rfl
  · simp [bind, Except.bind, pure, Except.pure, Except.toOption, orisunEventDocument,
      eventDocument, Fields.concat]

theorem storedDocument_eq (tx wid : ℤ) (event : EventItem) (gid : ℤ) :
    (storedDocument st tx wid event gid).toOption
      = (st.uuid event.eventId).map (eventDocument st tx wid event gid) := by
  rw [storedDocument, castUuid]
  rcases st.uuid event.eventId with _ | eventId
  · rfl
  · have hne : "__eventId" ≠ "__eventType" := by decide
    simp [bind, Except.bind, pure, Except.pure, Except.toOption, orisunEventDocument,
      eventDocument, Fields.concat, Fields.insert_comm _ _ hne]

variable {wid : ℤ}

theorem mapM_requestDocument {tx : ℤ} : ∀ {events : List EventItem} {sequence : ℤ}
    {es : List StoredEvent}, storedEvents st tx wid events sequence = some es →
      ((events.zip (idsFrom events.length sequence)).mapM fun e => do
        return (← requestDocument st tx wid e.1 e.2, e.2))
      = .ok (es.map fun d => (d.data, d.position.preparePosition))
  | [], sequence, es, h => by
    cases h
    rfl
  | event :: events, sequence, es, h => by
    simp only [storedEvents, Option.bind_eq_some_iff, Option.map_eq_some_iff] at h
    obtain ⟨e, he, ds, hds, rfl⟩ := h
    have hdoc : requestDocument st tx wid event sequence = .ok e.data := by
      rw [← Attempt.toOption_eq_some, requestDocument_eq]
      simp only [storedEvent, Option.bind_eq_some_iff] at he
      obtain ⟨eventId, hid, he⟩ := he
      split_ifs at he
      cases he
      rw [hid]
      rfl
    rw [List.length_cons, idsFrom, List.zip_cons_cons, List.mapM_cons, hdoc,
      mapM_requestDocument hds, List.map_cons, (storedEvent_eq_some he).1]
    rfl

variable {requests : List Request}

/-- The event the bulk insert stores for an accepted entry. -/
def acceptedStored (st : Statement) (requests : List Request) (results : List (Option ℤ))
    (a : AcceptedEvent) : Option StoredEvent :=
  ((results[a.requestIndex]?).join).bind fun gid =>
    (insertedRow st requests (a, gid + 1, gid)).toOption.map EventRow.stored

theorem insertedRow_eq {r : Request} {event : EventItem} {a : AcceptedEvent} {tx : ℤ}
    (hr : requests[a.requestIndex]? = some r) (he : r.events[a.eventIndex]? = some event) :
    (insertedRow st requests (a, tx, wid)).toOption.map EventRow.stored
      = storedEvent st tx wid event a.globalId := by
  simp only [insertedRow, hr, he, Option.bind_some, Attempt.toOption_bind, storedDocument_eq,
    storedEvent]
  rcases st.uuid event.eventId with _ | eventId
  · rfl
  · simp only [Option.map_some, Option.bind_some]
    split_ifs <;> rfl

theorem mapM_acceptedStored {r : Request} {k : ℕ} {results : List (Option ℤ)}
    (hr : requests[k]? = some r) (hk : results[k]? = some (some wid)) :
    ∀ (events done : List EventItem) (sequence : ℤ), r.events = done ++ events →
      (((idsFrom events.length sequence).zipIdx done.length).map
        fun g => (⟨k, g.2, g.1⟩ : AcceptedEvent)).mapM (acceptedStored st requests results)
      = storedEvents st (wid + 1) wid events sequence
  | [], done, sequence, _ => rfl
  | event :: events, done, sequence, hd => by
    have he : r.events[done.length]? = some event := by
      rw [hd, List.getElem?_append_right le_rfl]
      simp
    have hrest := mapM_acceptedStored hr hk events (done ++ [event]) (sequence + 1)
      (by rw [hd, List.append_assoc, List.singleton_append])
    rw [List.length_append, List.length_singleton] at hrest
    rw [List.length_cons, idsFrom, List.zipIdx_cons, List.map_cons, List.mapM_cons, hrest,
      storedEvents, acceptedStored, hk, Option.join_some, Option.bind_some,
      insertedRow_eq hr he]
    rcases storedEvent st (wid + 1) wid event sequence with _ | e
    · rfl
    · rcases storedEvents st (wid + 1) wid events (sequence + 1) with _ | es <;> rfl

end Orisun.Postgres
