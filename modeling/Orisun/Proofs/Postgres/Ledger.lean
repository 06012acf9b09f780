import Orisun.Postgres.Ledger
import Orisun.Proofs.Ledger
import Orisun.Proofs.Postgres.InsertEventRequests

/-!
# The positions of a PostgreSQL boundary

An accepted request takes the next values of the sequence and commits one above the last of them;
values that are drawn and not used only move the sequence on.
-/

namespace Orisun.Postgres

variable {st : Statement} {tx wid : ℤ}

theorem storedEvents_positions : ∀ {events : List EventItem} {gid : ℤ} {es : List StoredEvent},
    storedEvents st tx wid events gid = some es →
      es.map StoredEvent.position = (List.range events.length).map fun i : ℕ => ⟨tx, gid + i⟩
  | [], gid, es, h => by
    cases h
    rfl
  | event :: events, gid, es, h => by
    simp only [storedEvents, Option.bind_eq_some_iff, Option.map_eq_some_iff] at h
    obtain ⟨e, he, rest, hrest, rfl⟩ := h
    have ih := storedEvents_positions hrest
    rw [List.map_cons, ih, (storedEvent_eq_some he).1, List.length_cons, List.range_succ_eq_map,
      List.map_cons, List.map_map]
    refine congrArg₂ List.cons (by simp) (List.map_congr_left fun i _ => ?_)
    simp only [Function.comp_apply, Position.mk.injEq, true_and]
    omega

theorem writeId_eventDocument (event : EventItem) (gid : ℤ) (eventId : String) :
    (eventDocument st tx wid event gid eventId).get? "__writeId"
      = some (.string (writeIdText tx wid)) := by
  simp only [eventDocument, Json.get?, Fields.concat, envelope, List.cons_append, List.nil_append,
    List.foldl_cons, List.foldl_nil]
  rw [Fields.lookup_insert_of_ne _ (by decide), Fields.lookup_insert_of_ne _ (by decide),
    Fields.lookup_insert_self]

theorem storedEvents_writeId : ∀ {events : List EventItem} {gid : ℤ} {es : List StoredEvent},
    storedEvents st tx wid events gid = some es →
      ∀ e ∈ es, e.data.get? "__writeId" = some (.string (writeIdText tx wid))
  | [], gid, es, h => by
    cases h
    simp
  | event :: events, gid, es, h => by
    simp only [storedEvents, Option.bind_eq_some_iff, Option.map_eq_some_iff] at h
    obtain ⟨e, he, rest, hrest, rfl⟩ := h
    intro e' he'
    rcases List.mem_cons.1 he' with rfl | he'
    · simp only [storedEvent, Option.bind_eq_some_iff] at he
      obtain ⟨eventId, -, he⟩ := he
      split_ifs at he
      cases he
      exact writeId_eventDocument event gid eventId
    · exact storedEvents_writeId hrest e' he'

variable {log : Log}

theorem placed_storedEvents (h : log.Sound) {r : Request} {es : List StoredEvent}
    (hes : storedEvents st (log.sequence + r.events.length)
      (log.sequence + r.events.length - 1) r.events log.sequence = some es) :
    LedgerEntry.Placed ⟨es.map StoredEvent.row,
      ⟨log.sequence + r.events.length, log.sequence + r.events.length - 1⟩⟩ := by
  have hn := one_le_events r
  have h0 := h.sequence_nonneg
  obtain ⟨hall, hsorted⟩ := storedEvents_spec hes
  refine ⟨?_, ?_, ?_, ?_, ?_⟩
  · simp only [List.forall_mem_map]
    exact fun e he => (hall e he).1
  · rw [List.pairwise_map]
    refine hsorted.imp_of_mem fun {d d'} hd hd' hlt => ?_
    rw [Position.lt_iff, (hall d hd).1, (hall d' hd').1] at hlt
    exact hlt.resolve_left (lt_irrefl _) |>.2
  · have hpos := congrArg List.getLast? (storedEvents_positions hes)
    obtain ⟨n, hlen⟩ := Nat.exists_eq_succ_of_ne_zero
      (List.length_pos_of_ne_nil r.events_ne).ne'
    rw [hlen, List.range_succ, List.map_append, List.map_singleton,
      List.getLast?_concat] at hpos
    rw [List.getLast?_map, Option.map_map]
    rw [List.getLast?_map] at hpos
    refine Eq.trans hpos ?_
    rw [hlen]
    simp only [Option.some.injEq, Position.mk.injEq, true_and]
    omega
  · dsimp only
    omega
  · simp only [List.forall_mem_map]
    exact fun e he => ⟨(hall e he).2.1, storedEvents_writeId hes e he⟩

/-- The log is the ledger of the entries. -/
structure Log.Keeps (log : Log) (entries : List LedgerEntry) : Prop where
  sound : log.Sound
  ledger : Ledger (log.events.map StoredEvent.row) (log.writes.map WriteRow.writeId) entries

variable {entries : List LedgerEntry}

theorem Log.Keeps.commit_le (h : log.Keeps entries) {entry : LedgerEntry} (he : entry ∈ entries) :
    entry.position.commitPosition ≤ log.sequence := by
  have hplaced := h.ledger.placed entry he
  obtain ⟨row, hrow⟩ := List.exists_mem_of_ne_nil _ hplaced.rows_ne
  have hmem : row ∈ log.events.map StoredEvent.row := by
    rw [h.ledger.stored]
    exact List.mem_flatMap.2 ⟨entry, he, hrow⟩
  obtain ⟨e, he', rfl⟩ := List.mem_map.1 hmem
  rw [← hplaced.commit _ hrow]
  exact (h.sound.events e he').2.2

theorem Log.Keeps.draw (h : log.Keeps entries) {sequence : ℤ} (hle : log.sequence ≤ sequence) :
    Log.Keeps { log with sequence := sequence } entries := ⟨h.sound.draw hle, h.ledger⟩

def Outcome.position : Outcome → Option Position
  | accepted p => some p
  | conflict _ _ => none

theorem Log.Keeps.save {log' : Log} (h : log.Keeps entries) {r : Request} {o : Outcome}
    (hs : log.save st r = some (log', o)) :
    ∃ new, log'.Keeps (entries ++ new) ∧ Answers [(r.events.length, o.position)] new := by
  rcases Log.save_cases hs with ⟨c, -, rfl, rfl⟩ | ⟨-, p, ha, rfl⟩
  · refine ⟨[], ?_, answers_none (by simp [Outcome.position])⟩
    rwa [List.append_nil]
  · have hsound := h.sound.append ha
    obtain ⟨-, rfl, es, hes, rfl⟩ := Log.append_eq_some ha
    have hplaced := placed_storedEvents h.sound hes
    have hn := one_le_events r
    refine ⟨[⟨es.map StoredEvent.row, _⟩], ⟨hsound, ?_⟩, answers_one ?_ rfl⟩
    · simp only [List.map_append, List.map_singleton]
      refine h.ledger.append hplaced (fun e he => ?_) fun hmem => ?_
      · have := h.commit_le he
        dsimp only
        omega
      · obtain ⟨w, hw, heq⟩ := List.mem_map.1 hmem
        have := h.sound.writes w hw
        dsimp only at heq
        omega
    · have hlen := congrArg List.length (storedEvents_positions hes)
      simpa using hlen

theorem Log.Keeps.saveAll : ∀ {requests : List Request} {log log' : Log}
    {entries : List LedgerEntry} {outs : List Outcome}, log.Keeps entries →
    log.saveAll st requests = some (log', outs) →
      ∃ new, log'.Keeps (entries ++ new) ∧
        Answers ((requests.map fun r => r.events.length).zip (outs.map Outcome.position)) new
  | [], log, log', entries, outs, h, hs => by
    cases hs
    exact ⟨[], by rwa [List.append_nil], answers_none (by simp)⟩
  | r :: requests, log, log', entries, outs, h, hs => by
    simp only [Log.saveAll, Option.bind_eq_some_iff, Option.map_eq_some_iff] at hs
    obtain ⟨⟨log1, o⟩, h1, ⟨final, outs'⟩, h2, he⟩ := hs
    cases he
    obtain ⟨new, hkeeps, hanswer⟩ := h.save h1
    obtain ⟨new', hkeeps', hanswers⟩ := hkeeps.saveAll h2
    refine ⟨new ++ new', by rwa [← List.append_assoc], ?_⟩
    exact hanswer.append hanswers

theorem position_outcomeRow (o : Outcome × ℕ) : (outcomeRow o).position = o.1.position := by
  rcases o with ⟨_ | _, i⟩ <;> rfl

theorem Call.keeps (call : Call) {t : Tables} (h : t.log.Keeps entries) :
    ∃ new, (call.run t).1.log.Keeps (entries ++ new) ∧ Answers (call.run t).2 new := by
  unfold Call.run
  split
  · rename_i t' rows _ hins
    obtain ⟨outs, hall, rfl⟩ := insertEventRequestsV2_eq_ok h.sound call.valid hins
    obtain ⟨new, hkeeps, hanswers⟩ := h.saveAll hall
    refine ⟨new, hkeeps, ?_⟩
    have hrows : (outcomeRows outs).map ResultRow.position = outs.map Outcome.position := by
      have hfst : outs.zipIdx.map Prod.fst = outs := List.zipIdx_map_fst 0 outs
      conv_rhs => rw [← hfst]
      simp only [outcomeRows, List.map_map, Function.comp_def, position_outcomeRow]
    unfold Call.answers
    rwa [hrows]
  · refine ⟨[], ?_, answers_none (by simp)⟩
    rw [List.append_nil]
    exact h.draw (Int.le_add_of_nonneg_right (Int.natCast_nonneg _))

theorem runCalls_keeps : ∀ {calls : List Call} {t : Tables} {entries : List LedgerEntry},
    t.log.Keeps entries →
      ∃ new, (runCalls t calls).1.log.Keeps (entries ++ new) ∧ Answers (runCalls t calls).2 new
  | [], t, entries, h => ⟨[], by rwa [List.append_nil], answers_none (by simp [runCalls])⟩
  | call :: calls, t, entries, h => by
    obtain ⟨new, hkeeps, hanswers⟩ := call.keeps h
    obtain ⟨new', hkeeps', hanswers'⟩ := @runCalls_keeps calls _ _ hkeeps
    exact ⟨new ++ new', by rwa [← List.append_assoc], hanswers.append hanswers'⟩

end Orisun.Postgres
