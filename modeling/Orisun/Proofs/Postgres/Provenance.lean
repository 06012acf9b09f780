import Orisun.Proofs.Postgres.Clients
import Orisun.Proofs.Postgres.Ledger
import Orisun.Proofs.Provenance

/-!
# Write contexts on PostgreSQL

A request that is accepted leaves its observations under the last of its global ids.
-/

namespace Orisun.Postgres

variable {st : Statement}

/-- The log is the record of the saves. -/
structure Log.Records (log : Log) (saves : List RecordedSave) : Prop where
  sound : log.Sound
  recorded : Recorded (log.events.map StoredEvent.row) log.writes saves

variable {saves : List RecordedSave}

theorem Log.Records.keeps {log : Log} (h : log.Records saves) :
    log.Keeps (saves.map RecordedSave.entry) := ⟨h.sound, h.recorded.ledger⟩

theorem Log.Records.save {log log' : Log} (h : log.Records saves) {r : Request} {o : Outcome}
    (hs : log.save st r = some (log', o)) :
    ∃ new, log'.Records (saves ++ new) ∧
      acceptedSaves [(r.consistency, o.answer)] = new.map RecordedSave.answer := by
  obtain ⟨entries, hkeeps, hanswers⟩ := h.keeps.save hs
  rcases Log.save_cases hs with ⟨c, -, rfl, rfl⟩ | ⟨-, p, ha, rfl⟩
  · exact ⟨[], by rwa [List.append_nil], rfl⟩
  · obtain ⟨entry, rfl, rfl⟩ := hanswers.exists_entry
    obtain ⟨hroom, hpos, es, -, hlog⟩ := Log.append_eq_some ha
    have hn := one_le_events r
    have h0 := h.sound.sequence_nonneg
    have hwrites : log'.writes = log.writes ++ [⟨entry.position.preparePosition, r.consistency⟩] := by
      rw [hlog, hpos]
    refine ⟨[⟨entry, r.consistency⟩], ⟨hkeeps.sound, ?_, ?_, ?_, ?_⟩, rfl⟩
    · simpa using hkeeps.ledger
    · rw [hwrites, h.recorded.writes, List.map_append]
      rfl
    · rw [List.map_map]
      exact hkeeps.sound.globalIds
    · refine List.forall_mem_append.2 ⟨h.recorded.fits, List.forall_mem_singleton.2 ?_⟩
      unfold maxBigint at hroom
      rw [hpos]
      dsimp only
      omega

theorem Log.Records.saveAll : ∀ {requests : List Request} {log log' : Log}
    {saves : List RecordedSave} {outs : List Outcome}, log.Records saves →
    log.saveAll st requests = some (log', outs) →
      ∃ new, log'.Records (saves ++ new) ∧
        acceptedSaves ((requests.map Request.consistency).zip (outs.map Outcome.answer))
          = new.map RecordedSave.answer
  | [], log, log', saves, outs, h, hs => by
    cases hs
    exact ⟨[], by rwa [List.append_nil], rfl⟩
  | r :: requests, log, log', saves, outs, h, hs => by
    simp only [Log.saveAll, Option.bind_eq_some_iff, Option.map_eq_some_iff] at hs
    obtain ⟨⟨log1, o⟩, h1, ⟨final, outs'⟩, h2, he⟩ := hs
    cases he
    obtain ⟨new, hrecords, haccepted⟩ := h.save h1
    obtain ⟨new', hrecords', haccepted'⟩ := hrecords.saveAll h2
    refine ⟨new ++ new', by rwa [← List.append_assoc], ?_⟩
    rw [List.map_append, ← haccepted, ← haccepted']
    exact List.filterMap_append (l := [(r.consistency, o.answer)])

theorem Log.Records.execute {t t' : Tables} {requests : List Request} {answers : List Answer}
    (h : t.log.Records saves) (hv : ∀ r ∈ requests, ValidRequest r)
    (hex : ((insertEventRequestsV2 st t requests).toOption.bind fun r =>
      (readOutcomes requests.length r.2).toOption.map fun answers => (r.1, answers))
        = some (t', answers)) :
    ∃ new, t'.log.Records (saves ++ new) ∧
      acceptedSaves ((requests.map Request.consistency).zip answers)
        = new.map RecordedSave.answer := by
  obtain ⟨⟨u, rows⟩, hins, hu⟩ := Option.bind_eq_some_iff.1 hex
  obtain ⟨outs, hall, hrows⟩ :=
    insertEventRequestsV2_eq_ok h.sound hv (Attempt.toOption_eq_some.1 hins)
  obtain ⟨-, hlen⟩ := serves_saveAll h.sound hall
  obtain ⟨answers', ha, he⟩ := Option.map_eq_some_iff.1 hu
  rw [hrows, ← hlen, readOutcomes_outcomeRows] at ha
  cases he
  cases ha
  exact h.saveAll hall

theorem writeContextQuery_eq (t : Tables) (id : Position) :
    writeContextQuery t id = (contextRows t.writes
      ((t.log.events.map StoredEvent.row).map LedgerRow.position) id).head? := by
  simp only [writeContextQuery, Tables.log, List.map_map]
  rfl

def recording (uuidParse : String → Bool) : Recording (backend uuidParse) writeContextQuery where
  rows t := t.log.events.map StoredEvent.row
  writes t := t.writes
  observations r := r.consistency
  Keeps t saves := t.log.Records saves
  recorded := fun h => h.recorded
  events t := by
    simp only [backend, Tables.log, List.map_map]
    rfl
  one := fun {t id _} h => (writeContextQuery_eq t id).trans (congrArg List.head? h)
  none := fun {t id} h => (writeContextQuery_eq t id).trans (congrArg List.head? h)
  prepare := fun h => (prepareSave_eq_ok (Attempt.toOption_eq_some.1 h)).1
  execute := by
    intro st t requests t' answers saves h hprepared hex
    refine h.execute (fun r hr => ?_) hex
    obtain ⟨checks, events, hp⟩ := hprepared r hr
    exact (prepareSave_eq_ok (Attempt.toOption_eq_some.1 hp)).2
  rollback := fun h =>
    ⟨h.sound.draw (Int.le_add_of_nonneg_right (Int.natCast_nonneg _)), h.recorded⟩

end Orisun.Postgres
