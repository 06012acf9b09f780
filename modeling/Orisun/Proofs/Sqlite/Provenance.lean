import Orisun.Proofs.Provenance
import Orisun.Proofs.Sqlite.Ledger

/-!
# Write contexts on SQLite

A save that is accepted leaves its observations under the last of its ids.
-/

namespace Orisun.Sqlite

variable {sch : Schema}

/-- The database is the record of the saves. -/
structure Database.Records (db : Database) (saves : List RecordedSave) : Prop where
  keeps : db.Keeps (saves.map RecordedSave.entry)
  recorded : Recorded (db.tables.events.map EventRow.row) db.tables.writes saves

theorem nodup_idsBelow (nextId : ℤ) : (idsBelow nextId).Nodup := by
  refine List.Nodup.map (fun i j h => ?_) List.nodup_range
  have hij : (i : ℤ) + 1 = j + 1 := h
  omega

theorem Database.Records.accept {db : Database} {saves : List RecordedSave} (h : db.Records saves)
    {s : Save} {rows : List EventRow} (ha : db.acceptedRows sch s = some rows) :
    (db.accept s rows).Records (saves ++ [⟨⟨rows.map EventRow.row, ⟨db.lastId s, db.lastId s⟩⟩,
      s.checks.map storedObservation⟩]) := by
  have hkeeps := h.keeps.accept ha
  obtain ⟨⟨hn, -, -, hne, hmax⟩, -, -⟩ := Database.acceptedRows_eq_some.1 ha
  have hlen := List.length_pos_of_ne_nil hne
  refine ⟨by simpa using hkeeps, ?_, ?_, ?_, ?_⟩
  · simpa using hkeeps.ledger
  · simp only [Database.accept, h.recorded.writes, List.map_append]
    rfl
  · have hids := nodup_idsBelow (db.accept s rows).nextId
    rw [← hkeeps.ids] at hids
    rw [List.map_map]
    exact hids
  · refine List.forall_mem_append.2 ⟨h.recorded.fits, List.forall_mem_singleton.2 ?_⟩
    unfold maxInt64 at hmax
    simp only [Database.lastId]
    omega

theorem Database.Records.saveSteps : ∀ {saves : List Save} {db : Database}
    {recorded : List RecordedSave}, db.Records recorded →
      ∃ new, (Sqlite.saveSteps sch db (saves.map prepareSQLiteSave)).1.Records (recorded ++ new) ∧
        acceptedSaves ((saves.map fun s => s.checks.map storedObservation).zip
          ((Sqlite.saveSteps sch db (saves.map prepareSQLiteSave)).2.map saveAnswer))
          = new.map RecordedSave.answer
  | [], db, recorded, h => ⟨[], by rwa [List.append_nil], rfl⟩
  | s :: saves, db, recorded, h => by
    rcases hstep : saveStep sch db (prepareSQLiteSave s) with ⟨db1, e | p⟩
    · obtain rfl := saveStep_error hstep
      obtain ⟨new, hrecords, haccepted⟩ := @Database.Records.saveSteps saves db1 recorded h
      simp only [List.map_cons, Sqlite.saveSteps, hstep]
      refine ⟨new, hrecords, Eq.trans ?_ haccepted⟩
      cases e <;> rfl
    · obtain ⟨rows, ha, rfl, rfl⟩ := saveStep_ok h.keeps.sound.placed h.keeps.nextId hstep
      obtain ⟨new, hrecords, haccepted⟩ := @Database.Records.saveSteps saves _ _ (h.accept ha)
      simp only [List.map_cons, Sqlite.saveSteps, hstep]
      refine ⟨_ :: new, by simpa using hrecords, ?_⟩
      rw [List.map_cons, ← haccepted]
      rfl

theorem writeContextQuery_eq (db : Database) (id : Position) :
    writeContextQuery db id = (contextRows db.tables.writes
      ((db.tables.events.map EventRow.row).map LedgerRow.position) id).getLast? := by
  simp only [writeContextQuery, List.map_map]
  rfl

def recording (sch : Schema) : Recording (backend sch) writeContextQuery where
  rows db := db.tables.events.map EventRow.row
  writes db := db.tables.writes
  observations s := s.checks.map storedObservation
  Keeps := Database.Records
  recorded := fun h => h.recorded
  events db := by
    simp only [backend, Database.events, List.map_map]
    rfl
  one := fun {db id _} h => (writeContextQuery_eq db id).trans (congrArg List.getLast? h)
  none := fun {db id} h => (writeContextQuery_eq db id).trans (congrArg List.getLast? h)
  prepare := by
    intro checks payload save h
    obtain ⟨_, -, rfl⟩ := Option.map_eq_some_iff.1 h
    rfl
  execute := by
    intro _ db saves db' answers recorded h _ hex
    simp only [backend, executeTransaction_eq h.keeps.nextId] at hex
    cases hex
    exact h.saveSteps
  rollback := fun h => h

end Orisun.Sqlite
