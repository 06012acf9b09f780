import Mathlib
import Orisun.Proofs.Postgres.Ledger
import Orisun.Proofs.Sqlite.Ledger

/-!
# Positions on both backends
-/

namespace Orisun

/-- From fresh storage, whatever is saved in whatever batches, the stored events are those of the
accepted saves in the order they were accepted in, at the positions they were answered; on SQLite the
ids have no gaps, and computing them does not overflow. -/
theorem positions_disciplined :
    (∀ calls : List Postgres.Call,
      ∃ entries, Ledger
          ((Postgres.runCalls Postgres.freshBoundary.tables calls).1.log.events.map
            Postgres.StoredEvent.row)
          ((Postgres.runCalls Postgres.freshBoundary.tables calls).1.writes.map WriteRow.writeId)
          entries ∧
        Answers (Postgres.runCalls Postgres.freshBoundary.tables calls).2 entries) ∧
    (∀ (sch : Sqlite.Schema) (flushes : List (List Sqlite.Save)),
      ∃ db outcomes entries,
        Sqlite.runFlushes sch Sqlite.freshStore.db
          (flushes.map fun saves => saves.map Sqlite.prepareSQLiteSave) = (db, outcomes) ∧
        Ledger (db.tables.events.map Sqlite.EventRow.row)
          (db.tables.writes.map WriteRow.writeId) entries ∧
        Answers (Sqlite.answers flushes.flatten outcomes) entries ∧
        db.tables.events.map Sqlite.EventRow.globalId = Sqlite.idsBelow db.nextId) ∧
    (∀ (firstId : Set.Icc 1 Sqlite.maxInt64) (n : Fin (2 ^ 63)),
      Sqlite.positionsWith Sqlite.int64 firstId n = Sqlite.positionsWith id firstId n) ∧
    (∀ (sch : Sqlite.Schema) (db : Sqlite.Database) (s : Sqlite.Save),
      ∀ rows ∈ db.acceptedRows sch s, Sqlite.positionsWith id db.nextId s.inserts.length
        = some (db.lastId s, rows.map Sqlite.EventRow.globalId, (db.accept s rows).nextId)) := by
  refine ⟨fun calls => ?_, fun sch flushes => ?_, fun firstId n => ?_,
    fun _ _ _ _ ha => Sqlite.positionsWith_accept ha⟩
  · have h0 : Postgres.freshBoundary.tables.log.Keeps [] := ⟨Postgres.freshBoundary.sound, .nil⟩
    obtain ⟨entries, hkeeps, hanswers⟩ := @Postgres.runCalls_keeps calls _ _ h0
    exact ⟨entries, hkeeps.ledger, hanswers⟩
  · have h0 : Sqlite.freshStore.db.Keeps [] := ⟨Sqlite.freshStore.sound, le_rfl, .nil, rfl⟩
    obtain ⟨entries, hkeeps, hanswers⟩ :=
      @Sqlite.Database.Keeps.saveSteps sch flushes.flatten _ _ h0
    rw [Sqlite.runFlushes_eq le_rfl, ← List.map_flatten]
    exact ⟨_, _, entries, rfl, hkeeps.ledger, hanswers, hkeeps.ids⟩
  · exact Sqlite.positionsWith_int64 firstId.2.1 firstId.2.2 (by omega)

end Orisun
