import Orisun.Proofs.CommandContext
import Orisun.Proofs.Postgres.Provenance
import Orisun.Proofs.Sqlite.Provenance

/-!
# Write provenance on both backends
-/

namespace Orisun

/-- However the clients and processes of a boundary interleave, over PostgreSQL or over SQLite, the
context of an accepted save is read back by the id of any of its events as its observations were
normalised, and no other id gives a context. -/
theorem clients_writeProvenance (uuidParse : String → Bool) (sch : Sqlite.Schema) :
    (∀ (actions : List (Action (Postgres.backend uuidParse))) w,
      Transition.run World.step (World.initial Postgres.freshBoundary.tables) actions = some w →
        WriteProvenance Postgres.writeContextQuery w) ∧
    (∀ (actions : List (Action (Sqlite.backend sch))) w,
      Transition.run World.step (World.initial Sqlite.freshStore.db) actions = some w →
        WriteProvenance Sqlite.writeContextQuery w) := by
  constructor
  · intro actions w hrun
    have h0 : Postgres.freshBoundary.tables.log.Records [] :=
      ⟨Postgres.freshBoundary.sound, .nil, rfl, .nil, by simp⟩
    exact writeProvenance_of_recording (Postgres.lawful uuidParse) (Postgres.recording uuidParse)
      Postgres.freshBoundary.sound h0 hrun
  · intro actions w hrun
    have h0 : Sqlite.freshStore.db.Records [] :=
      ⟨⟨Sqlite.freshStore.sound, le_rfl, .nil, rfl⟩, .nil, rfl, .nil, by simp⟩
    exact writeProvenance_of_recording (Sqlite.lawful sch) (Sqlite.recording sch)
      Sqlite.freshStore.sound h0 hrun

/-- The save of the race that was accepted is read back by its id. -/
theorem race_writeProvenance : ∃ w, Transition.run World.step
      (World.initial Postgres.freshBoundary.tables) postgresActions = some w ∧
    WriteProvenance Postgres.writeContextQuery w ∧
    getWriteContext (fun _ => some w.store) Postgres.writeContextQuery ⟨"orders", "1:0"⟩
      = .ok ⟨"1:0", [.of [⟨[⟨"kind", "a", ""⟩]⟩] ⟨-1, -1⟩]⟩ := by
  have hcontext : (Transition.run World.step (World.initial Postgres.freshBoundary.tables)
      postgresActions).map (fun w =>
        (getWriteContext (fun _ => some w.store) Postgres.writeContextQuery
          ⟨"orders", "1:0"⟩).toOption)
        = some (some ⟨"1:0", [.of [⟨[⟨"kind", "a", ""⟩]⟩] ⟨-1, -1⟩]⟩) := by decide +kernel
  obtain ⟨w, hw, hc⟩ := Option.map_eq_some_iff.1 hcontext
  have hprov := (clients_writeProvenance (fun _ => true)
    ⟨Sqlite.pathFunctions fun _ => none, fun _ => true, fun _ => true⟩).1 postgresActions w hw
  exact ⟨w, hw, hprov, Attempt.toOption_eq_some.1 hc⟩

end Orisun
