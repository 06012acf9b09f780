import Mathlib.Data.List.Flatten
import Orisun.Proofs.Coordinator
import Orisun.Proofs.Sqlite.GroupCommit

/-!
# Saves through the coordinator

`enqueue` hands a prepared save to the coordinator, whose executor runs one transaction on the
boundary's database. However calls, worker and `Close` are interleaved, the database is the one that
some of the saves leave when they are made one at a time in the order they arrived.
-/

namespace Orisun.Sqlite

open GroupCommit

variable {sch : Schema} {prepared : ℕ → PreparedSave} {db db' : Database}

/-- What the calls of `executeBatch` that have ended did to the boundary's database: each committed
its transaction, or failed without an effect. -/
def Executed (sch : Schema) (prepared : ℕ → PreparedSave) (db' : Database) :
    Database → List (List ℕ × Outcome (Except SaveError Position)) → Prop
  | db, [] => db' = db
  | db, (batch, .returned outcomes) :: rest => ∃ db₁,
    executeTransaction sch db (batch.map prepared) = (db₁, .ok outcomes) ∧
      Executed sch prepared db' db₁ rest
  | db, _ :: rest => Executed sch prepared db' db rest

def committed {R : Type} : List (List ℕ × Outcome R) → List (List ℕ)
  | [] => []
  | (batch, .returned _) :: rest => batch :: committed rest
  | _ :: rest => committed rest

theorem committed_sublist {R : Type} : ∀ es : List (List ℕ × Outcome R),
    (committed es).Sublist (es.map Prod.fst)
  | [] => .slnil
  | (_, .returned _) :: rest => (committed_sublist rest).cons_cons _
  | (_, .failed _) :: rest => (committed_sublist rest).cons _
  | (_, .panicked _) :: rest => (committed_sublist rest).cons _

theorem length_saveSteps : ∀ (reqs : List PreparedSave) (db : Database),
    (saveSteps sch db reqs).2.length = reqs.length
  | [], _ => rfl
  | _ :: reqs, _ => congrArg (· + 1) (length_saveSteps reqs _)

theorem flush_of_committed {live : List PreparedSave} {outcomes : List (Except SaveError Position)}
    (h : executeTransaction sch db live = (db', .ok outcomes)) :
    flush sch db live = (db', outcomes) ∧ outcomes.length = live.length := by
  have hflush : flush sch db live = (db', outcomes) := by
    unfold flush
    rw [h]
  refine ⟨hflush, ?_⟩
  by_cases hn : 1 ≤ db.nextId
  · rw [flush_eq hn] at hflush
    rw [← @length_saveSteps sch live db, hflush]
  · rw [executeTransaction_invalid hn] at h
    cases h

theorem Executed.runFlushes : ∀ {es : List (List ℕ × Outcome (Except SaveError Position))}
    {db : Database}, Executed sch prepared db' db es →
    ∃ answers, runFlushes sch db ((committed es).map (·.map prepared)) = (db', answers) ∧
      ∀ batch outcomes, (batch, .returned outcomes) ∈ es →
        batch.zip outcomes ⊆ (committed es).flatten.zip answers
  | [], _, h => ⟨[], by rw [show db' = _ from h]; rfl, by simp⟩
  | (batch, .returned outcomes) :: rest, db, h => by
    obtain ⟨db₁, hex, hrest⟩ := h
    obtain ⟨answers, hrun, hzip⟩ := Executed.runFlushes hrest
    obtain ⟨hflush, hlen⟩ := flush_of_committed hex
    rw [List.length_map] at hlen
    refine ⟨outcomes ++ answers, ?_, fun batch' outcomes' hmem => ?_⟩
    · simp only [committed, List.map_cons, Sqlite.runFlushes, hflush, hrun]
    · simp only [committed, List.flatten_cons, List.zip_append hlen.symm]
      rcases List.mem_cons.1 hmem with heq | hmem
      · cases heq
        exact List.subset_append_left ..
      · exact List.Subset.trans (hzip _ _ hmem) (List.subset_append_right ..)
  | (_, .failed _) :: rest, db, h | (_, .panicked _) :: rest, db, h => by
    obtain ⟨answers, hrun, hzip⟩ := Executed.runFlushes (show Executed _ _ _ _ rest from h)
    exact ⟨answers, hrun, fun batch outcomes hmem => hzip _ _ (by simpa using hmem)⟩

theorem runFlushes_saveAll (b : Boundary) (batches : List (List Save)) :
    (b.db.saveAll sch batches.flatten)
      = ((runFlushes sch b.db (batches.map (·.map prepareSQLiteSave))).1,
        (runFlushes sch b.db (batches.map (·.map prepareSQLiteSave))).2.map Except.toOption) := by
  by_cases hn : 1 ≤ b.db.nextId
  · rw [runFlushes_eq hn, ← List.map_flatten, saveSteps_prepare b.placed hn]
  · rw [runFlushes_invalid hn, ← List.map_flatten, saveAll_invalid hn, List.map_map, List.map_map]
    rfl

/-- The calls of `enqueue` on a boundary are linearised in the order in which they were admitted:
the saves whose transaction committed, made one at a time, leave the database as it is and answer
each call that has returned an outcome; a call refused for the shutdown has saved nothing. -/
theorem enqueue_serialised (cfg : Config) (boundary : String) (saves : ℕ → Save)
    (boundaries : ℕ → String) (actions : List (GroupCommit.Action (Except SaveError Position)))
    (s : Coordinator PreparedSave (Except SaveError Position))
    (hrun : Transition.run (Coordinator.step cfg fun i => ⟨boundaries i,
      prepareSQLiteSave (saves i), (saves i).inserts.length⟩) .initial actions = some s)
    (b : Boundary)
    (hex : Executed sch (prepareSQLiteSave ∘ saves) db' b.db (endings boundary s.history)) :
    ∃ order : List ℕ, order.Sublist (arrivals boundary s.history) ∧ order.Nodup ∧
      (b.db.saveAll sch (order.map saves)).1 = db' ∧
      (∀ i outcome, boundaries i = boundary → s.submits i = .returned (.ok outcome) →
        (i, outcome.toOption) ∈ order.zip (b.db.saveAll sch (order.map saves)).2) ∧
      ∀ i ∈ order, s.submits i ≠ .returned (.error .closed) := by
  have h := Coordinator.inv_run hrun
  obtain ⟨answers, hflushes, hzip⟩ := hex.runFlushes
  have hsub : (committed (endings boundary s.history)).flatten.Sublist
      (batches boundary s.history).flatten := by
    refine (committed_sublist _).flatten.trans ?_
    rw [endings_fst]
    exact (List.IsPrefix.flatten (h.endedBatches_isPrefix boundary)).sublist
  have hall := @runFlushes_saveAll sch b
    ((committed (endings boundary s.history)).map (·.map saves))
  simp only [List.map_map, Function.comp_def] at hall hflushes
  rw [← List.map_flatten, hflushes] at hall
  refine ⟨(committed (endings boundary s.history)).flatten, hsub.trans (h.batches_sublist boundary),
    (hsub.trans (h.batches_sublist boundary)).nodup (h.lines boundary).nodup, by rw [hall],
    fun i outcome hb hi => ?_, fun i hi hclosed => ?_⟩
  · obtain ⟨b', batch, outcomes, k, he, -, hk, hv⟩ :=
      h.recorded.okDone i outcome (h.returnedOk i outcome hi)
    obtain rfl : boundary = b' := hb.symm.trans (h.boundary_of_ended he (List.mem_of_getElem? hk))
    have hmem : (i, outcome) ∈ batch.zip outcomes :=
      List.mem_of_getElem? (List.getElem?_zip_eq_some.2 ⟨hk, hv⟩)
    rw [hall, List.zip_map_right]
    exact List.mem_map_of_mem (f := Prod.map id Except.toOption) (hzip _ _ (mem_endings he) hmem)
  · have hbatch := hsub.subset hi
    rcases h.returnedClosed i hclosed with hnot | hdone
    · exact hnot _ ((h.batches_sublist boundary).subset hbatch)
    · refine h.recorded.closedDone i hdone ?_
      obtain ⟨batch, hmem, hin⟩ := List.mem_flatten.1 hbatch
      exact List.mem_flatten_of_mem (Coordinator.batches_subset_allBatches batch hmem) hin

def singleEvent : Save := ⟨none, "now", [⟨"id", "type", some (.object []), some []⟩], []⟩

def lenient : Schema := ⟨pathFunctions fun _ => none, fun _ => true, fun _ => true⟩

theorem enqueue_serialised_twoSubmits : ∃ s : Coordinator PreparedSave (Except SaveError Position),
    Transition.run (Coordinator.step pairs fun _ => ⟨"orders", prepareSQLiteSave singleEvent, 1⟩)
      .initial (twoSubmits (.ok ⟨1, 1⟩)) = some s ∧ s.submits 1 = .returned (.ok (.ok ⟨1, 1⟩)) ∧
    ∃ order : List ℕ, (1, some ⟨1, 1⟩) ∈
      order.zip (freshStore.db.saveAll lenient (order.map fun _ => singleEvent)).2 := by
  have hrun : (Transition.run (Coordinator.step pairs fun _ =>
      ⟨"orders", prepareSQLiteSave singleEvent, 1⟩) .initial (twoSubmits (.ok ⟨1, 1⟩))).map
        (fun s : Coordinator PreparedSave (Except SaveError Position) =>
          (endings "orders" s.history, s.submits 1))
      = some ([([1], .returned [.ok ⟨1, 1⟩])], .returned (.ok (.ok ⟨1, 1⟩))) := rfl
  obtain ⟨s, hs, hfinal⟩ := Option.map_eq_some_iff.1 hrun
  obtain ⟨hend, hback⟩ := Prod.mk.inj hfinal
  have hex : Executed lenient (prepareSQLiteSave ∘ fun _ => singleEvent)
      (freshStore.db.save lenient singleEvent).1 freshStore.db (endings "orders" s.history) := by
    rw [hend]
    exact ⟨_, rfl, rfl⟩
  obtain ⟨order, -, -, -, hanswers, -⟩ := enqueue_serialised pairs "orders" (fun _ => singleEvent)
    (fun _ => "orders") (twoSubmits (.ok ⟨1, 1⟩)) s hs ⟨freshStore.db, freshStore.sound.placed⟩ hex
  exact ⟨s, hs, hback, order, hanswers 1 _ rfl hback⟩

end Orisun.Sqlite
