import Orisun.Proofs.Sqlite.Consistency

/-!
# A flush is the serial execution

The chunks of an event batch together insert what one statement would, a failure leaves the tables
as the savepoint found them, and the next position travels in a variable exactly as it would through
the table.
-/

namespace Orisun.Sqlite

variable {sch : Schema}

/-- The tables and the result where there was no error. -/
def succeeded {α : Type} : Tables × Except SaveError α → Option (Tables × α)
  | (t, .ok a) => some (t, a)
  | (_, .error _) => none

variable {α : Type} {t : Tables}

theorem succeeded_eq_some {r : Tables × Except SaveError α} {a : α} :
    succeeded r = some (t, a) ↔ r = (t, .ok a) := by
  rcases r with ⟨t', e | a'⟩ <;> simp [succeeded]

theorem succeeded_eq_none {r : Tables × Except SaveError α} :
    succeeded r = none ↔ ∃ t e, r = (t, .error e) := by
  rcases r with ⟨t', e | a'⟩ <;> simp [succeeded]

def addRows (sch : Schema) (t : Tables) (rows : List EventRow) : Option Tables :=
  if t.Takes sch rows then some { t with events := t.events ++ rows } else none

variable {rows : List EventRow}

theorem addRows_of_takes (h : t.Takes sch rows) (writes : List WriteRow) :
    addRows sch { t with writes := writes } rows = some ⟨t.events ++ rows, writes⟩ := if_pos h

theorem addRows_of_not_takes (h : ¬t.Takes sch rows) (writes : List WriteRow) :
    addRows sch { t with writes := writes } rows = none := if_neg h

theorem succeeded_insertRows (t : Tables) (rows : List EventRow) :
    succeeded (insertRows sch t rows) = (addRows sch t rows).map (·, ()) := by
  by_cases h : t.Takes sch rows
  · rw [addRows, if_pos h, insertRows, if_pos h]
    rfl
  · rw [addRows, if_neg h, insertRows, if_neg h]
    rfl

theorem Tables.takes_append {rows' : List EventRow} :
    t.Takes sch (rows ++ rows') ↔ t.Takes sch rows ∧
      ({ t with events := t.events ++ rows } : Tables).Takes sch rows' := by
  unfold Tables.Takes
  simp only [List.forall_mem_append, List.map_append, List.nodup_append]
  simp only [List.mem_append, not_or]
  constructor
  · rintro ⟨⟨h1, h2⟩, ⟨h3, h4, h5⟩, h6, h7⟩
    refine ⟨⟨h1, h3, h6⟩, h2, h4, fun row hrow => ⟨h7 row hrow, fun hm => ?_⟩⟩
    exact h5 _ hm _ (List.mem_map_of_mem hrow) rfl
  · rintro ⟨⟨h1, h3, h6⟩, h2, h4, h7⟩
    refine ⟨⟨h1, h2⟩, ⟨h3, h4, fun a ha b hb hab => ?_⟩, h6, fun row hrow => (h7 row hrow).1⟩
    obtain ⟨row, hrow, rfl⟩ := List.mem_map.1 hb
    exact (h7 row hrow).2 (hab ▸ ha)

/-- Inserting two lists of rows is inserting them one after the other. -/
theorem addRows_append (t : Tables) (rows rows' : List EventRow) :
    addRows sch t (rows ++ rows') = (addRows sch t rows).bind (addRows sch · rows') := by
  unfold addRows
  by_cases h : t.Takes sch rows
  · simp only [Tables.takes_append, h, true_and, if_true, Option.bind_some, List.append_assoc]
  · simp only [Tables.takes_append, h, false_and, if_false, Option.bind_none]

@[simp] theorem addRows_nil (t : Tables) : addRows sch t [] = some t := by
  simp [addRows, Tables.Takes]

variable {firstId transactionId : ℤ} {now : String}

theorem positionedRows_append (start : ℕ) (events events' : List PreparedEventDocument) :
    positionedRows firstId transactionId now start (events ++ events')
      = (positionedRows firstId transactionId now start events).bind fun rows =>
        (positionedRows firstId transactionId now (start + events.length) events').map (rows ++ ·) := by
  unfold positionedRows
  rw [List.zipIdx_append, List.mapM_append]
  simp only [Option.bind_eq_bind, Option.pure_def, Option.map_eq_bind, Function.comp_def]

theorem positionedRows_chunk (events : List PreparedEventDocument) (start n : ℕ) :
    positionedRows firstId transactionId now start (events.drop start)
      = (positionedRows firstId transactionId now start ((events.drop start).take n)).bind
          fun rows => (positionedRows firstId transactionId now (start + n)
            (events.drop (start + n))).map (rows ++ ·) := by
  rw [← List.drop_drop]
  conv_lhs => rw [← List.take_append_drop n (events.drop start), positionedRows_append]
  by_cases hn : n ≤ (events.drop start).length
  · rw [List.length_take_of_le hn]
  · rw [List.drop_eq_nil_of_le (by omega : (events.drop start).length ≤ n)]
    rfl

theorem succeeded_insertChunk (t : Tables) (start : ℕ) (chunk : List PreparedEventDocument) :
    succeeded (insertChunk sch firstId transactionId now t start chunk)
      = ((positionedRows firstId transactionId now start chunk).bind (addRows sch t)).map (·, ()) := by
  unfold insertChunk
  rcases positionedRows firstId transactionId now start chunk with _ | rows
  · rfl
  · exact succeeded_insertRows t rows

theorem succeeded_insertChunks (events : List PreparedEventDocument) :
    ∀ (fuel start : ℕ) (t : Tables), events.length ≤ start + fuel →
      succeeded (insertChunks sch events firstId transactionId now fuel start t)
        = ((positionedRows firstId transactionId now start (events.drop start)).bind
            (addRows sch t)).map (·, ())
  | 0, start, t, h => by
    rw [List.drop_eq_nil_of_le (by omega)]
    simp [insertChunks, succeeded, positionedRows]
  | fuel + 1, start, t, h => by
    unfold insertChunks
    split_ifs with hs
    · have ih := fun t => @succeeded_insertChunks events fuel (start + sqliteMaxEventsPerInsert) t
        (by unfold sqliteMaxEventsPerInsert; omega)
      have hchunk : succeeded (insertChunk sch firstId transactionId now t start
          ((events.drop start).take sqliteMaxEventsPerInsert)) = _ := succeeded_insertChunk t start _
      rw [positionedRows_chunk events start sqliteMaxEventsPerInsert]
      generalize positionedRows firstId transactionId now start _ = first at hchunk ⊢
      generalize insertChunk sch firstId transactionId now t start _ = r at hchunk ⊢
      rcases hadd : first.bind (addRows sch t) with _ | t'
      · rw [hadd] at hchunk
        obtain ⟨t'', e, rfl⟩ := succeeded_eq_none.1 hchunk
        rcases first with _ | rows
        · rfl
        · rw [Option.bind_some] at hadd
          simp [succeeded, addRows_append, hadd, Option.bind_map]
      · rw [hadd] at hchunk
        obtain rfl := succeeded_eq_some.1 hchunk
        obtain ⟨rows, rfl, hrows⟩ := Option.bind_eq_some_iff.1 hadd
        simp only [Option.bind_some, Option.bind_map, Function.comp_def, addRows_append, hrows]
        exact ih t'
    · rw [List.drop_eq_nil_of_le (by omega)]
      simp [succeeded, positionedRows]

/-- The chunks of a batch are inserted as one list of rows. -/
theorem succeeded_insertEventBatch (events : List PreparedEventDocument) (t : Tables) :
    succeeded (insertEventBatch sch events firstId transactionId now t)
      = ((positionedRows firstId transactionId now 0 events).bind (addRows sch t)).map (·, ()) :=
  succeeded_insertChunks events events.length 0 t (by omega)

theorem position_positionedRows : ∀ {events : List PreparedEventDocument} {start : ℕ}
    {rows : List EventRow}, positionedRows firstId transactionId now start events = some rows →
      rows.map EventRow.position
        = (List.range' start events.length).map fun i => ⟨transactionId, firstId + i⟩
  | [], start, rows, h => by
    obtain rfl : [] = rows := Option.some.inj h
    rfl
  | event :: events, start, rows, h => by
    unfold positionedRows at h
    rw [List.zipIdx_cons, List.mapM_cons] at h
    simp only [Option.bind_eq_bind, Option.bind_eq_some_iff, Option.pure_def,
      Option.some.injEq] at h
    obtain ⟨row, hrow, rest, hrest, rfl⟩ := h
    obtain ⟨data, -, rfl⟩ := Option.map_eq_some_iff.1 hrow
    rw [List.map_cons, position_positionedRows hrest]
    rfl

theorem globalId_positionedRows {events : List PreparedEventDocument} {start : ℕ}
    (h : positionedRows firstId transactionId now start events = some rows) :
    rows.map EventRow.globalId
      = (List.range' start events.length).map fun i : ℕ => firstId + (i : ℤ) := by
  have hp := congrArg (List.map Position.preparePosition) (position_positionedRows h)
  rw [List.map_map, List.map_map] at hp
  exact hp

theorem nodup_positionedRows {events : List PreparedEventDocument} {start : ℕ}
    (h : positionedRows firstId transactionId now start events = some rows) :
    (rows.map EventRow.globalId).Nodup := by
  rw [globalId_positionedRows h]
  refine List.Nodup.map (fun i j hij => ?_) List.nodup_range'
  omega

variable {req : PreparedSave}

theorem succeeded_saveEventsOnConn_eq {lastId : ℤ}
    (hlast : lastId = firstId + req.inserts.length - 1) (hne : req.inserts ≠ [])
    (hmax : firstId + req.inserts.length ≤ maxInt64) :
    succeeded (saveEventsOnConn sch t req firstId)
      = (succeeded (insertWriteContext sch t lastId req.consistency)).bind fun p =>
        (succeeded (insertEventBatch sch req.inserts firstId lastId req.now p.1)).map fun q =>
          (q.1, ⟨lastId, lastId⟩) := by
  have hlen : req.inserts.length ≠ 0 := fun h => hne (List.length_eq_zero_iff.1 h)
  unfold saveEventsOnConn
  rw [if_neg (by omega), ← hlast]
  dsimp only
  rcases insertWriteContext sch t lastId req.consistency with ⟨t', e | ⟨⟩⟩
  · rfl
  · simp only [succeeded, Option.bind_some]
    rcases insertEventBatch sch req.inserts firstId lastId req.now t' with ⟨t'', e | ⟨⟩⟩ <;> rfl

theorem succeeded_insertWriteContext (t : Tables) (id : ℤ) (consistency : List Observation) :
    succeeded (insertWriteContext sch t id consistency)
      = if sch.consistencyOk consistency ∧ id ∉ t.writes.map WriteRow.writeId
        then some ({ t with writes := t.writes ++ [⟨id, consistency⟩] }, ()) else none := by
  unfold insertWriteContext
  split_ifs <;> rfl

variable {db : Database} {s : Save}

theorem Database.admits_iff (h : db.rows s = some rows) : db.Admits sch s rows ↔
      (sch.consistencyOk (s.checks.map storedObservation) ∧
        db.lastId s ∉ db.tables.writes.map WriteRow.writeId) ∧ db.tables.Takes sch rows := by
  unfold Database.Admits Tables.Takes
  simp only [nodup_positionedRows h, true_and, and_assoc, ← forall_and]

theorem succeeded_saveEventsOnConn (db : Database) (s : Save) (hne : s.inserts ≠ [])
    (hmax : db.nextId + s.inserts.length ≤ maxInt64) :
    succeeded (saveEventsOnConn sch db.tables (prepareSQLiteSave s) db.nextId)
      = ((db.rows s).filter fun rows => db.Admits sch s rows).map fun rows =>
        ((db.accept s rows).tables, ⟨db.lastId s, db.lastId s⟩) := by
  have hrows' : positionedRows db.nextId (db.lastId s) s.now 0 s.inserts = db.rows s := rfl
  have hlast : db.lastId s = db.nextId + (prepareSQLiteSave s).inserts.length - 1 := rfl
  refine (succeeded_saveEventsOnConn_eq hlast hne hmax).trans ?_
  simp only [prepareSQLiteSave, succeeded_insertWriteContext, succeeded_insertEventBatch, hrows']
  rcases hrows : db.rows s with _ | rows
  · split_ifs <;> rfl
  · simp only [Option.bind_some, Option.filter_some, decide_eq_true_eq, Database.admits_iff hrows]
    by_cases hc : sch.consistencyOk (s.checks.map storedObservation) ∧
        db.lastId s ∉ db.tables.writes.map WriteRow.writeId
    · rw [if_pos hc, Option.bind_some]
      by_cases ht : db.tables.Takes sch rows
      · rw [if_pos ⟨hc, ht⟩, addRows_of_takes ht]
        rfl
      · rw [if_neg (fun h => ht h.2), addRows_of_not_takes ht]
        rfl
    · rw [if_neg hc, if_neg (fun h => hc h.1)]
      rfl

theorem succeeded_saveEventsOnConn_exhausted
    (h : ¬(req.inserts ≠ [] ∧ firstId + req.inserts.length ≤ maxInt64)) :
    succeeded (saveEventsOnConn sch t req firstId) = none := by
  have hguard : req.inserts.length = 0 ∨ (req.inserts.length : ℤ) > maxInt64 - firstId := by
    rw [← List.length_pos_iff] at h
    omega
  unfold saveEventsOnConn
  rw [if_pos hguard]
  rfl

theorem succeeded_savepoint (t : Tables) (body : Tables → Tables × Except SaveError α) :
    succeeded (savepoint t body) = succeeded (body t) := by
  unfold savepoint
  rcases body t with ⟨t', e | a⟩ <;> rfl

/-- A save succeeds under its savepoint exactly if the serial save is accepted. -/
theorem succeeded_saveSavepointed (hp : Placed db.tables.events) (hn : 1 ≤ db.nextId)
    (hctx : s.ctxErr = none) :
    succeeded (saveSavepointed sch db.tables (prepareSQLiteSave s) db.nextId)
      = (db.acceptedRows sch s).map fun rows =>
        ((db.accept s rows).tables, ⟨db.lastId s, db.lastId s⟩) := by
  have hchecks : checkError sch.fns db.tables.events (prepareSQLiteSave s).preparedChecks = none ↔
      db.Unchanged sch.fns s := checkError_eq_none hp
  unfold saveSavepointed Database.acceptedRows
  rcases hc : checkError sch.fns db.tables.events (prepareSQLiteSave s).preparedChecks with _ | e
  · have hu : db.Unchanged sch.fns s := hchecks.1 hc
    dsimp only
    rw [succeeded_savepoint]
    by_cases hg : s.inserts ≠ [] ∧ db.nextId + s.inserts.length ≤ maxInt64
    · rw [if_pos ⟨hn, hctx, hu, hg⟩, succeeded_saveEventsOnConn db s hg.1 hg.2]
    · rw [if_neg (fun h => hg h.2.2.2), succeeded_saveEventsOnConn_exhausted hg]
      rfl
  · have hu : ¬db.Unchanged sch.fns s := fun h => by
      rw [hchecks.2 h] at hc
      cases hc
    rw [if_neg (fun h => hu h.2.2.1)]
    rfl

variable {t' : Tables}

/-- A save that fails leaves the tables. -/
theorem saveSavepointed_error {e : SaveError}
    (h : saveSavepointed sch t req firstId = (t', .error e)) : t' = t := by
  unfold saveSavepointed savepoint at h
  split at h
  · exact (Prod.mk.inj h).1.symm
  · dsimp only at h
    split at h
    · exact absurd (Prod.mk.inj h).2 (by simp)
    · exact (Prod.mk.inj h).1.symm

theorem saveEventsOnConn_ok {p : Position} (h : saveEventsOnConn sch t req firstId = (t', .ok p)) :
    firstId ≤ p.preparePosition := by
  have hg : req.inserts ≠ [] ∧ firstId + req.inserts.length ≤ maxInt64 := by
    by_contra hg
    have hs : succeeded (saveEventsOnConn sch t req firstId) = none :=
      succeeded_saveEventsOnConn_exhausted hg
    rw [h] at hs
    cases hs
  have hs : succeeded (saveEventsOnConn sch t req firstId) = _ :=
    succeeded_saveEventsOnConn_eq rfl hg.1 hg.2
  rw [h] at hs
  obtain ⟨q, -, hq⟩ := Option.bind_eq_some_iff.1 hs.symm
  obtain ⟨q', -, hq'⟩ := Option.map_eq_some_iff.1 hq
  have hlen := List.length_pos_iff.2 hg.1
  rw [← (Prod.mk.inj hq').2]
  dsimp only
  omega

theorem saveSavepointed_ok {p : Position} (h : saveSavepointed sch t req firstId = (t', .ok p)) :
    firstId ≤ p.preparePosition := by
  unfold saveSavepointed at h
  split at h
  · exact absurd (Prod.mk.inj h).2 (by simp)
  · have hs : succeeded (saveEventsOnConn sch t req firstId) = some (t', p) := by
      rw [← succeeded_savepoint t fun t => saveEventsOnConn sch t req firstId, h]
      rfl
    exact saveEventsOnConn_ok (succeeded_eq_some.1 hs)

/-- A request by itself, from the id that is next. -/
def saveStep (sch : Schema) (db : Database) (req : PreparedSave) :
    Database × Except SaveError Position :=
  match req.ctxErr with
  | some e => (db, .error (.context e))
  | none =>
    match saveSavepointed sch db.tables req db.nextId with
    | (t, .error e) => (⟨t, db.nextId⟩, .error e)
    | (t, .ok p) => (⟨t, p.preparePosition + 1⟩, .ok p)

def saveSteps (sch : Schema) :
    Database → List PreparedSave → Database × List (Except SaveError Position)
  | db, [] => (db, [])
  | db, req :: reqs =>
    ((saveSteps sch (saveStep sch db req).1 reqs).1,
      (saveStep sch db req).2 :: (saveSteps sch (saveStep sch db req).1 reqs).2)

theorem runSave_eq (f : Flush) (req : PreparedSave) : runSave sch f req =
    ⟨(saveStep sch ⟨f.tables, f.nextId⟩ req).1.tables,
      (saveStep sch ⟨f.tables, f.nextId⟩ req).1.nextId,
      f.outcomes ++ [(saveStep sch ⟨f.tables, f.nextId⟩ req).2],
      f.accepted + (saveStep sch ⟨f.tables, f.nextId⟩ req).2.toOption.toList.length⟩ := by
  unfold runSave saveStep
  rcases req.ctxErr with _ | e
  · dsimp only
    rcases saveSavepointed sch f.tables req f.nextId with ⟨t, e | p⟩ <;> rfl
  · rfl

/-- The loop over a flush is its requests one at a time. -/
theorem foldl_runSave : ∀ (reqs : List PreparedSave) (f : Flush), reqs.foldl (runSave sch) f =
    ⟨(saveSteps sch ⟨f.tables, f.nextId⟩ reqs).1.tables,
      (saveSteps sch ⟨f.tables, f.nextId⟩ reqs).1.nextId,
      f.outcomes ++ (saveSteps sch ⟨f.tables, f.nextId⟩ reqs).2,
      f.accepted + ((saveSteps sch ⟨f.tables, f.nextId⟩ reqs).2.filterMap
        Except.toOption).length⟩
  | [], f => by simp [saveSteps]
  | req :: reqs, f => by
    rw [List.foldl_cons, runSave_eq, foldl_runSave reqs]
    simp only [saveSteps, List.append_assoc, List.singleton_append, List.filterMap_cons]
    rcases saveStep sch ⟨f.tables, f.nextId⟩ req with ⟨⟨t, n⟩, e | p⟩
    · rfl
    · simp only [Except.toOption, Option.toList_some, List.length_cons, List.length_nil]
      congr 1
      omega

theorem saveStep_error {db' : Database} {e : SaveError} (h : saveStep sch db req = (db', .error e)) :
    db' = db := by
  unfold saveStep at h
  split at h
  · exact (Prod.mk.inj h).1.symm
  · split at h
    · rename_i t e' hs
      rw [← (Prod.mk.inj h).1, saveSavepointed_error hs]
    · exact absurd (Prod.mk.inj h).2 (by simp)

theorem one_le_saveStep (hn : 1 ≤ db.nextId) :
    1 ≤ (saveStep sch db req).1.nextId := by
  unfold saveStep
  split
  · exact hn
  · split
    · exact hn
    · rename_i t p hs
      have hp := saveSavepointed_ok hs
      dsimp only
      omega

theorem one_le_saveSteps : ∀ {reqs : List PreparedSave} {db : Database}, 1 ≤ db.nextId →
    1 ≤ (saveSteps sch db reqs).1.nextId
  | [], _, h => h
  | _ :: reqs, _, h => @one_le_saveSteps reqs _ (one_le_saveStep h)

theorem saveSteps_append : ∀ (reqs reqs' : List PreparedSave) (db : Database),
    saveSteps sch db (reqs ++ reqs') =
      ((saveSteps sch (saveSteps sch db reqs).1 reqs').1,
        (saveSteps sch db reqs).2 ++ (saveSteps sch (saveSteps sch db reqs).1 reqs').2)
  | [], reqs', db => rfl
  | req :: reqs, reqs', db => by
    simp only [List.cons_append, saveSteps, saveSteps_append reqs reqs']

theorem saveSteps_none : ∀ {reqs : List PreparedSave} {db : Database},
    (saveSteps sch db reqs).2.filterMap Except.toOption = [] → (saveSteps sch db reqs).1 = db
  | [], _, _ => rfl
  | req :: reqs, db, h => by
    rcases hs : saveStep sch db req with ⟨db', e | p⟩
    · simp only [saveSteps, hs, List.filterMap_cons, Except.toOption] at h ⊢
      rw [@saveSteps_none reqs db' h, saveStep_error hs]
    · simp [saveSteps, hs, Except.toOption] at h

theorem executeTransaction_eq (hn : 1 ≤ db.nextId) (live : List PreparedSave) :
    executeTransaction sch db live = ((saveSteps sch db live).1, .ok (saveSteps sch db live).2) := by
  unfold executeTransaction
  rw [if_neg (by omega)]
  simp only [foldl_runSave, List.nil_append, Nat.zero_add]
  split_ifs with ha
  · rfl
  · have hnone := saveSteps_none (List.length_eq_zero_iff.1 (Nat.le_zero.1 (Nat.not_lt.1 ha)))
    exact Prod.ext (by rw [hnone]) rfl

theorem executeTransaction_invalid (hn : ¬1 ≤ db.nextId) (live : List PreparedSave) :
    executeTransaction sch db live = (db, .error (.invalidSequence db.nextId)) := by
  unfold executeTransaction
  rw [if_pos (by omega)]

theorem flush_eq (hn : 1 ≤ db.nextId) (live : List PreparedSave) :
    flush sch db live = saveSteps sch db live := by
  unfold flush
  rw [executeTransaction_eq hn]

theorem flush_invalid (hn : ¬1 ≤ db.nextId) (live : List PreparedSave) :
    flush sch db live = (db, live.map fun _ => .error (.invalidSequence db.nextId)) := by
  unfold flush
  rw [executeTransaction_invalid hn]

theorem runFlushes_eq : ∀ {flushes : List (List PreparedSave)} {db : Database}, 1 ≤ db.nextId →
    runFlushes sch db flushes = saveSteps sch db flushes.flatten
  | [], _, _ => rfl
  | live :: rest, db, hn => by
    rw [runFlushes, flush_eq hn, List.flatten_cons, saveSteps_append]
    simp only [@runFlushes_eq rest _ (one_le_saveSteps hn)]

theorem runFlushes_invalid : ∀ {flushes : List (List PreparedSave)} {db : Database},
    ¬1 ≤ db.nextId → runFlushes sch db flushes
      = (db, flushes.flatten.map fun _ => .error (.invalidSequence db.nextId))
  | [], _, _ => rfl
  | live :: rest, db, hn => by
    rw [runFlushes, flush_invalid hn]
    simp only [@runFlushes_invalid rest db hn, List.flatten_cons, List.map_append]

/-- A request that was prepared is saved as the serial specification says. -/
theorem saveStep_prepare (hp : Placed db.tables.events) (hn : 1 ≤ db.nextId) :
    ((saveStep sch db (prepareSQLiteSave s)).1, (saveStep sch db (prepareSQLiteSave s)).2.toOption)
      = db.save sch s := by
  unfold saveStep Database.save
  rcases hctx : s.ctxErr with _ | e
  · have hs : succeeded (saveSavepointed sch db.tables (prepareSQLiteSave s) db.nextId) = _ :=
      succeeded_saveSavepointed hp hn hctx
    rw [show (prepareSQLiteSave s).ctxErr = none from hctx]
    rcases ha : db.acceptedRows sch s with _ | rows
    · rw [ha] at hs
      obtain ⟨t, e, he⟩ := succeeded_eq_none.1 hs
      obtain rfl := saveSavepointed_error he
      simp only [he]
      rfl
    · rw [ha] at hs
      simp only [succeeded_eq_some.1 hs]
      rfl
  · rw [show (prepareSQLiteSave s).ctxErr = some e from hctx]
    have ha : db.acceptedRows sch s = none := by
      unfold Database.acceptedRows
      rw [if_neg (fun h => by simp [hctx] at h)]
    rw [ha]
    rfl

theorem Database.acceptedRows_eq_some :
    db.acceptedRows sch s = some rows ↔
      (1 ≤ db.nextId ∧ s.ctxErr = none ∧ db.Unchanged sch.fns s ∧ s.inserts ≠ [] ∧
        db.nextId + s.inserts.length ≤ maxInt64) ∧ db.rows s = some rows ∧
      db.Admits sch s rows := by
  unfold Database.acceptedRows
  split_ifs with h
  · simp only [h, Option.filter_eq_some_iff, decide_eq_true_eq, not_false_eq_true, true_and,
      ne_eq, and_self]
  · simp only [h, false_and]

theorem placed_save (hp : Placed db.tables.events) :
    Placed (db.save sch s).1.tables.events := by
  unfold Database.save
  rcases ha : db.acceptedRows sch s with _ | rows
  · exact hp
  · obtain ⟨⟨hn, -, -, -, -⟩, hrows, -⟩ := Database.acceptedRows_eq_some.1 ha
    intro row hrow
    rcases List.mem_append.1 hrow with hold | hnew
    · exact hp row hold
    · have hpos := List.mem_map_of_mem (f := EventRow.position) hnew
      rw [position_positionedRows hrows] at hpos
      obtain ⟨i, -, hi⟩ := List.mem_map.1 hpos
      rw [← hi, Position.lt_iff]
      unfold Database.lastId notExistsPosition
      dsimp only
      omega

theorem saveSteps_prepare : ∀ {saves : List Save} {db : Database}, Placed db.tables.events →
    1 ≤ db.nextId →
      ((saveSteps sch db (saves.map prepareSQLiteSave)).1,
        (saveSteps sch db (saves.map prepareSQLiteSave)).2.map Except.toOption)
        = db.saveAll sch saves
  | [], _, _, _ => rfl
  | s :: saves, db, hp, hn => by
    have hstep : _ = db.save sch s := saveStep_prepare hp hn
    have hdb : (saveStep sch db (prepareSQLiteSave s)).1 = (db.save sch s).1 :=
      congrArg Prod.fst hstep
    have ih := @saveSteps_prepare saves (db.save sch s).1 (placed_save hp)
      (hdb ▸ one_le_saveStep hn)
    simp only [List.map_cons, saveSteps, Database.saveAll, hdb, ← ih]
    rw [← hstep]

theorem saveAll_invalid (hn : ¬1 ≤ db.nextId) : ∀ saves : List Save,
    db.saveAll sch saves = (db, saves.map fun _ => none)
  | [] => rfl
  | s :: saves => by
    have hs : db.save sch s = (db, none) := by
      unfold Database.save Database.acceptedRows
      rw [if_neg (fun h => hn h.1)]
    simp only [Database.saveAll, hs, saveAll_invalid hn saves, List.map_cons]

end Orisun.Sqlite
