import Orisun.Proofs.Clients
import Orisun.Proofs.LatestBatch
import Orisun.Proofs.Sqlite.GroupCommit
import Orisun.Sqlite.Clients

/-!
# SQLite keeps to the laws of a backend
-/

namespace Orisun.Sqlite

variable {sch : Schema} {fns : JsonFunctions}

variable {db : Database}

theorem Database.Sound.eventsPlaced (h : db.Sound) : EventsPlaced db.events :=
  List.forall_mem_map.2 h.placed

def matched (fns : JsonFunctions) (events : List EventRow) (c : ReadCriterion) : List Position :=
  (events.filter fun row => Meaning.tags (tagHolds fns) c.tags row.data).map EventRow.position

variable {events : List EventRow}

theorem placed_latestMatch {parts : List SqlPart} {p : Position} (hp : Placed events)
    (h : latestMatch fns events parts = some p) : notExistsPosition < p := by
  obtain ⟨row, hrow, rfl⟩ := List.mem_map.1 (List.max?_mem h)
  exact hp row (List.mem_filter.1 hrow).1

theorem lookupCriterion_eq_ok {batch batch' : LatestByCriteriaBatch} {c : ReadCriterion}
    {i count : ℕ} (hp : Placed events) (hb : batch.Ready count) (hi : i < count)
    (h : lookupCriterion fns events batch (c, i) = .ok batch') :
    batch'.Ready count ∧
      batch'.contextPosition = Latest.latest batch.contextPosition (matched fns events c) := by
  unfold lookupCriterion at h
  dsimp only at h
  split_ifs at h
  rcases hparts : buildCriteriaSQL (encodeCriterion c.tags) with e | parts
  · rw [hparts] at h
    cases h
  · have hrow : latestMatch fns events parts = (matched fns events c).max? := by
      unfold latestMatch matched
      simp only [selects_buildCriteriaSQL hparts, Meaning.criterion_encodeCriterion]
    rw [Latest.latest_eq_keep, ← hrow]
    rw [hparts] at h
    dsimp only at h
    unfold latestRow at h
    cases hfails : fns.fails (documents events) [parts] with
    | true => simp [hfails] at h
    | false =>
      rw [hfails] at h
      rcases hlatest : latestMatch fns events parts with _ | p
      · rw [hlatest] at h
        cases h
        exact ⟨hb, rfl⟩
      · rw [hlatest] at h
        cases h
        exact hb.add hi (placed_latestMatch hp hlatest)

theorem foldlM_lookupCriterion (hp : Placed events) {count : ℕ} :
    ∀ {criteria : List ReadCriterion} {i : ℕ} {batch batch' : LatestByCriteriaBatch},
      batch.Ready count → i + criteria.length ≤ count →
      (criteria.zipIdx i).foldlM (lookupCriterion fns events) batch = .ok batch' →
        batch'.contextPosition
          = Latest.latest batch.contextPosition (criteria.flatMap (matched fns events))
  | [], i, batch, batch', _, _, h => by
    obtain rfl : batch = batch' := Except.ok.inj h
    rfl
  | c :: criteria, i, batch, batch', hb, hi, h => by
    rw [List.zipIdx_cons, List.foldlM_cons, Attempt.bind_eq_ok] at h
    obtain ⟨batch1, h1, h⟩ := h
    rw [List.length_cons] at hi
    obtain ⟨hready, hcontext⟩ := lookupCriterion_eq_ok hp hb (by omega) h1
    rw [foldlM_lookupCriterion hp hready (by omega) h, hcontext]
    unfold Latest.latest
    rw [List.flatMap_cons, List.foldl_append]

theorem getLatestByCriteria_eq_ok {criteria : List ReadCriterion} {batch : LatestByCriteriaBatch}
    (hp : Placed db.tables.events) (h : getLatestByCriteria fns db.tables criteria = .ok batch) :
    batch.contextPosition = standing (tagHolds fns) db.events criteria := by
  unfold getLatestByCriteria at h
  split at h
  · cases h
  · split_ifs at h
    rw [foldlM_lookupCriterion hp (LatestByCriteriaBatch.ready_empty _) (by omega) h]
    unfold standing Database.events
    rw [List.filter_map, List.map_map, latestPosition_eq_latest]
    · refine Latest.latest_congr fun p => ?_
      simp only [matched, List.mem_flatMap, List.mem_map, List.mem_filter, queryMatches,
        Function.comp_apply, List.any_eq_true]
      constructor
      · rintro ⟨c, hc, row, ⟨hrow, hm⟩, rfl⟩
        exact ⟨row, ⟨hrow, c, hc, hm⟩, rfl⟩
      · rintro ⟨row, ⟨hrow, c, hc, hm⟩, rfl⟩
        exact ⟨c, hc, row, ⟨hrow, hm⟩, rfl⟩
    · refine List.forall_mem_map.2 fun row hrow => ?_
      exact hp row (List.mem_filter.1 hrow).1

/-- Everything the save observed stands where it was observed. -/
def Stands (fns : JsonFunctions) (events : List Event) (s : Save) : Prop :=
  ∀ check ∈ s.checks, Renderable check.criteria ∧ latestPosition
    ((events.filter fun e => queryHolds fns check.criteria e.data).map Event.position)
      = check.position

variable {s : Save}

theorem latest_events (criteria : List ReadCriterion) : latestPosition
    ((db.events.filter fun e => queryHolds fns criteria e.data).map Event.position)
      = db.tables.latest fns criteria := by
  unfold Tables.latest Database.events
  rw [List.filter_map, List.map_map]
  rfl

theorem stands_of_unchanged (h : db.Unchanged fns s) : Stands fns db.events s := by
  intro check hcheck
  obtain ⟨hrender, -, hlatest⟩ := h check hcheck
  exact ⟨hrender, (latest_events _).trans hlatest⟩

theorem queryHolds_wellFormed {check : ConsistencyCheck} (h : check.WellFormed) (data : Json) :
    queryHolds fns check.criteria data = queryMatches (tagHolds fns) check.criteria data := by
  have htagged : tagged check.criteria = check.criteria :=
    List.filter_eq_self.2 fun c hc => by simpa using (h.2 c hc).1
  unfold queryHolds queryMatches
  rw [htagged, List.isEmpty_eq_false_iff.2 h.1, Bool.false_or]

theorem stands_wellFormed {events : List Event} (h : ∀ check ∈ s.checks, check.WellFormed) :
    Stands fns events s ↔
      ∀ check ∈ s.checks, standing (tagHolds fns) events check.criteria = check.position := by
  unfold Stands standing
  refine forall₂_congr fun check hcheck => ?_
  have hr : Renderable check.criteria := fun c hc t ht =>
    have hv := validateTag_ok.1 (((h check hcheck).2 c hc).2 t ht)
    ⟨hv.2.2, hv.2.1.2⟩
  simp only [hr, true_and, queryHolds_wellFormed (h check hcheck)]

theorem insertChunks_error {events : List PreparedEventDocument} {firstId transactionId : ℤ}
    {now : String} {e : SaveError} : ∀ {fuel start : ℕ} {t t' : Tables},
      insertChunks sch events firstId transactionId now fuel start t = (t', .error e) →
        e = .insertEvents
  | 0, _, _, _, h => by simp [insertChunks] at h
  | fuel + 1, start, t, t', h => by
    unfold insertChunks at h
    split_ifs at h
    · split at h
      · exact insertChunks_error h
      · rename_i t1 e' hchunk
        obtain rfl := Except.error.inj (Prod.mk.inj h).2
        unfold insertChunk insertRows at hchunk
        split at hchunk
        · exact (Except.error.inj (Prod.mk.inj hchunk).2).symm
        · split_ifs at hchunk
          · exact absurd (Prod.mk.inj hchunk).2 (by simp)
          · exact (Except.error.inj (Prod.mk.inj hchunk).2).symm
    · exact absurd (Prod.mk.inj h).2 (by simp)

theorem saveEventsOnConn_error {t t' : Tables} {req : PreparedSave} {firstId : ℤ} {e : SaveError}
    (h : saveEventsOnConn sch t req firstId = (t', .error e)) :
    e = .exhausted ∨ e = .writeContext ∨ e = .insertEvents := by
  unfold saveEventsOnConn at h
  split_ifs at h
  · exact .inl (Except.error.inj (Prod.mk.inj h).2).symm
  · dsimp only at h
    split at h
    · rename_i hw
      obtain rfl := Except.error.inj (Prod.mk.inj h).2
      unfold insertWriteContext at hw
      split_ifs at hw
      · exact absurd (Prod.mk.inj hw).2 (by simp)
      · exact .inr (.inl (Except.error.inj (Prod.mk.inj hw).2).symm)
    · split at h
      · rename_i hb
        obtain rfl := Except.error.inj (Prod.mk.inj h).2
        exact .inr (.inr (insertChunks_error hb))
      · exact absurd (Prod.mk.inj h).2 (by simp)

theorem saveStep_conflict {db' : Database} {expected actual : Position}
    (hp : Placed db.tables.events)
    (h : saveStep sch db (prepareSQLiteSave s) = (db', .error (.conflict expected actual))) :
    ¬Stands sch.fns db.events s := by
  intro hstands
  unfold saveStep saveSavepointed at h
  split at h
  · simp at h
  · rcases hc : checkError sch.fns db.tables.events (prepareSQLiteSave s).preparedChecks with _ | e
    · rw [hc] at h
      unfold savepoint at h
      dsimp only at h
      rcases hs : saveEventsOnConn sch db.tables (prepareSQLiteSave s) db.nextId with ⟨t, e | p⟩
      · rw [hs] at h
        obtain rfl := Except.error.inj (Prod.mk.inj h).2
        simpa using saveEventsOnConn_error hs
      · rw [hs] at h
        simp at h
    · rw [hc] at h
      obtain rfl := Except.error.inj (Prod.mk.inj h).2
      obtain ⟨check, hcheck, hne⟩ := checkError_conflict hp hc
      exact hne ((latest_events _).symm.trans (hstands check hcheck).2)

theorem saveStep_ok {db' : Database} {p : Position} (hp : Placed db.tables.events)
    (hn : 1 ≤ db.nextId) (h : saveStep sch db (prepareSQLiteSave s) = (db', .ok p)) :
    ∃ rows, db.acceptedRows sch s = some rows ∧ db' = db.accept s rows ∧
      p = ⟨db.lastId s, db.lastId s⟩ := by
  have hs : _ = db.save sch s := saveStep_prepare hp hn
  rw [h] at hs
  unfold Database.save at hs
  rcases ha : db.acceptedRows sch s with _ | rows
  · simp [ha, Except.toOption] at hs
  · rw [ha] at hs
    obtain ⟨hdb, hpos⟩ := Prod.mk.inj hs
    exact ⟨rows, rfl, hdb, Option.some.inj hpos⟩

theorem Database.accept_events (db : Database) (s : Save) (rows : List EventRow) :
    (db.accept s rows).events = db.events ++ rows.map EventRow.event := List.map_append

theorem mem_rows {rows : List EventRow} (h : db.rows s = some rows) {row : EventRow}
    (hrow : row ∈ rows) :
    row.transactionId = db.lastId s ∧ db.nextId ≤ row.globalId := by
  have hpos := List.mem_map_of_mem (f := EventRow.position) hrow
  rw [position_positionedRows h] at hpos
  obtain ⟨i, -, hi⟩ := List.mem_map.1 hpos
  have h1 := congrArg Position.commitPosition hi
  have h2 := congrArg Position.preparePosition hi
  simp only [EventRow.position] at h1 h2
  omega

theorem nextId_le_lastId (h : s.inserts ≠ []) :
    db.nextId ≤ db.lastId s := by
  have := List.length_pos_iff.2 h
  unfold Database.lastId
  omega

theorem Database.Sound.accept {rows : List EventRow} (h : db.Sound)
    (ha : db.acceptedRows sch s = some rows) : (db.accept s rows).Sound := by
  obtain ⟨⟨hn, -, -, hne, -⟩, hrows, -⟩ := Database.acceptedRows_eq_some.1 ha
  have hlast : db.nextId ≤ db.lastId s := nextId_le_lastId hne
  constructor
  · have hp : Placed (db.save sch s).1.tables.events := placed_save h.placed
    unfold Database.save at hp
    rw [ha] at hp
    exact hp
  · refine List.forall_mem_append.2 ⟨fun row hrow => ?_, fun row hrow => ?_⟩
    · have := h.below row hrow
      simp only [Database.accept]
      omega
    · have := mem_rows hrows hrow
      simp only [Database.accept]
      omega

theorem serves_saveSteps : ∀ {saves : List Save} {db final : Database}
    {outs : List (Except SaveError Position)}, db.Sound → 1 ≤ db.nextId →
    saveSteps sch db (saves.map prepareSQLiteSave) = (final, outs) →
      Serves (Stands sch.fns) final.events db.events (saves.zip (outs.map saveAnswer)) ∧
      final.Sound ∧ outs.length = saves.length ∧
      ∃ new, final.events = db.events ++ new ∧
        ∀ e ∈ new, db.nextId ≤ e.position.commitPosition
  | [], db, final, outs, h, _, hs => by
    cases hs
    exact ⟨rfl, h, rfl, [], (List.append_nil _).symm, by simp⟩
  | s :: saves, db, final, outs, h, hn, hs => by
    obtain ⟨hfinal, houts⟩ := Prod.mk.inj hs
    have hn1 : 1 ≤ (saveStep sch db (prepareSQLiteSave s)).1.nextId := one_le_saveStep hn
    rcases hstep : saveStep sch db (prepareSQLiteSave s) with ⟨db1, e | p⟩
    · obtain rfl := saveStep_error hstep
      rw [hstep] at hfinal houts
      obtain ⟨hserves, hsound, hlen, new, hnew, hle⟩ :=
        serves_saveSteps h hn (Prod.ext hfinal rfl)
      subst houts
      have hadded : (saveAnswer (.error e)).added final.events = [] := by
        cases e <;> rfl
      refine ⟨⟨?_, fun hconf => ?_, ?_, ?_⟩, hsound, ?_, new, hnew, hle⟩
      · cases e <;> simp [saveAnswer, Answer.isAccepted]
      · cases e <;> simp only [saveAnswer, reduceCtorEq] at hconf
        exact saveStep_conflict h.placed hstep
      · rw [hadded]
        simp [GrowingLog.Above]
      · rw [hadded, List.append_nil]
        exact hserves
      · simp [hlen]
    · obtain ⟨rows, ha, rfl, rfl⟩ := saveStep_ok h.placed hn hstep
      obtain ⟨⟨-, -, hu, hne, -⟩, hrows, -⟩ := Database.acceptedRows_eq_some.1 ha
      have hlast : db.nextId ≤ db.lastId s := nextId_le_lastId hne
      rw [hstep] at hfinal houts hn1
      obtain ⟨hserves, hsound, hlen, new, hnew, hle⟩ :=
        serves_saveSteps (h.accept ha) hn1 (Prod.ext hfinal rfl)
      subst houts
      rw [Database.accept_events] at hnew hserves
      have hle' : ∀ e ∈ new, db.lastId s < e.position.commitPosition := fun e he =>
        Int.lt_of_add_one_le (hle e he)
      have hbelow : ∀ e ∈ db.events, e.position.commitPosition < db.lastId s :=
        List.forall_mem_map.2 fun row hrow => lt_of_lt_of_le (h.below row hrow) hlast
      have hat : ∀ e ∈ rows.map EventRow.event, e.position.commitPosition = db.lastId s :=
        List.forall_mem_map.2 fun row hrow => (mem_rows hrows hrow).1
      have hadded : (saveAnswer (.ok ⟨db.lastId s, db.lastId s⟩)).added final.events
          = rows.map EventRow.event := by
        rw [hnew]
        exact added_accepted hbelow hat hle'
      refine ⟨⟨fun _ => stands_of_unchanged hu, by simp [saveAnswer], ?_, ?_⟩, hsound, ?_,
        rows.map EventRow.event ++ new, by rw [hnew, List.append_assoc], ?_⟩
      · rw [hadded]
        intro x hx y hy
        rw [Position.lt_iff]
        exact .inl ((hbelow x hx).trans_eq (hat y hy).symm)
      · rw [hadded]
        exact hserves
      · simp [hlen]
      · refine List.forall_mem_append.2 ⟨fun e he => ?_, fun e he => ?_⟩
        · rw [hat e he]
          exact hlast
        · exact hlast.trans (hle' e he).le

/-- The laws hold of every database whose saves lie below its next position. -/
def lawful (sch : Schema) : Lawful (backend sch) (tagHolds sch.fns) where
  Sound := Database.Sound
  Stands := Stands sch.fns
  placed := Database.Sound.eventsPlaced
  read := by
    intro db criteria p h hr
    obtain ⟨batch, hb, rfl⟩ := Option.map_eq_some_iff.1 hr
    exact getLatestByCriteria_eq_ok h.placed (Attempt.toOption_eq_some.1 hb)
  prepare := by
    intro checks payload save events h hwell _
    obtain ⟨_, -, rfl⟩ := Option.map_eq_some_iff.1 h
    exact stands_wellFormed hwell
  execute := by
    intro _ db saves db' answers h _ hex
    have hn : 1 ≤ db.nextId := by
      by_contra hn
      simp [backend, executeTransaction_invalid hn] at hex
    simp only [backend, executeTransaction_eq hn] at hex
    cases hex
    obtain ⟨hserves, hsound, hlen, -⟩ := serves_saveSteps h hn rfl
    exact ⟨hsound, (List.length_map ..).trans hlen, hserves⟩
  rollback := fun h => ⟨h, rfl⟩

end Orisun.Sqlite
