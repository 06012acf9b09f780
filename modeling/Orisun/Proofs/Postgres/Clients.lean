import Orisun.Postgres.Clients
import Orisun.Proofs.Clients
import Orisun.Proofs.LatestBatch
import Orisun.Proofs.Postgres.InsertEventRequests

/-!
# PostgreSQL keeps to the laws of a backend
-/

namespace Orisun.Postgres

theorem foldlM_addRow {count : ℕ} : ∀ {rows : List (ℕ × Position)}
    {batch batch' : LatestByCriteriaBatch}, batch.Ready count →
    (∀ row ∈ rows, notExistsPosition < row.2) →
    rows.foldlM (addRow count) batch = .ok batch' →
      batch'.contextPosition = Latest.latest batch.contextPosition (rows.map Prod.snd)
  | [], batch, batch', _, _, h => by
    obtain rfl : batch = batch' := Except.ok.inj h
    rfl
  | row :: rows, batch, batch', hb, hp, h => by
    rw [List.foldlM_cons, Attempt.bind_eq_ok] at h
    obtain ⟨batch1, h1, h⟩ := h
    unfold addRow at h1
    split_ifs at h1 with hi
    cases h1
    obtain ⟨hready, hcontext⟩ := hb.add (not_le.1 hi) (hp row (List.mem_cons_self ..))
    rw [foldlM_addRow hready (fun r hr => hp r (List.mem_cons_of_mem row hr)) h, hcontext]
    rfl

theorem placed_latestRow {events : List EventRow} {parts : List SqlPart} {p : Position}
    (hp : ∀ row ∈ events, notExistsPosition < row.position)
    (h : latestRow events parts = some p) : notExistsPosition < p := by
  obtain ⟨row, hrow, rfl⟩ := List.mem_map.1 (List.max?_mem h)
  exact hp row (List.mem_filter.1 hrow).1

def rowsLatest (events : List EventRow) (criteria : List EncodedCriterion) : Position :=
  latestPosition ((events.filter fun row => queryHolds criteria row.data).map EventRow.position)

theorem getLatestByCriteriaV2_eq_ok {events : List EventRow} {criteria : List EncodedCriterion}
    {rows : List (ℕ × Position)} (h : getLatestByCriteriaV2 events criteria = .ok rows)
    (hp : ∀ row ∈ events, notExistsPosition < row.position) :
    (∀ row ∈ rows, notExistsPosition < row.2) ∧
      Latest.latest notExistsPosition (rows.map Prod.snd) = rowsLatest events criteria := by
  unfold getLatestByCriteriaV2 at h
  split_ifs at h
  obtain ⟨lookups, hl, h⟩ := Attempt.bind_eq_ok.1 h
  cases h
  have hany : ∀ data, (lookups.any fun select => selects select.2 data)
      = queryHolds criteria data := by
    intro data
    have hzip : criteria.zipIdx.any (fun c => criterionHolds c.1 data)
        = criteria.any fun c => criterionHolds c data := by
      have := List.any_map (f := Prod.fst) (l := criteria.zipIdx)
        (p := fun c => criterionHolds c data)
      rw [List.zipIdx_map_fst] at this
      exact this.symm
    refine (Attempt.any_mapM (P := fun c => criterionHolds c.1 data)
      (Q := fun select => selects select.2 data) (fun c select hc => ?_) hl).trans hzip
    split_ifs at hc
    obtain ⟨parts, hparts, rfl⟩ := Attempt.map_eq_ok.1 hc
    exact selects_orisunCriterionSql hparts data
  constructor
  · intro row hrow
    obtain ⟨select, -, hs⟩ := List.mem_filterMap.1 hrow
    obtain ⟨p, hpos, rfl⟩ := Option.map_eq_some_iff.1 hs
    exact placed_latestRow hp hpos
  · have hmap : (lookups.filterMap fun select =>
        (latestRow events select.2).map fun p => (select.1, p)).map Prod.snd
        = lookups.filterMap fun select => latestRow events select.2 := by
      rw [List.map_filterMap]
      simp only [Option.map_map, Function.comp_def, Option.map_id']
    have hplaced : ∀ p ∈ (events.filter fun row => queryHolds criteria row.data).map
        EventRow.position, notExistsPosition < p := by
      intro p hpm
      obtain ⟨row, hrow, rfl⟩ := List.mem_map.1 hpm
      exact hp row (List.mem_filter.1 hrow).1
    rw [hmap, Latest.latest_filterMap, rowsLatest, latestPosition_eq_latest hplaced]
    have hkeep := Latest.foldl_keep (fun select : ℕ × List SqlPart =>
      (events.filter fun row => selects select.2 row.data).map EventRow.position)
      lookups notExistsPosition
    unfold latestRow
    rw [hkeep]
    refine Latest.latest_congr fun p => ?_
    simp only [List.mem_flatMap, List.mem_map, List.mem_filter, ← hany, List.any_eq_true]
    constructor
    · rintro ⟨select, hselect, row, ⟨hrow, hs⟩, rfl⟩
      exact ⟨row, ⟨hrow, select, hselect, hs⟩, rfl⟩
    · rintro ⟨row, ⟨hrow, select, hselect, hs⟩, rfl⟩
      exact ⟨select, hselect, row, ⟨hrow, hs⟩, rfl⟩

theorem queryHolds_encodeReadCriteria (criteria : List ReadCriterion) (data : Json) :
    queryHolds (encodeReadCriteria criteria) data = queryMatches tagHolds criteria data := by
  unfold queryHolds Meaning.query encodeReadCriteria queryMatches
  rw [List.any_map]
  simp only [Function.comp_def, Meaning.criterion_encodeCriterion]

variable {t : Tables}

theorem getLatestByCriteria_eq_ok {criteria : List ReadCriterion} {batch : LatestByCriteriaBatch}
    (h : getLatestByCriteria t criteria = .ok batch)
    (hp : ∀ row ∈ t.events, notExistsPosition < row.position) :
    batch.contextPosition = standing tagHolds (t.events.map EventRow.event) criteria := by
  unfold getLatestByCriteria at h
  split at h
  · cases h
  · split_ifs at h with h1 h2
    split at h
    · cases h
    · rename_i rows hrows
      have hlist : getReadCriteriaAsList criteria = encodeReadCriteria criteria := by
        unfold getReadCriteriaAsList at h2 ⊢
        rw [List.length_map, not_not, List.length_filter_eq_length_iff] at h2
        rw [List.filter_eq_self.2 h2]
        rfl
      obtain ⟨hplaced, hlatest⟩ := getLatestByCriteriaV2_eq_ok hrows hp
      rw [foldlM_addRow (LatestByCriteriaBatch.ready_empty _) hplaced h]
      refine hlatest.trans ?_
      unfold rowsLatest standing
      rw [hlist, List.filter_map, List.map_map]
      simp only [queryHolds_encodeReadCriteria]
      rfl

/-- Everything the request observed stands where it was observed. -/
def Stands (events : List Event) (r : Request) : Prop :=
  ∀ o ∈ r.consistency, latestPosition
    ((events.filter fun e => queryHolds o.criteria e.data).map Event.position) = o.position

theorem validCriterion_encodeCriterion {tags : List ReadTag} (hne : tags ≠ [])
    (h : ∀ t ∈ tags, validateTag t = .ok ()) : ValidCriterion (encodeCriterion tags) := by
  refine ⟨fun hnil => hne (fields_encodeCriterion_eq_nil.1 hnil), ?_⟩
  unfold encodeCriterion
  refine List.forall_mem_map.2 fun f hf => ?_
  have hops : ∀ p ∈ f.2, (canonicalTagOperator p.operator).isSome = true := by
    refine forall_tagFields (P := fun _ p => (canonicalTagOperator p.operator).isSome = true).2
      (fun t ht => ?_) f hf
    rw [canonicalTagOperator_encoded]
    exact (validateTag_ok.1 (h t ht)).2.2
  unfold encodeField
  split
  · rfl
  · simpa [validField, tagFields_ne_nil hf] using hops

theorem validateCheck_eq_ok {check : ConsistencyCheck} (h : validateCheck check = .ok ()) :
    check.criteria ≠ [] ∧ ∀ c ∈ check.criteria, c.tags ≠ [] ∧
      ∀ t ∈ c.tags, validateTag t = .ok () := by
  unfold validateCheck at h
  split at h
  · cases h
  · rename_i hv
    split_ifs at h with h1 h2
    refine ⟨fun he => h1 (by rw [he]; rfl), fun c hc => ⟨fun he => h2 ?_, ?_⟩⟩
    · exact List.any_eq_true.2 ⟨c, hc, by simp [he]⟩
    · exact Attempt.forM_eq_ok (Attempt.forM_eq_ok hv c hc)

theorem valid_storedObservation {check : ConsistencyCheck} (h : validateCheck check = .ok ()) :
    (storedObservation check).criteria ≠ [] ∧
      ∀ c ∈ (storedObservation check).criteria, ValidCriterion c := by
  obtain ⟨hne, hall⟩ := validateCheck_eq_ok h
  refine ⟨by simpa [storedObservation, encodeReadCriteria] using hne, fun c hc => ?_⟩
  obtain ⟨d, hd, rfl⟩ := List.mem_map.1 hc
  exact validCriterion_encodeCriterion (hall d hd).1 (hall d hd).2

variable {r : Request}

theorem prepareSave_eq_ok {uuidParse : String → Bool} {events : List PreparedEvent}
    {checks : List ConsistencyCheck} (h : prepareSave uuidParse events checks = .ok r) :
    r.consistency = checks.map storedObservation ∧ ValidRequest r := by
  unfold prepareSave at h
  obtain ⟨items, -, h⟩ := Attempt.bind_eq_ok.1 h
  split_ifs at h with hne
  obtain ⟨⟨⟩, hchecks, h⟩ := Attempt.bind_eq_ok.1 h
  cases h
  refine ⟨rfl, fun o ho => ?_⟩
  obtain ⟨check, hcheck, rfl⟩ := List.mem_map.1 ho
  exact valid_storedObservation (Attempt.forM_eq_ok hchecks check hcheck)

theorem stands_prepared {checks : List ConsistencyCheck} {events : List Event}
    (h : r.consistency = checks.map storedObservation) :
    Stands events r ↔ ∀ check ∈ checks, standing tagHolds events check.criteria = check.position := by
  unfold Stands standing
  rw [h, List.forall_mem_map]
  simp only [storedObservation, queryHolds_encodeReadCriteria]

def StoredEvent.event (e : StoredEvent) : Event := ⟨e.position, e.data⟩

def Log.eventList (log : Log) : List Event := log.events.map StoredEvent.event

theorem events_eq (t : Tables) : t.events.map EventRow.event = t.log.eventList := by
  unfold Log.eventList Tables.log
  rw [List.map_map]
  rfl

def Outcome.answer : Outcome → Answer
  | .accepted p => .accepted p
  | .conflict _ _ => .conflict

theorem firstConflict_eq_none {log : Log} :
    log.firstConflict r.consistency = none ↔ Stands log.eventList r := by
  unfold Log.firstConflict Stands
  rw [List.findSome?_eq_none_iff]
  refine forall₂_congr fun o _ => ?_
  have hlatest : log.latest o.criteria = latestPosition
      ((log.eventList.filter fun e => queryHolds o.criteria e.data).map Event.position) := by
    unfold Log.latest Log.matching Log.eventList
    rw [List.filter_map, List.map_map]
    rfl
  rw [← hlatest]
  split_ifs with he <;> simp [he]

variable {st : Statement}

theorem serves_saveAll : ∀ {requests : List Request} {log final : Log} {outs : List Outcome},
    log.Sound → log.saveAll st requests = some (final, outs) →
      Serves Stands final.eventList log.eventList (requests.zip (outs.map Outcome.answer)) ∧
      outs.length = requests.length
  | [], log, final, outs, h, hs => by
    cases hs
    exact ⟨rfl, rfl⟩
  | r :: requests, log, final, outs, h, hs => by
    simp only [Log.saveAll, Option.bind_eq_some_iff, Option.map_eq_some_iff] at hs
    obtain ⟨⟨log1, o⟩, h1, ⟨final', outs'⟩, h2, he⟩ := hs
    cases he
    obtain ⟨hserves, hlen⟩ := serves_saveAll (h.save h1) h2
    obtain ⟨c, hc, rfl, rfl⟩ | ⟨hc, p, ha, rfl⟩ := Log.save_cases h1
    · refine ⟨⟨by simp [Outcome.answer, Answer.isAccepted], fun _ hst => ?_, by
        simp [Outcome.answer, GrowingLog.Above], ?_⟩, by simp [hlen]⟩
      · rw [firstConflict_eq_none.2 hst] at hc
        cases hc
      · rw [Outcome.answer, added_conflict, List.append_nil]
        exact hserves
    · obtain ⟨⟨-, ⟨new, hnew, -, hgt⟩, -⟩, -⟩ := Log.extends_saveAll (h.append ha) h2
      obtain ⟨-, hp, es, hes, rfl⟩ := Log.append_eq_some ha
      have hn := one_le_events r
      have hadded : (Answer.accepted p).added final'.eventList = es.map StoredEvent.event := by
        unfold Log.eventList
        rw [hnew, List.map_append, List.map_append]
        refine added_accepted ?_ ?_ ?_
        · refine List.forall_mem_map.2 fun e he => ?_
          have := (h.events e he).2.2
          rw [hp]
          simp only [StoredEvent.event]
          omega
        · refine List.forall_mem_map.2 fun e he => ?_
          rw [hp]
          exact ((storedEvents_spec hes).1 e he).1
        · refine List.forall_mem_map.2 fun e he => ?_
          rw [hp]
          exact hgt e he
      have hlist : Log.eventList ⟨log.events ++ es,
          log.writes ++ [⟨log.sequence + r.events.length - 1, r.consistency⟩],
          log.sequence + r.events.length⟩ = log.eventList ++ es.map StoredEvent.event :=
        List.map_append
      rw [hlist] at hserves
      refine ⟨⟨fun _ => firstConflict_eq_none.1 hc, by simp [Outcome.answer], ?_, ?_⟩,
        by simp [hlen]⟩
      · rw [Outcome.answer, hadded]
        intro x hx y hy
        obtain ⟨e, he, rfl⟩ := List.mem_map.1 hx
        obtain ⟨d, hd, rfl⟩ := List.mem_map.1 hy
        exact (h.new_events hes).2 e he d hd
      · rw [Outcome.answer, hadded]
        exact hserves

theorem mapSaveError_conflictMessage (expected actual : Position) :
    mapSaveError (conflictMessage expected actual) = .conflict := by
  have hhead : ("OptimisticConcurrencyException:StreamVersionConflict: Expected (").toList
      = "OptimisticConcurrencyException".toList
        ++ ":StreamVersionConflict: Expected (".toList := by decide
  unfold mapSaveError conflictMessage
  simp only [String.toList_append, hhead, List.append_assoc]
  exact if_pos (List.prefix_append ..).isInfix

theorem rowAnswer_outcomeRow (o : Outcome) (i : ℕ) :
    rowAnswer (outcomeRow (o, i)) = .ok o.answer := by
  rcases o with p | ⟨expected, actual⟩
  · rfl
  · simp only [outcomeRow, rowAnswer, mapSaveError_conflictMessage, Outcome.answer]

theorem addOutcome_next (done : List Answer) (o : Outcome) (n : ℕ) :
    addOutcome (done.map some ++ List.replicate (n + 1) none) (outcomeRow (o, done.length))
      = .ok ((done ++ [o.answer]).map some ++ List.replicate n none) := by
  have hindex : (outcomeRow (o, done.length)).requestIndex = done.length := by
    rcases o with p | ⟨expected, actual⟩ <;> rfl
  unfold addOutcome
  rw [hindex, List.getElem?_append_right (by simp), List.length_map, Nat.sub_self,
    List.replicate_succ, List.getElem?_cons_zero]
  simp only [rowAnswer_outcomeRow, Except.map]
  rw [List.set_append_right _ _ (by simp), List.length_map, Nat.sub_self, List.set_cons_zero]
  simp

theorem foldlM_addOutcome : ∀ (outs : List Outcome) (done : List Answer),
    ((outs.zipIdx done.length).map outcomeRow).foldlM addOutcome
      (done.map some ++ List.replicate outs.length none)
      = .ok ((done ++ outs.map Outcome.answer).map some)
  | [], done => by
    simp
    rfl
  | o :: outs, done => by
    have ih := foldlM_addOutcome outs (done ++ [o.answer])
    rw [List.length_append, List.length_singleton, List.append_assoc] at ih
    rw [List.zipIdx_cons, List.map_cons, List.foldlM_cons, List.length_cons, addOutcome_next]
    exact ih

theorem readOutcomes_outcomeRows (outs : List Outcome) :
    readOutcomes outs.length (outcomeRows outs) = .ok (outs.map Outcome.answer) := by
  have hfold := foldlM_addOutcome outs []
  simp only [List.map_nil, List.nil_append, List.length_nil] at hfold
  have hall : (((outs.map Outcome.answer).map some).mapM id : Option (List Answer))
      = some (outs.map Outcome.answer) := by
    generalize outs.map Outcome.answer = answers
    induction answers with
    | nil => rfl
    | cons a answers ih =>
      rw [List.map_cons, List.mapM_cons, ih]
      rfl
  unfold readOutcomes outcomeRows
  rw [hfold]
  simp only [bind, Except.bind, hall]

theorem placed_rows (h : t.log.Sound) :
    ∀ row ∈ t.events, notExistsPosition < row.position :=
  fun row hrow => h.placed row.stored (List.mem_map_of_mem hrow)

theorem execute_serves {t' : Tables} {requests : List Request} {answers : List Answer}
    (h : t.log.Sound) (hv : ∀ r ∈ requests, ValidRequest r)
    (hex : ((insertEventRequestsV2 st t requests).toOption.bind fun r =>
      (readOutcomes requests.length r.2).toOption.map fun answers => (r.1, answers))
        = some (t', answers)) :
    t'.log.Sound ∧ answers.length = requests.length ∧
      Serves Stands (t'.events.map EventRow.event) (t.events.map EventRow.event)
        (requests.zip answers) := by
  obtain ⟨⟨u, rows⟩, hins, hu⟩ := Option.bind_eq_some_iff.1 hex
  obtain ⟨outs, hall, hrows⟩ := insertEventRequestsV2_eq_ok h hv (Attempt.toOption_eq_some.1 hins)
  obtain ⟨hserves, hlen⟩ := serves_saveAll h hall
  obtain ⟨-, hsound⟩ := Log.extends_saveAll h hall
  obtain ⟨answers', ha, he⟩ := Option.map_eq_some_iff.1 hu
  rw [hrows, ← hlen, readOutcomes_outcomeRows] at ha
  cases he
  cases ha
  rw [events_eq, events_eq]
  exact ⟨hsound, (List.length_map ..).trans hlen, hserves⟩

/-- The laws hold of every boundary whose rows have been committed. -/
def lawful (uuidParse : String → Bool) : Lawful (backend uuidParse) tagHolds where
  Sound t := t.log.Sound
  Stands := Stands
  placed := fun h => List.forall_mem_map.2 (placed_rows h)
  read := by
    intro t criteria p h hr
    obtain ⟨batch, hb, rfl⟩ := Option.map_eq_some_iff.1 hr
    exact getLatestByCriteria_eq_ok (Attempt.toOption_eq_some.1 hb) (placed_rows h)
  prepare := fun h _ _ => stands_prepared (prepareSave_eq_ok (Attempt.toOption_eq_some.1 h)).1
  execute := by
    intro st t requests t' answers h hprepared hex
    refine execute_serves h (fun r hr => ?_) hex
    obtain ⟨checks, events, hp⟩ := hprepared r hr
    exact (prepareSave_eq_ok (Attempt.toOption_eq_some.1 hp)).2
  rollback := fun h => ⟨h.draw (Int.le_add_of_nonneg_right (Int.natCast_nonneg _)), rfl⟩

end Orisun.Postgres
