import Orisun.Lib.Attempt
import Orisun.Postgres.GroupCommit
import Orisun.Proofs.Postgres.Clients

/-!
# The outcomes of a batch are those of a complete result

Each row that is read without an error puts one outcome into a slot that was free, so the loop has
read distinct indexes of requests; that every slot is seen at the end makes them all the indexes.
Rows that the clients' model assembles into answers are complete, and their outcomes report them.
-/

namespace Orisun.Postgres.GroupCommit

open Assembly

variable {s s' : Slots PostgresSaveResult} {x : Except String SqlRow} {row : SqlRow} {count : ℕ}

theorem isSome_outcome : row.outcome.isSome ↔
    row.errorMessage.isSome ∨ row.transactionId.isSome ∧ row.globalId.isSome := by
  unfold SqlRow.outcome
  rcases row.errorMessage with _ | message <;> rcases row.transactionId with _ | tx <;>
    rcases row.globalId with _ | gid <;> simp

def Says (row : SqlRow) (e : ℕ × PostgresSaveResult) : Prop :=
  row.requestIndex = some (e.1 : ℤ) ∧ row.outcome = some e.2

theorem readRow_eq_ok : readRow s x = .ok s' ↔
    ∃ row e, x = .ok row ∧ Says row e ∧ s.seen[e.1]? = some false ∧ s' = s.put e.1 e.2 := by
  constructor
  · intro h
    rcases x with err | row
    · cases h
    simp only [readRow] at h
    split at h
    · cases h
    · rename_i index hindex
      split_ifs at h with hrange hseen
      split at h
      · cases h
      · rename_i outcome houtcome
        obtain ⟨i, rfl⟩ := Int.eq_ofNat_of_zero_le (a := index) (by omega)
        have hlt : i < s.seen.length := by omega
        refine ⟨row, (i, outcome), rfl, ⟨hindex, houtcome⟩, ?_, (Except.ok.inj h).symm⟩
        rw [Int.toNat_natCast, List.getElem?_eq_getElem hlt] at hseen
        rw [List.getElem?_eq_getElem hlt]
        simpa using hseen
  · rintro ⟨row, e, rfl, ⟨hindex, houtcome⟩, hfree, rfl⟩
    have hlt : e.1 < s.seen.length := (List.getElem?_eq_some_iff.1 hfree).1
    have hrange : ¬((e.1 : ℤ) < 0 ∨ (e.1 : ℤ) ≥ s.seen.length) := by omega
    simp only [readRow, hindex, if_neg hrange, Int.toNat_natCast, hfree, houtcome]
    simp

theorem holds_of_foldlM : ∀ {xs : List (Except String SqlRow)} {entries} {s : Slots _},
    Holds count entries s → xs.foldlM readRow s = .ok s' →
    ∃ rows more, xs = rows.map .ok ∧ List.Forall₂ Says rows more ∧ Holds count (entries ++ more) s'
  | [], entries, s, hs, h => by
    cases h
    exact ⟨[], [], rfl, .nil, by rwa [List.append_nil]⟩
  | x :: xs, entries, s, hs, h => by
    rw [List.foldlM_cons] at h
    obtain ⟨s₁, hx, hxs⟩ := Attempt.bind_eq_ok.1 h
    obtain ⟨row, e, rfl, hsaid, hfree, rfl⟩ := readRow_eq_ok.1 hx
    obtain ⟨rows, more, rfl, hrows, hholds⟩ := holds_of_foldlM (hs.put hfree e.2) hxs
    refine ⟨row :: rows, e :: more, rfl, .cons hsaid hrows, ?_⟩
    rwa [List.append_assoc] at hholds

theorem exists_foldlM : ∀ {rows : List SqlRow} {entries more} {s : Slots _},
    Holds count entries s → List.Forall₂ Says rows more →
    ((entries ++ more).map Prod.fst).Nodup → (∀ e ∈ more, e.1 < count) →
    ∃ s', (rows.map .ok).foldlM readRow s = .ok s' ∧ Holds count (entries ++ more) s'
  | [], entries, more, s, hs, hrows, _, _ => by
    obtain rfl := List.forall₂_nil_left_iff.1 hrows
    exact ⟨s, rfl, by rwa [List.append_nil]⟩
  | row :: rows, entries, [], s, _, hrows, _, _ => by cases hrows
  | row :: rows, entries, e :: more, s, hs, hrows, hnodup, hlt => by
    obtain ⟨hsaid, hrows⟩ := List.forall₂_cons.1 hrows
    have hfree : s.seen[e.1]? = some false := by
      refine hs.seen_eq_false.2 ⟨hlt e List.mem_cons_self, fun hmem => ?_⟩
      rw [List.map_append, List.map_cons, List.nodup_append] at hnodup
      exact hnodup.2.2 e.1 hmem e.1 List.mem_cons_self rfl
    rw [← List.singleton_append, ← List.append_assoc] at hnodup
    obtain ⟨s', hs', hholds⟩ := exists_foldlM (hs.put hfree e.2) hrows hnodup
      fun f hf => hlt f (List.mem_cons_of_mem e hf)
    rw [List.append_assoc] at hholds
    refine ⟨s', ?_, hholds⟩
    rw [List.map_cons, List.foldlM_cons, readRow_eq_ok.2 ⟨row, e, rfl, hsaid, hfree, rfl⟩]
    exact hs'

theorem idxOf?_false_eq_none : ∀ {l : List Bool}, l.idxOf? false = none ↔ false ∉ l := by
  intro l
  simp [List.idxOf?]

variable {r : Rows}

theorem collect_eq_ok {outcomes : List PostgresSaveResult} :
    collect count r = .ok outcomes ↔ ∃ rows entries, r = ⟨rows.map .ok, none⟩ ∧
      List.Forall₂ Says rows entries ∧ (entries.map Prod.fst).Perm (List.range count) ∧
      outcomes.length = count ∧ ∀ e ∈ entries, outcomes[e.1]? = some e.2 := by
  have hvacant := holds_vacant count PostgresSaveResult.zero
  unfold collect
  rw [Attempt.bind_eq_ok]
  constructor
  · rintro ⟨s, hfold, h⟩
    obtain ⟨rows, entries, hrows, hsaid, hholds⟩ := holds_of_foldlM hvacant hfold
    rw [List.nil_append] at hholds
    obtain ⟨xs, err⟩ := r
    rcases err with _ | err
    · simp only at h hrows
      split at h
      · cases h
      · rename_i hseen
        cases h
        exact ⟨rows, entries, by rw [hrows], hsaid,
          hholds.all_seen.1 (idxOf?_false_eq_none.1 hseen), hholds.valuesLength, hholds.values⟩
    · cases h
  · rintro ⟨rows, entries, rfl, hsaid, hperm, hlen, hvalues⟩
    obtain ⟨s, hfold, hholds⟩ := exists_foldlM hvacant hsaid (hperm.nodup_iff.2 List.nodup_range)
      fun e he => List.mem_range.1 (hperm.mem_iff.1 (List.mem_map.2 ⟨e, he, rfl⟩))
    rw [List.nil_append] at hholds
    refine ⟨s, hfold, ?_⟩
    simp only [idxOf?_false_eq_none.2 (hholds.all_seen.2 hperm)]
    rw [hholds.eq_values hperm hlen hvalues]

variable {rows : List SqlRow}

theorem map_requestIndex {entries : List (ℕ × PostgresSaveResult)}
    (h : List.Forall₂ Says rows entries) :
    rows.map SqlRow.requestIndex = (entries.map Prod.fst).map fun i : ℕ => some (i : ℤ) := by
  induction h with
  | nil => rfl
  | cons hsaid _ ih => rw [List.map_cons, List.map_cons, List.map_cons, ih, hsaid.1]

theorem perm_iff {entries : List (ℕ × PostgresSaveResult)} (h : List.Forall₂ Says rows entries) :
    (entries.map Prod.fst).Perm (List.range count) ↔
      (rows.map SqlRow.requestIndex).Perm ((List.range count).map fun i : ℕ => some (i : ℤ)) := by
  rw [map_requestIndex h]
  refine (List.map_perm_map_iff ?_).symm
  intro i j hij
  exact Int.ofNat.inj (Option.some.inj hij)

theorem exists_entries : ∀ {rows : List SqlRow},
    (∀ row ∈ rows, ∃ i : ℕ, row.requestIndex = some (i : ℤ)) →
    (∀ row ∈ rows, row.outcome.isSome) → ∃ entries, List.Forall₂ Says rows entries
  | [], _, _ => ⟨[], .nil⟩
  | row :: rows, hindex, houtcome => by
    obtain ⟨i, hi⟩ := hindex row List.mem_cons_self
    obtain ⟨outcome, ho⟩ := Option.isSome_iff_exists.1 (houtcome row List.mem_cons_self)
    obtain ⟨entries, hentries⟩ := exists_entries
      (fun r hr => hindex r (List.mem_cons_of_mem row hr))
      fun r hr => houtcome r (List.mem_cons_of_mem row hr)
    exact ⟨(i, outcome) :: entries, .cons ⟨hi, ho⟩ hentries⟩

theorem Complete.exists_index (h : Complete count r rows) (row : SqlRow) (hrow : row ∈ rows) :
    ∃ i : ℕ, row.requestIndex = some (i : ℤ) := by
  have hmem := h.2.1.mem_iff.1 (List.mem_map.2 ⟨row, hrow, rfl⟩)
  obtain ⟨i, -, hi⟩ := List.mem_map.1 hmem
  exact ⟨i, hi.symm⟩

theorem collect_eq_ok_iff {outcomes : List PostgresSaveResult} :
    collect count r = .ok outcomes ↔ ∃ rows, Complete count r rows ∧ outcomes.length = count ∧
      ∀ row ∈ rows, ∀ i : ℕ, row.requestIndex = some (i : ℤ) → outcomes[i]? = row.outcome := by
  rw [collect_eq_ok]
  constructor
  · rintro ⟨rows, entries, hr, hsaid, hperm, hlen, hvalues⟩
    refine ⟨rows, ⟨hr, (perm_iff hsaid).1 hperm, fun row hrow => ?_⟩, hlen, fun row hrow i hi => ?_⟩
    · obtain ⟨e, -, he⟩ := Attempt.exists_mem_of_forall₂ hsaid hrow
      rw [← isSome_outcome, he.2]
      rfl
    · obtain ⟨e, hmem, hindex, houtcome⟩ := Attempt.exists_mem_of_forall₂ hsaid hrow
      obtain rfl : e.1 = i := Int.ofNat.inj (Option.some.inj (hindex.symm.trans hi))
      rw [houtcome, hvalues e hmem]
  · rintro ⟨rows, hcomplete, hlen, hvalues⟩
    obtain ⟨entries, hsaid⟩ := exists_entries hcomplete.exists_index
      fun row hrow => isSome_outcome.2 (hcomplete.2.2 row hrow)
    refine ⟨rows, entries, hcomplete.1, hsaid, (perm_iff hsaid).2 hcomplete.2.1, hlen,
      fun e he => ?_⟩
    obtain ⟨row, hrow, hindex, houtcome⟩ := Attempt.exists_mem_of_forall₂ hsaid.flip he
    rw [hvalues row hrow e.1 hindex, houtcome]

section Batch

variable {α : Type*} (marshal : List α → Except String String)
  (insertEventRequests : Option (String → Except String Rows)) (boundary : String)
  (requests : List α)

theorem executeBatch_eq_ok {outcomes : List PostgresSaveResult} :
    executeBatch marshal insertEventRequests boundary requests = .ok outcomes ↔
      ∃ r, received marshal insertEventRequests requests = some r ∧
        collect requests.length r = .ok outcomes := by
  rcases insertEventRequests with _ | insertEventRequests
  · simp [executeBatch, received]
  by_cases hlen : requests.length = 0
  · simp only [executeBatch, received, Option.bind_some, if_pos hlen, Option.some.injEq,
      exists_eq_left']
    rw [hlen]
    rfl
  · simp only [executeBatch, received, Option.bind_some, if_neg hlen]
    rcases marshal requests with err | payloadJSON
    · simp [Except.toOption]
    · simp only [Except.toOption, Option.bind_some]
      rcases insertEventRequests payloadJSON with err | r <;> simp

/-- A batch has outcomes exactly where its rows are complete, and the outcome of a request is that
of the row with its index. -/
theorem executeBatch_eq_ok_iff (outcomes : List PostgresSaveResult) :
    executeBatch marshal insertEventRequests boundary requests = .ok outcomes ↔
      ∃ r rows, received marshal insertEventRequests requests = some r ∧
        Complete requests.length r rows ∧ outcomes.length = requests.length ∧
        ∀ row ∈ rows, ∀ i : ℕ, row.requestIndex = some (i : ℤ) →
          outcomes[i]? = row.outcome := by
  rw [executeBatch_eq_ok]
  simp only [collect_eq_ok_iff, exists_and_left]

end Batch

def scanned (row : ResultRow) : SqlRow where
  requestIndex := some row.requestIndex
  newGlobalId := row.newGlobalId
  transactionId := row.latestTransactionId
  globalId := row.latestGlobalId
  errorCode := row.errorCode
  errorMessage := row.errorMessage

def Reports (outcome : PostgresSaveResult) : Answer → Prop
  | .accepted p => outcome = ⟨toString p.commitPosition, p.preparePosition, none⟩
  | .conflict => ∃ err, outcome.err = some err ∧ err.code = .alreadyExists
  | .failed => ∃ err, outcome.err = some err ∧ err.code = .internal

theorem exists_outcome {row : ResultRow} {a : Answer} (h : rowAnswer row = .ok a) :
    ∃ outcome, (scanned row).outcome = some outcome ∧ Reports outcome a := by
  unfold rowAnswer at h
  split at h
  · rename_i message hmessage
    cases h
    refine ⟨{ PostgresSaveResult.zero with err := some (mapSaveError message) }, ?_, ?_⟩
    · simp only [SqlRow.outcome, scanned, hmessage]
    unfold Postgres.mapSaveError mapSaveError
    split_ifs
    · exact ⟨_, rfl, rfl⟩
    · exact ⟨_, rfl, rfl⟩
  · rename_i tx gid hmessage htx hgid
    cases h
    refine ⟨⟨toString tx, gid, none⟩, ?_, rfl⟩
    simp only [SqlRow.outcome, scanned, hmessage, htx, hgid]
  · cases h

/-- The slots that are seen are those with an answer, and their outcomes report it. -/
structure Agrees (answers : List (Option Answer)) (s : Slots PostgresSaveResult) : Prop where
  seen : s.seen = answers.map Option.isSome
  length : s.values.length = answers.length
  reports : ∀ (i : ℕ) a, answers[i]? = some (some a) → ∃ outcome, s.values[i]? = some outcome ∧
    Reports outcome a

theorem agrees_vacant : Agrees (List.replicate count none) (Slots.vacant count .zero) where
  seen := by simp [Slots.vacant]
  length := by simp [Slots.vacant]
  reports i a h := by simp [List.getElem?_replicate] at h

theorem Agrees.addOutcome {answers answers' : List (Option Answer)} {row : ResultRow}
    (h : Agrees answers s) (hrow : addOutcome answers row = .ok answers') :
    ∃ s', readRow s (.ok (scanned row)) = .ok s' ∧ Agrees answers' s' := by
  unfold Postgres.addOutcome at hrow
  split at hrow
  · cases hrow
  · cases hrow
  rename_i hfree
  obtain ⟨a, ha, rfl⟩ := Attempt.map_eq_ok.1 hrow
  obtain ⟨outcome, houtcome, hreports⟩ := exists_outcome ha
  have hlt : row.requestIndex < answers.length := (List.getElem?_eq_some_iff.1 hfree).1
  refine ⟨s.put row.requestIndex outcome, readRow_eq_ok.2
    ⟨scanned row, (row.requestIndex, outcome), rfl, ⟨rfl, houtcome⟩, ?_, rfl⟩, ?_, ?_, ?_⟩
  · rw [h.seen, List.getElem?_map, hfree]
    rfl
  · rw [List.map_set, ← h.seen]
    rfl
  · simp [Slots.put, h.length]
  · intro i b hb
    rw [List.getElem?_set] at hb
    by_cases hi : row.requestIndex = i
    · subst hi
      rw [if_pos rfl, if_pos hlt] at hb
      obtain rfl := Option.some.inj (Option.some.inj hb)
      exact ⟨outcome, by simp [Slots.put, h.length, hlt], hreports⟩
    · rw [if_neg hi] at hb
      obtain ⟨other, hother, hb⟩ := h.reports i b hb
      exact ⟨other, by simpa [Slots.put, List.getElem?_set, hi] using hother, hb⟩

theorem collect_scanned {rows : List ResultRow} {answers : List Answer}
    (h : Postgres.readOutcomes count rows = .ok answers) :
    ∃ outcomes, collect count ⟨(rows.map scanned).map .ok, none⟩ = .ok outcomes ∧
      List.Forall₂ Reports outcomes answers := by
  unfold Postgres.readOutcomes at h
  obtain ⟨slots, hfold, h⟩ := Attempt.bind_eq_ok.1 h
  split at h
  · rename_i answers' hall
    obtain rfl := Except.ok.inj h
    obtain ⟨s, hs, hagrees⟩ := Attempt.foldlM_simulation
      (e := fun row => Except.ok (scanned row)) (R := Agrees)
      (fun _ _ _ _ hst hx => hst.addOutcome hx) agrees_vacant hfold
    obtain rfl : slots = answers'.map some := by
      rw [← List.forall₂_eq_eq_eq, List.forall₂_map_right_iff]
      exact Attempt.forall₂_of_mapM hall
    have hseen : false ∉ s.seen := by
      rw [hagrees.seen]
      simp
    refine ⟨s.values, ?_, ?_⟩
    · unfold collect
      rw [List.map_map, Attempt.bind_eq_ok]
      exact ⟨s, hs, by simp only [idxOf?_false_eq_none.2 hseen]⟩
    · refine List.forall₂_iff_get.2 ⟨by rw [hagrees.length, List.length_map], fun i hi ha => ?_⟩
      obtain ⟨outcome, houtcome, hreports⟩ := hagrees.reports i answers'[i] (by simp [ha])
      rw [List.getElem?_eq_getElem hi] at houtcome
      obtain rfl := Option.some.inj houtcome
      exact hreports
  · cases h

/-- What `executeBatch` makes of the rows of `insert_event_requests_v2` reports to each request the
outcome it has when the requests are saved one after another. -/
theorem collect_insertEventRequestsV2 (st : Statement) (boundary : Boundary) (requests : List Request)
    (hv : ∀ r ∈ requests, ValidRequest r) {t : Tables} {rows : List ResultRow}
    (h : insertEventRequestsV2 st boundary.tables requests = .ok (t, rows)) :
    ∃ outs outcomes, boundary.tables.log.saveAll st requests = some (t.log, outs) ∧
      collect requests.length ⟨(rows.map scanned).map .ok, none⟩ = .ok outcomes ∧
      List.Forall₂ Reports outcomes (outs.map Outcome.answer) := by
  obtain ⟨outs, hall, rfl⟩ := insertEventRequestsV2_eq_ok boundary.sound hv h
  obtain ⟨-, hlen⟩ := serves_saveAll boundary.sound hall
  rw [← hlen]
  obtain ⟨outcomes, hcollect, hreports⟩ := collect_scanned (readOutcomes_outcomeRows outs)
  exact ⟨outs, outcomes, hall, hcollect, hreports⟩

theorem collect_insertEventRequestsV2_sample : ∃ t rows outs outcomes,
    insertEventRequestsV2 sampleStatement freshBoundary.tables [sampleRequest, sampleRequest]
        = .ok (t, rows) ∧
      freshBoundary.tables.log.saveAll sampleStatement [sampleRequest, sampleRequest]
        = some (t.log, outs) ∧
      collect 2 ⟨(rows.map scanned).map .ok, none⟩ = .ok outcomes ∧
      List.Forall₂ Reports outcomes (outs.map Outcome.answer) := by
  have hv : ∀ r ∈ [sampleRequest, sampleRequest], ValidRequest r := by decide
  have hok := congrArg Option.isSome
    (@insertEventRequestsV2_eq sampleStatement _ _ freshBoundary.sound (by simp) hv)
  rw [Option.isSome_map, Option.isSome_map] at hok
  obtain ⟨⟨t, rows⟩, hins⟩ := Option.isSome_iff_exists.1 (hok.trans (by decide))
  have hins := Attempt.toOption_eq_some.1 hins
  obtain ⟨outs, outcomes, h⟩ :=
    collect_insertEventRequestsV2 sampleStatement freshBoundary _ hv hins
  exact ⟨t, rows, outs, outcomes, hins, h⟩

end Orisun.Postgres.GroupCommit
