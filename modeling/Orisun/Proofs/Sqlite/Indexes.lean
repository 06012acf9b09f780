import Orisun.Lib.Attempt
import Orisun.Sqlite.Indexes

/-!
# What the rows say of the indexes

A row is found, and an index verified, under its exact name. As long as no call names an index that
is there in other letters, the statements find the same index, and each row stays with its index.
-/

namespace Orisun.Sqlite

variable {finiteFloat : String → Option String}

theorem defaultCombinator_idem (c : String) :
    defaultCombinator (defaultCombinator c) = defaultCombinator c := by
  by_cases h : c = ""
  · simp [defaultCombinator, h, indexCombinatorAND]
  · simp [defaultCombinator, h]

theorem normalizeIndexValueType_mem (t : String) :
    normalizeIndexValueType t ∈ ["numeric", "boolean", "timestamptz", "text"] := by
  unfold normalizeIndexValueType
  split <;> simp

theorem normalizeIndexValueType_idem (t : String) :
    normalizeIndexValueType (normalizeIndexValueType t) = normalizeIndexValueType t := by
  have hall : ∀ u ∈ ["numeric", "boolean", "timestamptz", "text"],
      normalizeIndexValueType u = u := by
    decide +kernel
  exact hall _ (normalizeIndexValueType_mem t)

theorem normalizeField_idem (f : BoundaryIndexField) :
    normalizeField (normalizeField f) = normalizeField f := by
  simp [normalizeField, normalizeIndexValueType_idem]

theorem buildDDL_recorded {name ddl : String} {d : IndexDefinition}
    {fields : List BoundaryIndexField}
    (h : buildSQLiteBoundaryIndexDDL finiteFloat name d = .ok (ddl, fields)) :
    buildSQLiteBoundaryIndexDDL finiteFloat name
      ⟨fields, d.conditions, defaultCombinator d.combinator⟩ = .ok (ddl, fields) := by
  unfold buildSQLiteBoundaryIndexDDL at h ⊢
  split at h
  · simp at h
  · split_ifs at h with hne
    obtain ⟨w, hw, heq⟩ := Attempt.map_eq_ok.1 h
    obtain ⟨hddl, rfl⟩ := Prod.mk.inj heq
    have hmap : (d.fields.map normalizeField).map normalizeField = d.fields.map normalizeField := by
      simp [normalizeField_idem]
    simp only [List.map_eq_nil_iff, hne, if_false, hmap, defaultCombinator_idem, hw]
    exact congrArg Except.ok (Prod.ext hddl rfl)

theorem idx_inj {a b : String} (h : a ++ "_idx" = b ++ "_idx") : a = b := by
  simpa [← String.toList_inj] using h

namespace IndexStore

variable {s : IndexStore} {name ddl : String} {d : IndexDefinition}

variable {r : IndexRow}

theorem findRow_eq_some (h : s.findRow name = some r) :
    r ∈ s.rows ∧ r.name = name :=
  ⟨List.mem_of_find?_eq_some h, by simpa using List.find?_some h⟩

theorem findRow_isSome_of_mem (h : r ∈ s.rows) : (s.findRow r.name).isSome := by
  rw [findRow, List.find?_isSome]
  exact ⟨r, h, by simp⟩

theorem findIndex_eq_some {i : PhysicalIndex} (h : s.findIndex name = some i) :
    i ∈ s.indexes ∧ i.name = name :=
  ⟨List.mem_of_find?_eq_some h, by simpa using List.find?_some h⟩

theorem Truthful.findRow (h : s.Truthful finiteFloat) (hr : r ∈ s.rows) :
    s.findRow r.name = some r := by
  obtain ⟨q, hq⟩ := Option.isSome_iff_exists.1 (findRow_isSome_of_mem hr)
  obtain ⟨hmem, hname⟩ := findRow_eq_some hq
  rw [hq, List.inj_on_of_nodup_map h.rows_nodup hmem hr hname]

theorem Truthful.findIndex_none (h : s.Truthful finiteFloat) (hr : s.findRow name = none) :
    ∀ i ∈ s.indexes, i.name ≠ name ++ "_idx" := by
  intro i hi hname
  obtain ⟨r, hrm, hrname, -⟩ := h.row_of_index i hi
  have hsome := findRow_isSome_of_mem hrm
  rw [idx_inj (hrname.symm.trans hname), hr] at hsome
  simp at hsome

theorem createBoundaryIndex_of_row (h : s.Truthful finiteFloat) (hr : r ∈ s.rows) (fails : Bool)
    (d : IndexDefinition) :
    (s.createBoundaryIndex finiteFloat fails r.name d).1 = s := by
  unfold createBoundaryIndex
  split
  · rfl
  · split
    · rfl
    · split_ifs
      · rfl
      · obtain ⟨i, hi, hname, -⟩ := h.index_of_row r hr
        have hany : (s.indexes.any fun i => sameIndexName i.name (r.name ++ "_idx")) = true :=
          List.any_eq_true.2 ⟨i, hi, by simp [sameIndexName, hname]⟩
        simp [createIndex, hany, insertRow, findRow_isSome_of_mem hr]

theorem createBoundaryIndex_equivalent (h : s.Truthful finiteFloat) (hr : r ∈ s.rows)
    {fields fields' : List BoundaryIndexField}
    (hd : buildSQLiteBoundaryIndexDDL finiteFloat r.name d = .ok (ddl, fields))
    (hrd : buildSQLiteBoundaryIndexDDL finiteFloat r.name r.definition = .ok (ddl, fields')) :
    (s.createBoundaryIndex finiteFloat false r.name d).2 = .ok () := by
  have hmeta : s.verifyMetadata finiteFloat r.name ddl = .ok () := by
    simp [verifyMetadata, h.findRow hr, hrd]
  have hphys : s.verifyPhysical r.name ddl = .ok () := by
    unfold verifyPhysical
    split
    · rfl
    · rename_i i hi
      obtain ⟨hmem, hname⟩ := findIndex_eq_some hi
      obtain ⟨q, hq, hqname, ddl', fields'', hqd, hsql⟩ := h.row_of_index i hmem
      obtain rfl : q = r := List.inj_on_of_nodup_map h.rows_nodup hq hr
        (idx_inj (hqname.symm.trans hname))
      rw [hrd] at hqd
      obtain ⟨rfl, -⟩ := Prod.mk.inj (Except.ok.inj hqd)
      simp [hsql]
  simp [createBoundaryIndex, hd, verifyBoundaryIndexDefinition, hmeta, hphys, bind, Except.bind]

theorem createBoundaryIndex_different (h : s.Truthful finiteFloat) (hr : r ∈ s.rows) {ddl' : String}
    {fields fields' : List BoundaryIndexField} (fails : Bool)
    (hd : buildSQLiteBoundaryIndexDDL finiteFloat r.name d = .ok (ddl, fields))
    (hrd : buildSQLiteBoundaryIndexDDL finiteFloat r.name r.definition = .ok (ddl', fields'))
    (hne : ddl' ≠ ddl) :
    (s.createBoundaryIndex finiteFloat fails r.name d).2 =
      .error (.differentDefinition r.name) := by
  have hmeta : s.verifyMetadata finiteFloat r.name ddl = .error (.differentDefinition r.name) := by
    simp [verifyMetadata, h.findRow hr, hrd, hne]
  simp [createBoundaryIndex, hd, verifyBoundaryIndexDefinition, hmeta, bind, Except.bind]

theorem Truthful.append (h : s.Truthful finiteFloat) {i : PhysicalIndex}
    (hr : s.findRow r.name = none) (hrec : r.Records finiteFloat i) :
    Truthful finiteFloat ⟨s.rows ++ [r], s.indexes ++ [i]⟩ where
  rows_nodup := by
    have hnew : ∀ q ∈ s.rows, q.name ≠ r.name := by
      intro q hq he
      have := findRow_isSome_of_mem hq
      simp [he, hr] at this
    simpa [List.nodup_append, h.rows_nodup] using hnew
  indexes_nodup := by
    simpa [List.nodup_append, h.indexes_nodup, hrec.1] using h.findIndex_none hr
  index_of_row := by
    intro q hq
    rcases List.mem_append.1 hq with hq | hq
    · obtain ⟨j, hj, hqj⟩ := h.index_of_row q hq
      exact ⟨j, List.mem_append_left _ hj, hqj⟩
    · obtain rfl := List.mem_singleton.1 hq
      exact ⟨i, by simp, hrec⟩
  row_of_index := by
    intro j hj
    rcases List.mem_append.1 hj with hj | hj
    · obtain ⟨q, hq, hqj⟩ := h.row_of_index j hj
      exact ⟨q, List.mem_append_left _ hq, hqj⟩
    · obtain rfl := List.mem_singleton.1 hj
      exact ⟨r, by simp, hrec⟩

theorem Truthful.create (h : s.Truthful finiteFloat) (fails : Bool)
    (htwin : IndexCall.NoTwin s (.create fails name d)) :
    (s.createBoundaryIndex finiteFloat fails name d).1.Truthful finiteFloat := by
  rcases hrow : s.findRow name with _ | r
  · unfold createBoundaryIndex
    split
    · exact h
    · rename_i ddl fields hd
      split
      · exact h
      · split_ifs
        · exact h
        · have hfree := h.findIndex_none hrow
          have hany : (s.indexes.any fun i => sameIndexName i.name (name ++ "_idx")) = false := by
            rw [List.any_eq_false]
            exact fun i hi hsame => hfree i hi (htwin i hi hsame)
          have hnone : ({ s with indexes := s.indexes ++ [⟨name ++ "_idx", schemaSql ddl⟩] } :
              IndexStore).findRow name = none := hrow
          simp only [createIndex, hany, Bool.false_eq_true, if_false, insertRow, hnone,
            Option.isSome_none]
          exact h.append (r := ⟨name, fields, d.conditions, defaultCombinator d.combinator⟩)
            (i := ⟨name ++ "_idx", schemaSql ddl⟩) hrow
            ⟨rfl, ddl, fields, buildDDL_recorded hd, rfl⟩
  · obtain ⟨hr, rfl⟩ := findRow_eq_some hrow
    rw [createBoundaryIndex_of_row h hr]
    exact h

theorem Truthful.drop (h : s.Truthful finiteFloat) (fails : Bool)
    (htwin : IndexCall.NoTwin s (.drop fails name)) :
    (s.dropBoundaryIndex fails name).1.Truthful finiteFloat := by
  -- the index that goes is the one of the row that goes
  have hkept : ∀ i ∈ s.indexes,
      (!sameIndexName i.name (name ++ "_idx")) = true ↔ i.name ≠ name ++ "_idx" := by
    intro i hi
    rw [Bool.not_eq_true']
    constructor
    · rintro hsame he
      simp [he, sameIndexName] at hsame
    · intro hne
      by_contra hsame
      exact hne (htwin i hi (by simpa [IndexCall.name] using hsame))
  unfold dropBoundaryIndex
  split
  · exact h
  · split_ifs
    · exact h
    · refine ⟨h.rows_nodup.sublist (List.filter_sublist.map _),
        h.indexes_nodup.sublist (List.filter_sublist.map _), fun r hr => ?_, fun i hi => ?_⟩
      · obtain ⟨hr, hne⟩ := List.mem_filter.1 hr
        obtain ⟨i, hi, hrec⟩ := h.index_of_row r hr
        refine ⟨i, List.mem_filter.2 ⟨hi, (hkept i hi).2 fun he => ?_⟩, hrec⟩
        exact of_decide_eq_true hne (idx_inj (hrec.1.symm.trans he))
      · obtain ⟨hi, hne⟩ := List.mem_filter.1 hi
        obtain ⟨r, hr, hrec⟩ := h.row_of_index i hi
        refine ⟨r, List.mem_filter.2 ⟨hr, decide_eq_true fun he => ?_⟩, hrec⟩
        exact (hkept i hi).1 hne (he ▸ hrec.1)

end IndexStore

open IndexStore

theorem IndexCall.step_truthful {s t : IndexStore} {c : IndexCall} (h : s.Truthful finiteFloat)
    (htwin : c.NoTwin s) (hs : c.step finiteFloat s = some t) : t.Truthful finiteFloat := by
  rcases c with ⟨fails, name, d⟩ | ⟨fails, name⟩
  · cases hs
    exact h.create fails htwin
  · cases hs
    exact h.drop fails htwin

theorem truthful_fresh : fresh.Truthful finiteFloat where
  rows_nodup := List.nodup_nil
  indexes_nodup := List.nodup_nil
  index_of_row := by simp [fresh]
  row_of_index := by simp [fresh]

/-- As long as no call names an index that is there in other letters, rows and indexes correspond
after each call, and under the name of a row nothing changes but by dropping it. -/
theorem indexMetadata_truthful (finiteFloat : String → Option String) (cs : List IndexCall)
    (s : IndexStore)
    (htwin : Transition.Along (IndexCall.step finiteFloat) (fun s c => c.NoTwin s) fresh cs)
    (hrun : Transition.run (IndexCall.step finiteFloat) fresh cs = some s) :
    s.Truthful finiteFloat ∧ ∀ r ∈ s.rows, ∀ d fails,
      (s.createBoundaryIndex finiteFloat fails r.name d).1 = s ∧
      ∀ ddl fields ddl' fields',
        buildSQLiteBoundaryIndexDDL finiteFloat r.name d = .ok (ddl, fields) →
        buildSQLiteBoundaryIndexDDL finiteFloat r.name r.definition = .ok (ddl', fields') →
        (ddl' ≠ ddl → (s.createBoundaryIndex finiteFloat fails r.name d).2 =
          .error (.differentDefinition r.name)) ∧
        (ddl' = ddl → (s.createBoundaryIndex finiteFloat false r.name d).2 = .ok ()) := by
  have h : s.Truthful finiteFloat := Transition.run_invariant_along
    (fun _ _ _ h ht hs => IndexCall.step_truthful h ht hs) truthful_fresh htwin hrun
  refine ⟨h, fun r hr d fails => ⟨createBoundaryIndex_of_row h hr fails d, ?_⟩⟩
  intro ddl fields ddl' fields' hd hrd
  refine ⟨fun hne => createBoundaryIndex_different h hr fails hd hrd hne, ?_⟩
  rintro rfl
  exact createBoundaryIndex_equivalent h hr hd hrd

def textIndex (key : String) : IndexDefinition := ⟨[⟨key, "text"⟩], [], ""⟩

theorem indexMetadata_truthful_guard : ∃ s,
    Transition.run (IndexCall.step fun _ => none) fresh
      [.create false "guard" (textIndex "value"), .create false "guard" (textIndex "other"),
        .create false "other" (textIndex "value"), .drop false "guard"] = some s ∧
    s.rows.length = 1 ∧ s.Truthful fun _ => none := by
  obtain ⟨s, hs, hp⟩ := Transition.exists_run fresh
    [.create false "guard" (textIndex "value"), .create false "guard" (textIndex "other"),
      .create false "other" (textIndex "value"), .drop false "guard"]
    (fun s => decide (s.rows.length = 1))
    (by decide +kernel : (Transition.run (IndexCall.step fun _ => none) _ _).any _ = true)
  refine ⟨s, hs, of_decide_eq_true hp, (indexMetadata_truthful _ _ s ?_ hs).1⟩
  refine Transition.along_of_checkAlong (p := fun s c => s.indexes.all fun i =>
    !sameIndexName i.name (c.name ++ "_idx") || decide (i.name = c.name ++ "_idx")) ?_
    (by decide +kernel)
  intro s c hall i hi hsame
  have h := List.all_eq_true.1 hall i hi
  simpa [hsame] using h

/-- Two names in other letters have two rows and one index. Dropping the second leaves the first
row without any. -/
theorem indexMetadata_of_twins : ∃ s t,
    Transition.run (IndexCall.step fun _ => none) fresh
      [.create false "guard" (textIndex "value"), .create false "Guard" (textIndex "other")] =
        some s ∧ (s.rows.length = 2 ∧ s.indexes.length = 1) ∧ (¬s.Truthful fun _ => none) ∧
    IndexCall.step (fun _ => none) s (.drop false "Guard") = some t ∧
      t.rows.length = 1 ∧ t.indexes = [] := by
  obtain ⟨s, hs, hp⟩ := Transition.exists_run fresh
    [.create false "guard" (textIndex "value"), .create false "Guard" (textIndex "other")]
    (fun s => decide ((s.rows.length = 2 ∧ s.indexes.length = 1) ∧
      (∃ r ∈ s.rows, ∀ i ∈ s.indexes, i.name ≠ r.name ++ "_idx") ∧
      (s.dropBoundaryIndex false "Guard").1.rows.length = 1 ∧
      (s.dropBoundaryIndex false "Guard").1.indexes = []))
    (by decide +kernel : (Transition.run (IndexCall.step fun _ => none) _ _).any _ = true)
  obtain ⟨hlen, ⟨r, hr, hno⟩, hrows, hindexes⟩ := of_decide_eq_true hp
  refine ⟨s, _, hs, hlen, fun h => ?_, rfl, hrows, hindexes⟩
  obtain ⟨i, hi, hrec⟩ := h.index_of_row r hr
  exact hno i hi hrec.1

end Orisun.Sqlite
