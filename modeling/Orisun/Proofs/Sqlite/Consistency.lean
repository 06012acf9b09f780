import Orisun.Proofs.Sqlite.Predicate

/-!
# A prepared check stands where its query stands

Dropping a criterion that another one of the query contains changes no match
(`any_minimalCriteria`), so the lookups of a prepared check together find the latest event of the
full query.
-/

namespace Orisun.Sqlite

/-- `P` passes from a criterion to the criteria it contains. -/
def PassesDown (P : CriterionLookup → Bool) : Prop :=
  ∀ l l' : CriterionLookup, criterionContains l.criterion l'.criterion = true → P l = true →
    P l' = true

variable {P : CriterionLookup → Bool}

theorem any_addMinimal (hP : PassesDown P) (minimal : List CriterionLookup)
    (candidate : CriterionLookup) :
    (addMinimal minimal candidate).any P = true ↔ minimal.any P = true ∨ P candidate = true := by
  unfold addMinimal
  split_ifs with hc
  · refine ⟨.inl, fun h => h.elim id fun hp => ?_⟩
    obtain ⟨l, hl, hcl⟩ := List.any_eq_true.1 hc
    exact List.any_eq_true.2 ⟨l, hl, hP _ _ hcl hp⟩
  · simp only [List.any_append, Bool.or_eq_true, List.any_eq_true, List.mem_filter,
      List.any_cons, List.any_nil, Bool.or_false]
    constructor
    · rintro (⟨l, ⟨hl, -⟩, hp⟩ | hp)
      · exact .inl ⟨l, hl, hp⟩
      · exact .inr hp
    · rintro (⟨l, hl, hp⟩ | hp)
      · by_cases hcl : criterionContains l.criterion candidate.criterion = true
        · exact .inr (hP _ _ hcl hp)
        · exact .inl ⟨l, ⟨hl, by simpa using hcl⟩, hp⟩
      · exact .inr hp

theorem any_foldl_addMinimal (hP : PassesDown P) :
    ∀ {ls minimal : List CriterionLookup},
      (ls.foldl addMinimal minimal).any P = true ↔ minimal.any P = true ∨ ls.any P = true
  | [], minimal => by simp
  | l :: ls, minimal => by
    rw [List.foldl_cons, any_foldl_addMinimal hP, any_addMinimal hP, List.any_cons,
      Bool.or_eq_true, or_assoc]

theorem any_minimalCriteria (hP : PassesDown P) (ls : List CriterionLookup) :
    (minimalCriteria ls).any P = ls.any P := by
  rw [Bool.eq_iff_iff, minimalCriteria, any_foldl_addMinimal hP]
  simp

theorem criterion_of_contains {tag : Meaning.TagHolds} {c s : EncodedCriterion} {data : Json}
    (h : criterionContains c s = true) (hc : Meaning.criterion tag c data = true) :
    Meaning.criterion tag s data = true := by
  unfold criterionContains at h
  split_ifs at h
  rw [Meaning.criterion, List.all_eq_true] at hc ⊢
  intro f hf
  have hl := List.all_eq_true.1 h f hf
  exact hc f (Fields.mem_of_lookup (by simpa using hl))

theorem passesDown_criterion (tag : Meaning.TagHolds) (data : Json) :
    PassesDown fun l => Meaning.criterion tag l.criterion data :=
  fun _ _ hc h => criterion_of_contains hc h

variable {fns : JsonFunctions}

def Rendered (l : CriterionLookup) : Prop := buildCriteriaSQL l.criterion = .ok l.parts

variable {l : CriterionLookup}

theorem criterionLookup_eq_ok {c : EncodedCriterion} (h : criterionLookup c = .ok l) :
    l.criterion = c ∧ Rendered l := by
  obtain ⟨parts, hp, rfl⟩ := Attempt.map_eq_ok.1 h
  exact ⟨rfl, hp⟩

theorem mem_addMinimal {candidate : CriterionLookup} {minimal : List CriterionLookup}
    (h : l ∈ addMinimal minimal candidate) : l ∈ minimal ∨ l = candidate := by
  unfold addMinimal at h
  split_ifs at h
  · exact .inl h
  · simp only [List.mem_append, List.mem_filter, List.mem_singleton] at h
    exact h.imp And.left id

theorem mem_foldl_addMinimal : ∀ {ls minimal : List CriterionLookup},
    l ∈ ls.foldl addMinimal minimal → l ∈ minimal ∨ l ∈ ls
  | [], minimal, h => .inl h
  | k :: ls, minimal, h => by
    rw [List.foldl_cons] at h
    rcases mem_foldl_addMinimal h with hm | hl
    · exact (mem_addMinimal hm).imp id fun he => List.mem_cons.2 (.inl he)
    · exact .inr (List.mem_cons_of_mem k hl)

theorem encoded_tagged (criteria : List ReadCriterion) :
    (encodeReadCriteria criteria).filter (·.fields ≠ [])
      = (tagged criteria).map fun c => encodeCriterion c.tags := by
  unfold encodeReadCriteria tagged
  rw [List.filter_map]
  congr 1
  refine List.filter_congr fun c _ => ?_
  simp only [Function.comp_apply, ne_eq, fields_encodeCriterion_eq_nil]

variable {criteria : List ReadCriterion}

theorem any_queries {queries : List (List SqlPart)}
    (h : latestCriteriaQueries criteria = .ok queries) (data : Json) :
    (queries.any fun parts => selects fns parts data) = queryHolds fns criteria data := by
  simp only [latestCriteriaQueries, encoded_tagged, Attempt.bind_eq_ok] at h
  obtain ⟨lookups, hl, h⟩ := h
  have hrendered : ∀ l ∈ minimalCriteria lookups, Rendered l := by
    intro l hm
    have hall := Attempt.forall_mem_mapM (P := fun _ => True) (Q := Rendered)
      (fun c l hc => by simp [(criterionLookup_eq_ok hc).2]) hl
    refine hall.2 (by simp) l ?_
    simpa using mem_foldl_addMinimal hm
  have hparts : ((minimalCriteria lookups).map (·.parts)).any (fun ps => selects fns ps data)
      = (tagged criteria).any fun c => Meaning.tags (tagHolds fns) c.tags data := by
    calc ((minimalCriteria lookups).map (·.parts)).any (fun ps => selects fns ps data)
        = (minimalCriteria lookups).any
            fun l => Meaning.criterion (tagHolds fns) l.criterion data := by
          rw [List.any_map, Bool.eq_iff_iff, List.any_eq_true, List.any_eq_true]
          refine exists_congr fun l => and_congr_right fun hm => ?_
          rw [Function.comp_apply, selects_buildCriteriaSQL (hrendered l hm)]
      _ = lookups.any fun l => Meaning.criterion (tagHolds fns) l.criterion data :=
          any_minimalCriteria (passesDown_criterion _ _) lookups
      _ = ((tagged criteria).map fun c => encodeCriterion c.tags).any
            fun c => Meaning.criterion (tagHolds fns) c data :=
          Attempt.any_mapM (fun c l hc => by rw [(criterionLookup_eq_ok hc).1]) hl
      _ = _ := by
          rw [List.any_map]
          simp only [Function.comp_def, Meaning.criterion_encodeCriterion]
  have hempty : minimalCriteria lookups = [] ↔ tagged criteria = [] := by
    have hany : (minimalCriteria lookups).any (fun _ => true)
        = (tagged criteria).any fun _ => true := by
      rw [any_minimalCriteria (fun _ _ _ _ => rfl), Attempt.any_mapM (fun _ _ _ => rfl) hl,
        List.any_map]
      rfl
    generalize minimalCriteria lookups = ls at hany ⊢
    generalize tagged criteria = cs at hany ⊢
    cases ls <;> cases cs <;> simp at hany ⊢
  cases h
  unfold queryHolds
  rw [← hparts]
  split_ifs with hm
  · simp [hempty.1 (List.map_eq_nil_iff.1 hm), selects, Ternary.all]
  · have hne : (tagged criteria).isEmpty = false := by
      simpa using fun ht => hm (List.map_eq_nil_iff.2 (hempty.2 ht))
    rw [hne, Bool.false_or]

theorem keepLatestRow_eq (events : List EventRow) (p : Position) (parts : List SqlPart) :
    keepLatestRow fns events p parts = if fns.fails (documents events) [parts] then .error .badPath
      else .ok (Latest.keep p (latestMatch fns events parts)) := by
  unfold keepLatestRow latestRow
  cases fns.fails (documents events) [parts] with
  | true => rfl
  | false =>
    simp only [Bool.false_eq_true, if_false]
    rcases latestMatch fns events parts with _ | q
    · rfl
    · exact congrArg Except.ok (laterPosition_eq_max p q)

/-- The lookups of a check fail if one of them does; otherwise the latest of their rows is kept. -/
theorem foldlM_keepLatestRow {events : List EventRow} :
    ∀ {queries : List (List SqlPart)} {p : Position}, queries.foldlM (keepLatestRow fns events) p
      = if queries.all fun parts => !fns.fails (documents events) [parts]
        then .ok (queries.foldl (fun p parts => Latest.keep p (latestMatch fns events parts)) p)
        else .error .badPath
  | [], p => rfl
  | parts :: queries, p => by
    rw [List.foldlM_cons, List.all_cons, List.foldl_cons, keepLatestRow_eq]
    cases fns.fails (documents events) [parts] with
    | true => rfl
    | false =>
      rw [Bool.not_false, Bool.true_and, ← foldlM_keepLatestRow, if_neg Bool.false_ne_true]
      rfl

theorem latestPreparedCriteriaPosition_eq {t : Tables} {queries : List (List SqlPart)}
    (hp : Placed t.events) (h : latestCriteriaQueries criteria = .ok queries) :
    latestPreparedCriteriaPosition fns t.events queries
      = if t.evaluates fns criteria then .ok (t.latest fns criteria) else .error .badPath := by
  have hlatest : queries.foldl (fun p parts => Latest.keep p (latestMatch fns t.events parts))
      notExistsPosition = t.latest fns criteria := by
    unfold latestMatch
    rw [Latest.foldl_keep, Tables.latest, latestPosition_eq_latest]
    · refine Latest.latest_congr fun p => ?_
      simp only [List.mem_flatMap, List.mem_map, List.mem_filter, ← any_queries h,
        List.any_eq_true]
      constructor
      · rintro ⟨parts, hparts, row, ⟨hrow, hs⟩, rfl⟩
        exact ⟨row, ⟨hrow, parts, hparts, hs⟩, rfl⟩
      · rintro ⟨row, ⟨hrow, parts, hparts, hs⟩, rfl⟩
        exact ⟨parts, hparts, row, ⟨hrow, hs⟩, rfl⟩
    · intro p hpm
      obtain ⟨row, hrow, rfl⟩ := List.mem_map.1 hpm
      exact hp row (List.mem_filter.1 hrow).1
  rw [latestPreparedCriteriaPosition, foldlM_keepLatestRow, hlatest, Tables.evaluates, h]

theorem latestCriteriaQueries_ok :
    (∃ queries, latestCriteriaQueries criteria = .ok queries) ↔ Renderable criteria := by
  have hlookups : (∃ queries, latestCriteriaQueries criteria = .ok queries) ↔
      ∀ c ∈ tagged criteria, ∃ l, criterionLookup (encodeCriterion c.tags) = .ok l := by
    simp only [latestCriteriaQueries, encoded_tagged, Attempt.bind_eq_ok]
    constructor
    · rintro ⟨_, lookups, hl, -⟩ c hc
      exact Attempt.exists_mapM.1 ⟨lookups, hl⟩ _ (List.mem_map_of_mem hc)
    · intro hall
      obtain ⟨lookups, hl⟩ := Attempt.exists_mapM.2 (List.forall_mem_map.2 hall)
      exact ⟨_, lookups, hl, rfl⟩
  rw [hlookups]
  unfold Renderable tagged
  constructor
  · intro hall c hc t ht
    have hne : c.tags ≠ [] := List.ne_nil_of_mem ht
    obtain ⟨l, hl⟩ := hall c (List.mem_filter.2 ⟨hc, by simpa using hne⟩)
    obtain ⟨parts, hparts, -⟩ := Attempt.map_eq_ok.1 hl
    exact buildCriteriaSQL_ok.1 ⟨parts, hparts⟩ t ht
  · intro hall c hc
    obtain ⟨parts, hparts⟩ := buildCriteriaSQL_ok.2 (hall c (List.mem_filter.1 hc).1)
    exact ⟨⟨_, parts⟩, Attempt.map_eq_ok.2 ⟨parts, hparts, rfl⟩⟩

theorem checkError_eq_none {t : Tables} (hp : Placed t.events) : ∀ {checks : List ConsistencyCheck},
    checkError fns t.events (prepareConsistencyChecks checks) = none ↔
      ∀ check ∈ checks, Renderable check.criteria ∧ t.evaluates fns check.criteria ∧
        t.latest fns check.criteria = check.position
  | [] => by simp [prepareConsistencyChecks, checkError]
  | check :: checks => by
    have ih := @checkError_eq_none t hp checks
    unfold prepareConsistencyChecks at ih ⊢
    rw [List.map_cons, checkError, List.forall_mem_cons, ← ih]
    rcases hq : latestCriteriaQueries check.criteria with e | queries
    · have hr : ¬Renderable check.criteria := fun hr => by
        obtain ⟨queries, h⟩ := latestCriteriaQueries_ok.2 hr
        rw [hq] at h
        cases h
      simp [hr]
    · have hr : Renderable check.criteria := latestCriteriaQueries_ok.1 ⟨queries, hq⟩
      simp only [latestPreparedCriteriaPosition_eq hp hq, hr, true_and]
      cases t.evaluates fns check.criteria with
      | false => simp
      | true =>
        simp only [if_true, true_and, ← not_and_or, ← Position.ext_iff', ite_not]
        split_ifs with he <;> simp [he]

/-- A conflict is about a query that does not stand where it was observed. -/
theorem checkError_conflict {t : Tables} {expected actual : Position} (hp : Placed t.events) :
    ∀ {checks : List ConsistencyCheck}, checkError fns t.events (prepareConsistencyChecks checks)
        = some (.conflict expected actual) →
      ∃ check ∈ checks, t.latest fns check.criteria ≠ check.position
  | [], h => by simp [prepareConsistencyChecks, checkError] at h
  | check :: checks, h => by
    unfold prepareConsistencyChecks at h
    rw [List.map_cons, checkError] at h
    rcases hq : latestCriteriaQueries check.criteria with e | queries
    · simp [hq] at h
    · simp only [hq, latestPreparedCriteriaPosition_eq hp hq] at h
      split at h
      · simp at h
      · rename_i latest hlatest
        split_ifs at hlatest
        obtain rfl := Except.ok.inj hlatest
        split_ifs at h with hne
        · refine ⟨check, List.mem_cons_self, fun he => ?_⟩
          simp [he] at hne
        · obtain ⟨check', hmem, hstands⟩ := checkError_conflict hp h
          exact ⟨check', List.mem_cons_of_mem check hmem, hstands⟩

end Orisun.Sqlite
