import Orisun.Proofs.Criteria
import Orisun.Proofs.Postgres.Predicate

/-!
# What the compiled plan says

A criterion's id is one more than its place among the batch's distinct criteria, so a table of
positions by id is a function on the criteria (`setPosition_map`).
-/

namespace Orisun.Postgres

theorem nodup_allCriteria (requests : List Request) : (allCriteria requests).Nodup :=
  (List.mergeSort_perm _ _).nodup_iff.2 (List.nodup_dedup _)

theorem mem_allCriteria {requests : List Request} {c : EncodedCriterion} :
    c ∈ allCriteria requests ↔
      (∃ r ∈ requests, ∃ o ∈ r.consistency, c ∈ o.criteria) ∧ c.fields ≠ [] := by
  simp only [allCriteria, List.mem_mergeSort, List.mem_dedup, List.mem_filter, List.mem_flatMap,
    decide_eq_true_eq]
  constructor
  · rintro ⟨⟨o, ⟨r, hr, ho⟩, hc⟩, hne⟩
    exact ⟨⟨r, hr, o, ho, hc⟩, hne⟩
  · rintro ⟨⟨r, hr, o, ho, hc⟩, hne⟩
    exact ⟨⟨o, ⟨r, hr, ho⟩, hc⟩, hne⟩

section Ids

variable {all : List EncodedCriterion} {c : EncodedCriterion}

theorem lookup_text_zipIdx : ∀ (l : List EncodedCriterion) (n : ℕ), c ∈ l →
    ((l.zipIdx n).map fun c => (c.1.text, c.2)).lookup c.text = some (l.idxOf c + n)
  | d :: l, n, h => by
    rcases eq_or_ne c d with rfl | hne
    · simp
    · have hl : c ∈ l := (List.mem_cons.1 h).resolve_left hne
      have ht : c.text ≠ d.text := fun he => hne (EncodedCriterion.text_injective he)
      rw [List.zipIdx_cons, List.map_cons, Fields.lookup_cons_ne n ht,
        lookup_text_zipIdx l (n + 1) hl, List.idxOf_cons_ne l hne.symm]
      congr 1
      omega

theorem criterionId_text (h : c ∈ all) :
    criterionId (criterionIds all) c.text = some (all.idxOf c + 1) := by
  rw [criterionId, criterionIds, lookup_text_zipIdx all 0 h]
  rfl

theorem criterionId_eq_none {text : String} (h : ∀ c ∈ all, c.text ≠ text) :
    criterionId (criterionIds all) text = none := by
  simp only [criterionId, criterionIds, Option.map_eq_none_iff]
  refine List.lookup_eq_none_iff.2 fun p hp => ?_
  obtain ⟨⟨d, i⟩, hd, rfl⟩ := List.mem_map.1 hp
  simpa using (h d (List.fst_mem_of_mem_zipIdx hd)).symm

theorem getElem?_map_idxOf (f : EncodedCriterion → Position) (h : c ∈ all) :
    (all.map f)[all.idxOf c + 1 - 1]? = some (f c) := by
  rw [Nat.add_sub_cancel, List.getElem?_map,
    List.getElem?_eq_getElem (List.idxOf_lt_length_of_mem h), List.getElem_idxOf]
  rfl

theorem setPosition_map (f : EncodedCriterion → Position) (p : Position) (hn : all.Nodup)
    (h : c ∈ all) :
    setPosition (all.map f) (all.idxOf c + 1) p = all.map (Function.update f c p) := by
  rw [setPosition, Nat.add_sub_cancel]
  apply List.ext_getElem
  · simp
  · intro i hi _
    have hi' : i < all.length := by simpa using hi
    rw [List.getElem_set, List.getElem_map, List.getElem_map]
    by_cases he : all.idxOf c = i
    · subst he
      simp
    · have hne : all[i] ≠ c := by
        rintro rfl
        exact he (hn.idxOf_getElem i hi')
      rw [if_neg he, Function.update_of_ne hne]

end Ids

section Checks

variable (all : List EncodedCriterion)

def queryIds (o : Observation) : List ℕ := o.criteria.map fun c => all.idxOf c + 1

def Planned (o : Observation) : Prop :=
  o.criteria ≠ [] ∧ ∀ c ∈ o.criteria, c.fields ≠ [] ∧ c ∈ all

variable {all}

variable {checks : Checks}

theorem compileCriterion_foldlM {criteria : List EncodedCriterion}
    (h : ∀ c ∈ criteria, c.fields ≠ [] ∧ c ∈ all) :
    criteria.foldlM (compileCriterion (criterionIds all)) checks = .ok { checks with
      checkCriterionIds :=
        checks.checkCriterionIds ++ criteria.map fun c => all.idxOf c + 1 } := by
  induction criteria generalizing checks with
  | nil => simp [pure, Except.pure]
  | cons c criteria ih =>
    obtain ⟨hne, hc⟩ := h c (List.mem_cons_self ..)
    rw [List.foldlM_cons, compileCriterion, if_neg hne, criterionId_text hc]
    refine (ih fun d hd => h d (List.mem_cons_of_mem c hd)).trans ?_
    simp

theorem compileObservation_foldlM {observations : List Observation}
    (h : ∀ o ∈ observations, Planned all o) :
    observations.foldlM (compileObservation (criterionIds all)) checks = .ok { checks with
      checkCriterionOffsets := checks.checkCriterionOffsets ++
        Offsets.starts (checks.checkCriterionIds.length + 1) (observations.map (queryIds all))
      checkCriterionIds :=
        checks.checkCriterionIds ++ (observations.map (queryIds all)).flatten
      checkExpected := checks.checkExpected ++ observations.map (·.position) } := by
  induction observations generalizing checks with
  | nil => simp [pure, Except.pure, Offsets.starts]
  | cons o observations ih =>
    obtain ⟨hne, hc⟩ := h o (List.mem_cons_self ..)
    rw [List.foldlM_cons, compileObservation, if_neg hne, compileCriterion_foldlM hc]
    refine (ih fun p hp => h p (List.mem_cons_of_mem o hp)).trans ?_
    simp [Offsets.starts, queryIds, Nat.add_right_comm]

variable {requests : List Request}

theorem compileRequest_foldlM (h : ∀ r ∈ requests, ∀ o ∈ r.consistency, Planned all o) :
    requests.foldlM (compileRequest (criterionIds all)) checks = .ok {
      requestCheckOffsets := checks.requestCheckOffsets ++
        Offsets.starts (checks.checkExpected.length + 1) (requests.map (·.consistency))
      checkCriterionOffsets := checks.checkCriterionOffsets ++
        Offsets.starts (checks.checkCriterionIds.length + 1)
          ((requests.flatMap (·.consistency)).map (queryIds all))
      checkCriterionIds := checks.checkCriterionIds ++
        ((requests.flatMap (·.consistency)).map (queryIds all)).flatten
      checkExpected := checks.checkExpected ++
        (requests.flatMap (·.consistency)).map (·.position) } := by
  induction requests generalizing checks with
  | nil => simp [pure, Except.pure, Offsets.starts]
  | cons r requests ih =>
    rw [List.foldlM_cons, compileRequest, compileObservation_foldlM (h r (List.mem_cons_self ..))]
    refine (ih fun s hs => h s (List.mem_cons_of_mem r hs)).trans ?_
    simp [Offsets.starts, Offsets.starts_append, Nat.add_right_comm]

/-- The tables of a batch whose criteria are all planned. -/
def compiledChecks (all : List EncodedCriterion) (requests : List Request) : Checks where
  requestCheckOffsets := Offsets.table (requests.map (·.consistency))
  checkCriterionOffsets := Offsets.table ((requests.flatMap (·.consistency)).map (queryIds all))
  checkCriterionIds := ((requests.flatMap (·.consistency)).map (queryIds all)).flatten
  checkExpected := (requests.flatMap (·.consistency)).map (·.position)

theorem compileChecks_eq (h : ∀ r ∈ requests, ∀ o ∈ r.consistency, Planned all o) :
    compileChecks (criterionIds all) requests = .ok (compiledChecks all requests) := by
  rw [compileChecks, compileRequest_foldlM h]
  simp [bind, Except.bind, pure, Except.pure, compiledChecks, Offsets.table, List.flatMap_def,
    Function.comp_def]

theorem checkPosition_eq {o : Observation} {k : ℕ} (f : EncodedCriterion → Position)
    (ho : (requests.flatMap (·.consistency))[k]? = some o) (hp : Planned all o) :
    checkPosition (compiledChecks all requests) (all.map f) (k + 1)
      = Latest.latest notExistsPosition (o.criteria.map f) := by
  have hk : ((requests.flatMap (·.consistency)).map (queryIds all))[k]? = some (queryIds all o) := by
    rw [List.getElem?_map, ho]
    rfl
  have hfold := Offsets.foldl_range hk (fun latest id =>
    (id.bind fun id => (all.map f)[id - 1]?).elim latest (max latest)) notExistsPosition
  simp only [checkPosition, compiledChecks, laterPosition_eq_max]
  refine Eq.trans (List.foldl_ext _ _ _ fun latest i _ => ?_) (hfold.trans ?_)
  · split <;> rename_i hid <;> rw [hid] <;> rfl
  rw [queryIds, Latest.latest, List.foldl_map, List.foldl_map]
  refine List.foldl_ext _ _ _ fun latest c hc => ?_
  simp only [Option.bind_some, getElem?_map_idxOf f (hp.2 c hc).2, Option.elim_some]

/-- The message a request is rejected with, by the positions of the criteria. -/
def observedConflict (f : EncodedCriterion → Position) (o : Observation) : Option String :=
  let actual := Latest.latest notExistsPosition (o.criteria.map f)
  if actual = o.position then none else some (conflictMessage o.position actual)

theorem requestConflict_eq {r : Request} {k : ℕ} (f : EncodedCriterion → Position)
    (hr : requests[k]? = some r) (h : ∀ r ∈ requests, ∀ o ∈ r.consistency, Planned all o) :
    requestConflict (compiledChecks all requests) (all.map f) k
      = r.consistency.findSome? (observedConflict f) := by
  have hk : (requests.map (·.consistency))[k]? = some r.consistency := by
    rw [List.getElem?_map, hr]
    rfl
  have hcheck : ∀ i ∈ Offsets.range (Offsets.table (requests.map (·.consistency))) (k + 1),
      ((compiledChecks all requests).checkExpected[i - 1]?).bind (fun expected =>
        let actual := checkPosition (compiledChecks all requests) (all.map f) i
        if actual.commitPosition ≠ expected.commitPosition ∨
            actual.preparePosition ≠ expected.preparePosition
        then some (conflictMessage expected actual) else none)
      = ((requests.map (·.consistency)).flatten[i - 1]?).bind (observedConflict f) := by
    intro i hi
    obtain ⟨j, rfl⟩ : ∃ j, i = j + 1 := ⟨i - 1, by have := Offsets.one_le_of_mem_range hk hi; omega⟩
    rw [Nat.add_sub_cancel, ← List.flatMap_def, compiledChecks, List.getElem?_map]
    rcases ho : (requests.flatMap (·.consistency))[j]? with _ | o
    · simp only [ho, Option.map_none, Option.bind_none]
    · obtain ⟨s, hs, hos⟩ := List.mem_flatMap.1 (List.mem_of_getElem? ho)
      have hpos := checkPosition_eq f ho (h s hs o hos)
      rw [compiledChecks] at hpos
      simp only [ho, Option.map_some, Option.bind_some, hpos, observedConflict, ← not_and_or,
        ← Position.ext_iff', ite_not]
  exact Offsets.findSome?_range hk hcheck

end Checks

section Matching

variable {all : List EncodedCriterion}

def criterionParts (c : EncodedCriterion) : List SqlPart :=
  (orisunCriterionSql c).toOption.getD []

variable {c : EncodedCriterion}

theorem orisunCriterionSql_eq (h : ValidCriterion c) :
    orisunCriterionSql c = .ok (criterionParts c) := by
  obtain ⟨parts, hp⟩ := orisunCriterionSql_ok h
  rw [criterionParts, hp]
  rfl

theorem selects_criterionParts (h : ValidCriterion c) (data : Json) :
    selects (criterionParts c) data = criterionHolds c data :=
  selects_orisunCriterionSql (orisunCriterionSql_eq h) data

def criterionSelect (all : List EncodedCriterion) (c : EncodedCriterion) : List SqlPart × ℕ :=
  (criterionParts c, all.idxOf c + 1)

theorem planCriterion_foldlM {criteria : List EncodedCriterion} {m : Matching}
    (h : ∀ c ∈ criteria, ValidCriterion c ∧ c ∈ all) :
    criteria.foldlM (planCriterion (criterionIds all)) m = .ok { m with
      predicateSelects := m.predicateSelects ++
        (criteria.filter fun c => !c.isScalar).map (criterionSelect all)
      latestSelects := m.latestSelects ++ criteria.map (criterionSelect all) } := by
  induction criteria generalizing m with
  | nil => simp [pure, Except.pure]
  | cons c criteria ih =>
    obtain ⟨hv, hc⟩ := h c (List.mem_cons_self ..)
    rw [List.foldlM_cons, planCriterion, orisunCriterionSql_eq hv, criterionId_text hc]
    refine (ih fun d hd => h d (List.mem_cons_of_mem c hd)).trans ?_
    cases hs : c.isScalar <;> simp [hs, criterionSelect]

theorem planShape_foldlM {shapes : List (List String)} {m : Matching}
    (h : ∀ c ∈ all, ValidCriterion c) :
    shapes.foldlM (planShape (criterionIds all) all) m = .ok {
      criterionShapes := m.criterionShapes ++
        shapes.filter fun shape => (all.filter (·.keys = shape)).any (·.isScalar)
      predicateSelects := m.predicateSelects ++
        ((shapes.flatMap fun shape => all.filter (·.keys = shape)).filter
          fun c => !c.isScalar).map (criterionSelect all)
      latestSelects := m.latestSelects ++
        (shapes.flatMap fun shape => all.filter (·.keys = shape)).map (criterionSelect all) } := by
  induction shapes generalizing m with
  | nil => simp [pure, Except.pure]
  | cons shape shapes ih =>
    rw [List.foldlM_cons, planShape, planCriterion_foldlM fun c hc =>
      ⟨h c (List.mem_filter.1 hc).1, (List.mem_filter.1 hc).1⟩]
    simp only [bind, Except.bind, pure, Except.pure]
    rw [ih, List.filter_cons, List.flatMap_cons, List.filter_append, List.map_append,
      List.map_append]
    split_ifs <;> simp

/-- The plan of a batch by its distinct criteria. -/
structure PlanSpec (requests : List Request) (plan : Plan) : Prop where
  allCriteria : plan.allCriteria = allCriteria requests
  criterionIds : plan.criterionIds = criterionIds plan.allCriteria
  checks : plan.checks = compiledChecks plan.allCriteria requests
  shapes : ∀ c ∈ plan.allCriteria, c.isScalar = true → c.keys ∈ plan.criterionShapes
  predicates : ∃ cs : List EncodedCriterion,
    plan.predicateSelects = cs.map (criterionSelect plan.allCriteria) ∧
    ∀ c, c ∈ cs ↔ c ∈ plan.allCriteria ∧ c.isScalar = false
  latest : ∃ cs : List EncodedCriterion,
    plan.latestSelects = cs.map (criterionSelect plan.allCriteria) ∧
    ∀ c, c ∈ cs ↔ c ∈ plan.allCriteria

variable {requests : List Request}

theorem planned_of_valid (h : ∀ r ∈ requests, ValidRequest r) :
    ∀ r ∈ requests, ∀ o ∈ r.consistency, Planned (allCriteria requests) o := by
  intro r hr o ho
  obtain ⟨hne, hc⟩ := h r hr o ho
  exact ⟨hne, fun c hco => ⟨(hc c hco).1, mem_allCriteria.2 ⟨⟨r, hr, o, ho, hco⟩, (hc c hco).1⟩⟩⟩

theorem valid_of_mem (h : ∀ r ∈ requests, ValidRequest r) (hc : c ∈ allCriteria requests) :
    ValidCriterion c := by
  obtain ⟨⟨r, hr, o, ho, hco⟩, -⟩ := mem_allCriteria.1 hc
  exact (h r hr o ho).2 c hco

theorem compilePlan_spec (h : ∀ r ∈ requests, ValidRequest r) :
    ∃ plan, compilePlan requests = .ok plan ∧ PlanSpec requests plan := by
  let all := allCriteria requests
  let shapes := (all.map (·.keys)).dedup
  let criteria := shapes.flatMap fun shape => all.filter (·.keys = shape)
  have hmem : ∀ c, c ∈ criteria ↔ c ∈ all := by
    intro c
    simp only [criteria, shapes, List.mem_flatMap, List.mem_dedup, List.mem_map, List.mem_filter,
      decide_eq_true_eq]
    exact ⟨fun ⟨_, _, hc, _⟩ => hc, fun hc => ⟨_, ⟨c, hc, rfl⟩, hc, rfl⟩⟩
  refine ⟨⟨all, criterionIds all, compiledChecks all requests,
    shapes.filter fun shape => (all.filter (·.keys = shape)).any (·.isScalar),
    (criteria.filter fun c => !c.isScalar).map (criterionSelect all),
    criteria.map (criterionSelect all)⟩, ?_, rfl, rfl, rfl, ?_, ⟨_, rfl, ?_⟩, ⟨_, rfl, hmem⟩⟩
  · rw [compilePlan, compileChecks_eq (planned_of_valid h)]
    simp only [bind, Except.bind]
    rw [planShape_foldlM fun c hc => valid_of_mem h hc]
    rfl
  · intro c hc hs
    simp only [shapes, List.mem_filter, List.mem_dedup, List.mem_map, List.any_eq_true]
    exact ⟨⟨c, hc, rfl⟩, c, ⟨hc, by simp⟩, hs⟩
  · intro c
    rw [List.mem_filter, hmem]
    simp

end Matching

end Orisun.Postgres
