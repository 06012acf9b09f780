import Orisun.Proofs.Sqlite.Consistency
import Orisun.Proofs.Sqlite.CriteriaText
import Orisun.Sqlite.LatestLookup

/-!
# The lookups of a query find what its predicate finds

The disjunction over the whole list selects what the query is about (`evalDisjunction_eq_true`), as
the lookups of the minimal criteria together do. No minimal criterion contains another one
(`pairwise_minimalCriteria`).
-/

namespace Orisun.Sqlite

theorem renderTagPredicate_part {key : String} {p : TagPredicate} {part : SqlPart}
    (h : renderTagPredicate key p = .ok part) : part = CriteriaText.predicatePart key p := by
  unfold renderTagPredicate at h
  split at h
  · cases h
  · rename_i op hop
    split_ifs at h
    rw [CriteriaText.predicatePart, hop]
    exact (Except.ok.inj h).symm

theorem renderCriterionPredicate_parts {key : String} {f : TagField} {parts : List SqlPart}
    (h : renderCriterionPredicate key f = .ok parts) : parts = CriteriaText.fieldParts key f := by
  cases f with
  | scalar value =>
    simp only [renderCriterionPredicate] at h
    split_ifs at h
    exact (Except.ok.inj h).symm
  | predicates ps => exact Attempt.eq_map_of_mapM_ok (fun _ _ => renderTagPredicate_part) h

/-- The comparisons of one criterion, in the order of its text. -/
def conjunction (c : EncodedCriterion) : List SqlPart :=
  CriteriaText.criterionParts (CriteriaText.sortedFields c)

theorem buildCriteriaSQL_parts {c : EncodedCriterion} {parts : List SqlPart}
    (h : buildCriteriaSQL c = .ok parts) : parts = conjunction c := by
  simp only [buildCriteriaSQL, Attempt.bind_eq_ok] at h
  obtain ⟨pss, hpss, h⟩ := h
  cases h
  rw [Attempt.eq_map_of_mapM_ok (fun _ _ => renderCriterionPredicate_parts) hpss,
    ← List.flatMap_def]
  rfl

variable {fns : JsonFunctions} {criteria : List ReadCriterion} {orParts : List (List SqlPart)}

section Followed

variable {events : List EventRow}

theorem conjunction_keys {ts : List ReadTag} {part : SqlPart}
    (h : part ∈ conjunction (encodeCriterion ts)) : ∃ t ∈ ts, part.key = t.key := by
  obtain ⟨t, ht, rfl⟩ := List.mem_map.1 ((CriteriaText.perm_criterionParts ts).mem_iff.1 h)
  refine ⟨t, ht, ?_⟩
  unfold CriteriaText.tagPart
  cases (canonicalTagOperator t.operator).getD .eq <;> rfl

/-- Every comparison of the statements is about a key of the query. -/
def KeysOf (criteria : List ReadCriterion) (orParts : List (List SqlPart)) : Prop :=
  ∀ parts ∈ orParts, ∀ part ∈ parts, ∃ c ∈ criteria, ∃ t ∈ c.tags, part.key = t.key

theorem keysOf_queries {queries : List (List SqlPart)}
    (h : latestCriteriaQueries criteria = .ok queries) : KeysOf criteria queries := by
  simp only [latestCriteriaQueries, encoded_tagged, Attempt.bind_eq_ok] at h
  obtain ⟨lookups, hl, h⟩ := h
  cases h
  intro parts hparts part hpart
  split_ifs at hparts with hnil
  · obtain rfl := List.mem_singleton.1 hparts
    cases hpart
  · obtain ⟨l, hm, rfl⟩ := List.mem_map.1 hparts
    have hmem : l ∈ lookups := by simpa using mem_foldl_addMinimal hm
    obtain ⟨_, hencoded, hlookup⟩ := Attempt.exists_of_mem_mapM_ok hl l hmem
    obtain ⟨c, hc, rfl⟩ := List.mem_map.1 hencoded
    have hrendered := (criterionLookup_eq_ok hlookup).2
    rw [Rendered, (criterionLookup_eq_ok hlookup).1] at hrendered
    rw [buildCriteriaSQL_parts hrendered] at hpart
    exact ⟨c, (List.mem_filter.1 hc).1, conjunction_keys hpart⟩

theorem Followed.not_fails (h : Followed fns events criteria) (hkeys : KeysOf criteria orParts) :
    fns.fails (documents events) orParts = false := by
  refine List.any_eq_false.2 fun v hv => ?_
  obtain ⟨hdoc, parts, hparts, part, hpart, hkey⟩ := fns.visits_mem _ _ v.1 v.2 hv
  obtain ⟨row, hrow, hdata⟩ := List.mem_map.1 hdoc
  obtain ⟨c, hc, t, ht, htkey⟩ := hkeys parts hparts part hpart
  have hok := h row hrow c hc t ht
  rw [hdata, ← htkey, hkey] at hok
  simp [hok]

theorem Followed.evaluates (h : Followed fns events criteria) :
    Tables.evaluates fns ⟨events, []⟩ criteria = true := by
  unfold Tables.evaluates
  split
  · rename_i queries hq
    refine List.all_eq_true.2 fun parts hparts => ?_
    rw [h.not_fails (List.forall_mem_singleton.2 (keysOf_queries hq parts hparts))]
    rfl
  · rfl

end Followed

end Orisun.Sqlite
