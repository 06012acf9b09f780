import Orisun.Lib.Attempt
import Orisun.Proofs.Meaning
import Orisun.Sqlite.Serial

/-!
# A criterion's text selects the documents that meet its tags

And a criterion is rendered exactly if every tag of it has a supported operator and a value without
a NUL byte.
-/

namespace Orisun.Sqlite

variable {fns : JsonFunctions}

theorem evalPart_part {op : TagOperator} {key value : String} {data : Json} :
    evalPart fns data (op.part key value) = some true ↔
      tagHolds fns op key value data = true := by
  cases op
  case eq =>
    refine Ternary.map_eq_true.trans ?_
    simp only [tagHolds]
    cases scalarText fns data key <;> simp
  case ne => exact Ternary.map_eq_true
  all_goals
    simp only [TagOperator.part, evalPart, tagHolds]
    rcases fns.member data key with _ | _ | _ | token | s | _ | _
    case some.number => exact Ternary.map_eq_true
    case some.string => exact Ternary.map_eq_true
    all_goals simp

theorem evalPart_renderTagPredicate {key : String} {p : TagPredicate} {part : SqlPart}
    {data : Json} (h : renderTagPredicate key p = .ok part) :
    evalPart fns data part = some true ↔
      Meaning.predicate (tagHolds fns) key p data = true := by
  unfold renderTagPredicate at h
  unfold Meaning.predicate
  split at h
  · cases h
  · rename_i op hop
    split_ifs at h
    cases h
    rw [evalPart_part, hop, Option.any_some]

theorem holds_renderCriterionPredicate {f : String × TagField} {parts : List SqlPart} {data : Json}
    (h : renderCriterionPredicate f.1 f.2 = .ok parts) :
    (∀ part ∈ parts, evalPart fns data part = some true) ↔
      Meaning.field (tagHolds fns) f.1 data f.2 = true := by
  rcases f with ⟨key, value | ps⟩
  · simp only [renderCriterionPredicate] at h
    split_ifs at h
    cases h
    rw [List.forall_mem_singleton]
    exact @evalPart_part fns .eq key value data
  · rw [Meaning.field, List.all_eq_true]
    exact Attempt.forall_mem_mapM (fun _ _ hp => evalPart_renderTagPredicate hp) h

theorem selects_buildCriteriaSQL {c : EncodedCriterion} {parts : List SqlPart}
    (h : buildCriteriaSQL c = .ok parts) (data : Json) :
    selects fns parts data = Meaning.criterion (tagHolds fns) c data := by
  simp only [buildCriteriaSQL, Attempt.bind_eq_ok] at h
  obtain ⟨pss, hpss, h⟩ := h
  obtain rfl : pss.flatten = parts := Except.ok.inj h
  have hfields := Attempt.forall_mem_mapM
    (P := fun f : String × TagField => Meaning.field (tagHolds fns) f.1 data f.2 = true)
    (Q := fun parts => ∀ part ∈ parts, evalPart fns data part = some true)
    (fun f _ hf => holds_renderCriterionPredicate hf) hpss
  simp only [List.mem_mergeSort] at hfields
  rw [Bool.eq_iff_iff, selects, beq_iff_eq, Ternary.all_eq_true, Meaning.criterion,
    List.all_eq_true, ← hfields, List.forall_mem_map]
  constructor
  · intro hall ps hps part hpart
    exact hall part (List.mem_flatten.2 ⟨ps, hps, hpart⟩)
  · intro hall part hpart
    obtain ⟨ps, hps, hpart⟩ := List.mem_flatten.1 hpart
    exact hall ps hps part hpart

def PredicateRenderable (p : TagPredicate) : Prop :=
  (canonicalTagOperator p.operator).isSome ∧ containsNul p.value = false

theorem renderTagPredicate_ok {key : String} {p : TagPredicate} :
    (∃ part, renderTagPredicate key p = .ok part) ↔ PredicateRenderable p := by
  unfold renderTagPredicate PredicateRenderable
  rcases canonicalTagOperator p.operator with _ | op
  · simp
  · by_cases hn : containsNul p.value = true <;> simp [hn]

theorem renderCriterionPredicate_ok {key : String} {ps : List TagPredicate} :
    (∃ parts, renderCriterionPredicate key (encodeField ps) = .ok parts) ↔
      ∀ p ∈ ps, PredicateRenderable p := by
  unfold encodeField
  split
  · rename_i value
    by_cases hn : containsNul value = true <;>
      simp [renderCriterionPredicate, PredicateRenderable, canonicalTagOperator, hn]
  · simp only [renderCriterionPredicate]
    rw [Attempt.exists_mapM]
    exact forall₂_congr fun p _ => renderTagPredicate_ok

theorem buildCriteriaSQL_ok {ts : List ReadTag} :
    (∃ parts, buildCriteriaSQL (encodeCriterion ts) = .ok parts) ↔
      ∀ t ∈ ts, (canonicalTagOperator t.operator).isSome ∧ containsNul t.value = false := by
  have hmap : (∃ parts, buildCriteriaSQL (encodeCriterion ts) = .ok parts) ↔
      ∀ f ∈ (encodeCriterion ts).fields, ∃ parts, renderCriterionPredicate f.1 f.2 = .ok parts := by
    simp only [buildCriteriaSQL, Attempt.bind_eq_ok]
    constructor
    · rintro ⟨_, pss, hpss, -⟩ f hf
      exact Attempt.exists_mapM.1 ⟨pss, hpss⟩ f (List.mem_mergeSort.2 hf)
    · intro hall
      obtain ⟨pss, hpss⟩ := Attempt.exists_mapM.2 fun f hf => hall f (List.mem_mergeSort.1 hf)
      exact ⟨pss.flatten, pss, hpss, rfl⟩
  rw [hmap]
  simp only [encodeCriterion, List.forall_mem_map, renderCriterionPredicate_ok]
  rw [forall_tagFields (P := fun _ p => PredicateRenderable p)]
  refine forall₂_congr fun t _ => ?_
  rw [PredicateRenderable, canonicalTagOperator_encoded]
  rfl

end Orisun.Sqlite
