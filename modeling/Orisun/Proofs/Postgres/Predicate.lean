import Orisun.Lib.Attempt
import Orisun.Postgres.Serial

/-!
# A criterion's text selects the documents the criterion holds of

The text is a conjunction in three-valued logic, so a row is taken exactly when every part is true.
-/

namespace Orisun.Postgres

variable {parts : List SqlPart} {data : Json}

theorem selects_iff :
    selects parts data = true ↔ ∀ part ∈ parts, evalPart data part = some true := by
  simp [selects, Ternary.all_eq_true]

theorem number_text (token : String) : (Json.number token).text = token := by
  simp [Json.text, Json.chars]

theorem eval_order {key value : String} {op : OrderOperator} :
    evalPart data (.order key op value) = some true ↔
      (match data.get? key with
        | some (.string s) => op.holds (compareText s value)
        | some (.number token) => (orisunCompareNumber token value).any op.holds
        | _ => false) = true := by
  simp only [evalPart, Json.getText?]
  rcases data.get? key with _ | _ | _ | token | s | _ | _
  case some.number =>
    simp only [Json.typeof, number_text, Option.map_some, Option.bind_some]
    rcases orisunCompareNumber token value with _ | c <;> simp
  all_goals simp [Json.typeof]

theorem eval_renderPredicate {key : String} {p : TagPredicate} {part : SqlPart}
    (h : renderPredicate key p = .ok part) :
    evalPart data part = some true ↔ Meaning.predicate tagHolds key p data = true := by
  rcases p with ⟨operator, value⟩
  have heq : evalPart data (.equal key value) = some true ↔
      tagHolds .eq key value data = true := by
    simp only [evalPart, tagHolds]
    rcases data.getText? key with _ | s <;> simp
  have hne : evalPart data (.notEqual key value) = some true ↔
      tagHolds .ne key value data = true := by
    simp only [evalPart, tagHolds]
    rcases data.getText? key with _ | s <;> simp
  simp only [renderPredicate] at h
  by_cases hop : operator = ""
  · subst hop
    simp only [if_true] at h
    cases h
    exact heq
  · rw [if_neg hop] at h
    split at h <;> first | (obtain rfl := Except.ok.inj h) | cases h
    · exact heq
    · exact hne
    all_goals exact eval_order

variable {f : String × TagField}

theorem holds_renderField (h : renderField f = .ok parts) :
    (∀ part ∈ parts, evalPart data part = some true) ↔ Meaning.field tagHolds f.1 data f.2 = true := by
  rcases f with ⟨key, field⟩
  simp only [renderField, Attempt.bind_eq_ok] at h
  obtain ⟨ps, hps, h⟩ := h
  have hparts : (∀ part ∈ parts, evalPart data part = some true) ↔
      ∀ p ∈ ps, Meaning.predicate tagHolds key p data = true :=
    Attempt.forall_mem_mapM (fun _ _ hp => eval_renderPredicate hp) h
  rw [hparts]
  rcases field with value | _ | ⟨q, qs⟩
  · cases hps
    simp [Meaning.predicate, canonicalTagOperator, Meaning.field]
  · cases hps
  · cases hps
    simp [Meaning.field]

theorem mem_scalars_first {fields : List (String × TagField)} :
    f ∈ fields.filter (fun f => isScalarField f.2) ++
      fields.filter (fun f => !isScalarField f.2) ↔ f ∈ fields := by
  cases hs : isScalarField f.2 <;> simp [hs]

theorem selects_orisunCriterionSql {c : EncodedCriterion} (h : orisunCriterionSql c = .ok parts)
    (data : Json) :
    selects parts data = criterionHolds c data := by
  simp only [orisunCriterionSql, Attempt.bind_eq_ok] at h
  obtain ⟨pss, hpss, h⟩ := h
  obtain rfl : pss.flatten = parts := Except.ok.inj h
  have hfields := Attempt.forall_mem_mapM
    (P := fun f : String × TagField => Meaning.field tagHolds f.1 data f.2 = true)
    (Q := fun parts => ∀ part ∈ parts, evalPart data part = some true)
    (fun f _ hf => holds_renderField hf) hpss
  rw [Bool.eq_iff_iff, selects_iff, criterionHolds, Meaning.criterion, List.all_eq_true]
  simp only [mem_scalars_first] at hfields
  rw [← hfields]
  constructor
  · intro hall ps hps part hpart
    exact hall part (List.mem_flatten.2 ⟨ps, hps, hpart⟩)
  · intro hall part hpart
    obtain ⟨ps, hps, hpart⟩ := List.mem_flatten.1 hpart
    exact hall ps hps part hpart

theorem renderPredicate_ok (key : String) {p : TagPredicate}
    (h : (canonicalTagOperator p.operator).isSome) : ∃ part, renderPredicate key p = .ok part := by
  rcases p with ⟨operator, value⟩
  simp only [canonicalTagOperator] at h
  split at h
  case h_8 => cases h
  all_goals exact ⟨_, rfl⟩

theorem renderField_ok (h : validField f.2 = true) :
    ∃ parts, renderField f = .ok parts := by
  rcases f with ⟨key, value | _ | ⟨q, qs⟩⟩
  · exact ⟨[.equal key value], rfl⟩
  · cases h
  · have hops : ∀ p ∈ q :: qs, (canonicalTagOperator p.operator).isSome = true := by
      simpa only [validField, List.isEmpty_cons, Bool.not_false, Bool.true_and,
        List.all_eq_true] using h
    obtain ⟨parts, hparts⟩ := Attempt.exists_mapM.2 fun p hp => renderPredicate_ok key (hops p hp)
    exact ⟨parts, hparts⟩

theorem orisunCriterionSql_ok {c : EncodedCriterion} (h : ValidCriterion c) :
    ∃ parts, orisunCriterionSql c = .ok parts := by
  obtain ⟨pss, hpss⟩ := Attempt.exists_mapM.2 fun f hf =>
    renderField_ok (h.2 f (mem_scalars_first.1 hf))
  exact ⟨pss.flatten, by simp only [orisunCriterionSql, hpss]; rfl⟩

end Orisun.Postgres
