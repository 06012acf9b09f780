import Orisun.Meaning

/-!
# An encoded criterion means its tags

Encoding a criterion groups its tags by key and keeps every comparison, so a document meets the
encoded criterion exactly if it meets every tag.
-/

namespace Orisun

def ReadTag.encoded (t : ReadTag) : TagPredicate :=
  ⟨if t.operator = "" then "eq" else t.operator, t.value⟩

def HasPredicate (fields : List (String × List TagPredicate)) (key : String) (p : TagPredicate) :
    Prop :=
  p ∈ (fields.lookup key).getD []

theorem lookup_foldl {key : String} :
    ∀ {ts : List ReadTag} {fields : List (String × List TagPredicate)},
      ((ts.foldl (fun fields tag => Fields.insert tag.key
        ((fields.lookup tag.key).getD [] ++ [tag.encoded]) fields) fields).lookup key).getD []
      = (fields.lookup key).getD [] ++ (ts.filter fun t => t.key = key).map ReadTag.encoded
  | [], fields => by simp
  | t :: ts, fields => by
    rw [List.foldl_cons, lookup_foldl]
    rcases eq_or_ne key t.key with rfl | hne
    · rw [Fields.lookup_insert_self]
      simp
    · rw [Fields.lookup_insert_of_ne _ hne, List.filter_cons_of_neg (by simpa using hne.symm)]

theorem lookup_tagFields (ts : List ReadTag) (key : String) :
    ((tagFields ts).lookup key).getD [] = (ts.filter fun t => t.key = key).map ReadTag.encoded :=
  lookup_foldl

variable {ts : List ReadTag}

theorem hasPredicate_tagFields {key : String} {p : TagPredicate} :
    HasPredicate (tagFields ts) key p ↔ ∃ t ∈ ts, t.key = key ∧ p = t.encoded := by
  unfold HasPredicate
  rw [lookup_tagFields]
  simp only [List.mem_map, List.mem_filter, decide_eq_true_eq, and_assoc]
  simp only [eq_comm]

theorem key_mem_tagFields {t : ReadTag} (ht : t ∈ ts) :
    t.key ∈ (tagFields ts).map Prod.fst := by
  have hp : HasPredicate (tagFields ts) t.key t.encoded :=
    hasPredicate_tagFields.2 ⟨t, ht, rfl, rfl⟩
  unfold HasPredicate at hp
  rcases hl : (tagFields ts).lookup t.key with _ | ps
  · simp [hl] at hp
  · exact List.mem_map_of_mem (Fields.mem_of_lookup hl)

theorem tagFields_predicates {f : String × List TagPredicate} (hf : f ∈ tagFields ts) :
    f.2 = (ts.filter fun t => t.key = f.1).map ReadTag.encoded := by
  rw [← lookup_tagFields, Fields.Ordered.lookup_of_mem (tagFields_ordered ts) hf, Option.getD_some]

theorem forall_tagFields {P : String → TagPredicate → Prop} :
    (∀ f ∈ tagFields ts, ∀ p ∈ f.2, P f.1 p) ↔ ∀ t ∈ ts, P t.key t.encoded := by
  constructor
  · intro h t ht
    have hp : HasPredicate (tagFields ts) t.key t.encoded :=
      hasPredicate_tagFields.2 ⟨t, ht, rfl, rfl⟩
    unfold HasPredicate at hp
    rcases hl : (tagFields ts).lookup t.key with _ | ps
    · simp [hl] at hp
    · rw [hl] at hp
      exact h (t.key, ps) (Fields.mem_of_lookup hl) t.encoded hp
  · rintro h ⟨key, ps⟩ hf p hp
    have hl := Fields.Ordered.lookup_of_mem (tagFields_ordered ts) hf
    obtain ⟨t, ht, rfl, rfl⟩ := hasPredicate_tagFields.1 (show HasPredicate _ key p by
      rw [HasPredicate, hl]
      exact hp)
    exact h t ht

theorem canonicalTagOperator_encoded (t : ReadTag) :
    canonicalTagOperator t.encoded.operator = canonicalTagOperator t.operator := by
  unfold ReadTag.encoded
  split_ifs with h
  · rw [h]
    rfl
  · rfl

theorem fields_encodeCriterion_eq_nil :
    (encodeCriterion ts).fields = [] ↔ ts = [] := by
  constructor
  · intro h
    rcases ts with _ | ⟨t, ts⟩
    · rfl
    · have hp : HasPredicate (tagFields (t :: ts)) t.key t.encoded :=
        hasPredicate_tagFields.2 ⟨t, List.mem_cons_self .., rfl, rfl⟩
      have hnil : tagFields (t :: ts) = [] := List.map_eq_nil_iff.1 h
      rw [hnil] at hp
      simp [HasPredicate] at hp
  · rintro rfl
    rfl

theorem tagFields_ne_nil {f : String × List TagPredicate} (hf : f ∈ tagFields ts) : f.2 ≠ [] := by
  have h : ∀ (ts : List ReadTag) (fields : List (String × List TagPredicate)),
      (∀ f ∈ fields, f.2 ≠ []) →
      ∀ f ∈ ts.foldl (fun fields tag => Fields.insert tag.key
        ((fields.lookup tag.key).getD [] ++ [tag.encoded]) fields) fields, f.2 ≠ [] := by
    intro ts
    induction ts with
    | nil => exact fun fields h => h
    | cons t ts ih =>
      intro fields h
      refine ih _ fun f hf => ?_
      rcases Fields.mem_insert hf with rfl | hf
      · simp
      · exact h f hf
  exact h ts [] (by simp) f hf

namespace Meaning

variable (tag : TagHolds)

theorem field_encodeField (key : String) (data : Json) (ps : List TagPredicate) :
    field tag key data (encodeField ps) = ps.all fun p => predicate tag key p data := by
  unfold encodeField
  split
  · simp [field, predicate, canonicalTagOperator]
  · rfl

theorem criterion_encodeCriterion (ts : List ReadTag) (data : Json) :
    criterion tag (encodeCriterion ts) data = tags tag ts data := by
  have hp : ∀ t : ReadTag, predicate tag t.key t.encoded data
      = (canonicalTagOperator t.operator).any fun op => tag op t.key t.value data := by
    intro t
    unfold predicate
    rw [canonicalTagOperator_encoded]
    rfl
  rw [Bool.eq_iff_iff, criterion, tags, List.all_eq_true, List.all_eq_true]
  simp only [encodeCriterion, List.forall_mem_map, field_encodeField, List.all_eq_true, ← hp]
  exact forall_tagFields (P := fun key p => predicate tag key p data = true)

end Meaning

end Orisun
