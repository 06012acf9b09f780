import Orisun.Criteria
import Orisun.Proofs.Json

/-!
# A criterion's text is its identity

Criteria hold no number, so two of them with one canonical text are the same criterion.
-/

namespace Orisun

namespace Json

theorem numberFreeItems_of_forall : ∀ {js : List Json}, (∀ j ∈ js, j.NumberFree) →
    NumberFreeItems js
  | [], _ => trivial
  | j :: _, h => ⟨h j (List.mem_cons_self ..),
      numberFreeItems_of_forall fun i hi => h i (List.mem_cons_of_mem j hi)⟩

theorem numberFreeFields_of_forall : ∀ {fs : List (String × Json)}, (∀ f ∈ fs, f.2.NumberFree) →
    NumberFreeFields fs
  | [], _ => trivial
  | f :: _, h => ⟨h f (List.mem_cons_self ..),
      numberFreeFields_of_forall fun i hi => h i (List.mem_cons_of_mem f hi)⟩

end Json

theorem TagPredicate.toJson_injective : Function.Injective TagPredicate.toJson := by
  rintro ⟨o, v⟩ ⟨o', v'⟩ h
  simpa [TagPredicate.toJson, and_comm] using h

theorem TagField.toJson_injective : Function.Injective TagField.toJson := by
  rintro (v | ps) (v' | ps') h
  · simpa [TagField.toJson] using h
  · simp [TagField.toJson] at h
  · simp [TagField.toJson] at h
  · simp only [TagField.toJson, Json.array.injEq] at h
    rw [List.map_injective_iff.2 TagPredicate.toJson_injective h]

theorem TagField.numberFree_toJson : ∀ f : TagField, f.toJson.NumberFree
  | .scalar _ => trivial
  | .predicates ps => Json.numberFreeItems_of_forall fun j hj => by
      obtain ⟨p, -, rfl⟩ := List.mem_map.1 hj
      exact ⟨trivial, trivial, trivial⟩

namespace EncodedCriterion

theorem ext_fields {c d : EncodedCriterion} (h : c.fields = d.fields) : c = d := by
  rcases c with ⟨fs, _⟩
  rcases d with ⟨gs, _⟩
  obtain rfl : fs = gs := h
  rfl

theorem numberFree_toJson (c : EncodedCriterion) : c.toJson.NumberFree :=
  Json.numberFreeFields_of_forall fun f hf => by
    obtain ⟨g, -, rfl⟩ := List.mem_map.1 hf
    exact g.2.numberFree_toJson

theorem toJson_injective : Function.Injective toJson := by
  intro c d h
  simp only [toJson, Json.object.injEq] at h
  refine ext_fields (List.map_injective_iff.2 ?_ h)
  rintro ⟨k, f⟩ ⟨k', f'⟩ hf
  obtain ⟨hk, hf⟩ := Prod.mk.inj hf
  exact Prod.ext hk (TagField.toJson_injective hf)

theorem text_injective : Function.Injective text := fun c d h =>
  toJson_injective (Json.text_inj c.numberFree_toJson d.numberFree_toJson h)

end EncodedCriterion

end Orisun
