import Mathlib.Data.List.Basic

/-!
# Histories

A history grows at its end. What each entry says of those before it is kept as the history grows.
-/

namespace History

variable {α : Type*} {P : List α → α → Prop} {past : List α} {e : α}

/-- Each entry stands in the relation to what precedes it. -/
def Each (P : List α → α → Prop) (history : List α) : Prop :=
  ∀ past e rest, history = past ++ e :: rest → P past e

theorem each_nil : Each P [] := by
  intro past e rest h
  simp at h

theorem each_concat : Each P (past ++ [e]) ↔ Each P past ∧ P past e := by
  constructor
  · intro h
    refine ⟨fun past' e' rest hsplit => h past' e' (rest ++ [e]) ?_, h past e [] rfl⟩
    rw [hsplit, List.append_assoc, List.cons_append]
  · rintro ⟨h, he⟩ past' e' rest hsplit
    rcases List.eq_nil_or_concat rest with rfl | ⟨rest', last, rfl⟩
    · obtain ⟨rfl, hlast⟩ := List.append_inj' hsplit rfl
      obtain rfl := List.singleton_inj.1 hlast
      exact he
    · rw [List.concat_eq_append, ← List.cons_append, ← List.append_assoc] at hsplit
      obtain ⟨hpast, -⟩ := List.append_inj' hsplit rfl
      exact h past' e' rest' hpast

end History
