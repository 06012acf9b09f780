import Mathlib.Data.List.Basic

/-!
# Three-valued logic

SQL's truth values, `none` for unknown. A conjunction is true exactly if every part is and a
disjunction exactly if some part is, which is all a `WHERE` asks for.
-/

namespace Ternary

def and : Option Bool → Option Bool → Option Bool
  | some false, _ => some false
  | _, some false => some false
  | some true, some true => some true
  | _, _ => none

def or : Option Bool → Option Bool → Option Bool
  | some true, _ => some true
  | _, some true => some true
  | some false, some false => some false
  | _, _ => none

/-- The conjunction of a list, true where it is empty. -/
def all (l : List (Option Bool)) : Option Bool := l.foldl and (some true)

/-- The disjunction of a list, false where it is empty. -/
def any (l : List (Option Bool)) : Option Bool := l.foldl or (some false)

theorem and_eq_true {a b : Option Bool} : and a b = some true ↔ a = some true ∧ b = some true := by
  rcases a with _ | _ | _ <;> rcases b with _ | _ | _ <;> simp [and]

theorem foldl_and_eq_true : ∀ {l : List (Option Bool)} {a : Option Bool},
    l.foldl and a = some true ↔ a = some true ∧ ∀ x ∈ l, x = some true
  | [], a => by simp
  | x :: l, a => by
    rw [List.foldl_cons, foldl_and_eq_true, and_eq_true, List.forall_mem_cons, and_assoc]

theorem all_eq_true {l : List (Option Bool)} : all l = some true ↔ ∀ x ∈ l, x = some true := by
  simp [all, foldl_and_eq_true]

theorem or_eq_true {a b : Option Bool} : or a b = some true ↔ a = some true ∨ b = some true := by
  rcases a with _ | _ | _ <;> rcases b with _ | _ | _ <;> simp [or]

theorem foldl_or_eq_true : ∀ {l : List (Option Bool)} {a : Option Bool},
    l.foldl or a = some true ↔ a = some true ∨ ∃ x ∈ l, x = some true
  | [], a => by simp
  | x :: l, a => by
    rw [List.foldl_cons, foldl_or_eq_true, or_eq_true, List.exists_mem_cons_iff, or_assoc]

theorem any_eq_true {l : List (Option Bool)} : any l = some true ↔ ∃ x ∈ l, x = some true := by
  simp [any, foldl_or_eq_true]

theorem map_eq_true {α : Type*} {x : Option α} {f : α → Bool} :
    x.map f = some true ↔ x.any f = true := by
  cases x <;> simp

end Ternary
