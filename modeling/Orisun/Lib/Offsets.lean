import Mathlib.Data.List.Basic

/-!
# Offset tables

Lists laid out end to end in one list, with a table of where each of them starts, counted from one
and closed by the first place past the end. Walking from one entry of the table to the next reads
one of the lists back (`map_range`).
-/

namespace Offsets

variable {α : Type*}

/-- Where each list starts if the first of them does at `first`. -/
def starts : ℕ → List (List α) → List ℕ
  | _, [] => []
  | first, l :: ls => first :: starts (first + l.length) ls

/-- The places from one entry of the table up to the next; `index` counts from one. -/
def range (offsets : List ℕ) (index : ℕ) : List ℕ :=
  let first := (offsets[index - 1]?).getD 0
  List.range' first ((offsets[index]?).getD 0 - first)

def table (ls : List (List α)) : List ℕ := starts 1 ls ++ [ls.flatten.length + 1]

theorem starts_append : ∀ (first : ℕ) (ls ls' : List (List α)),
    starts first (ls ++ ls') = starts first ls ++ starts (first + ls.flatten.length) ls'
  | first, [], ls' => by simp [starts]
  | first, l :: ls, ls' => by
    simp only [List.cons_append, starts, starts_append (first + l.length) ls ls',
      List.flatten_cons, List.length_append, Nat.add_assoc]

@[simp] theorem length_starts : ∀ (first : ℕ) (ls : List (List α)),
    (starts first ls).length = ls.length
  | _, [] => rfl
  | first, l :: ls => by simp [starts, length_starts (first + l.length) ls]

theorem range_table (ls : List (List α)) (l : List α) (ls' : List (List α)) :
    range (table (ls ++ l :: ls')) (ls.length + 1)
      = List.range' (ls.flatten.length + 1) l.length := by
  have htable : table (ls ++ l :: ls') = starts 1 ls ++ ((ls.flatten.length + 1) ::
      (starts (1 + ls.flatten.length + l.length) ls' ++
        [ls.flatten.length + l.length + ls'.flatten.length + 1])) := by
    simp [table, starts_append, starts, Nat.add_comm, Nat.add_left_comm, Nat.add_assoc]
  have hnext : (starts (1 + ls.flatten.length + l.length) ls' ++
      [ls.flatten.length + l.length + ls'.flatten.length + 1])[0]?
        = some (ls.flatten.length + l.length + 1) := by
    rcases ls' with _ | ⟨l', ls'⟩
    · simp [starts]
    · simp [starts]
      omega
  rw [htable, range]
  simp only [Nat.add_sub_cancel]
  rw [List.getElem?_append_right (by simp), List.getElem?_append_right (by simp)]
  simp only [length_starts, Nat.sub_self, Nat.add_sub_cancel_left, List.getElem?_cons_zero,
    List.getElem?_cons_succ, hnext, Option.getD_some]
  congr 1
  omega

theorem map_range' (pre l post : List α) :
    (List.range' (pre.length + 1) l.length).map (fun i => (pre ++ l ++ post)[i - 1]?)
      = l.map some := by
  apply List.ext_getElem
  · simp
  · intro i h _
    have hi : i < l.length := by simpa using h
    simp only [List.getElem_map, List.getElem_range']
    rw [show pre.length + 1 + 1 * i - 1 = pre.length + i by omega, List.append_assoc,
      List.getElem?_append_right (by omega), Nat.add_sub_cancel_left,
      List.getElem?_append_left hi, List.getElem?_eq_getElem hi]

section

variable {ls : List (List α)} {k : ℕ} {l : List α} (h : ls[k]? = some l)
include h

theorem split_at : ls = ls.take k ++ l :: ls.drop (k + 1) ∧ (ls.take k).length = k := by
  obtain ⟨hk, rfl⟩ := List.getElem?_eq_some_iff.1 h
  refine ⟨?_, List.length_take_of_le (Nat.le_of_lt hk)⟩
  rw [List.getElem_cons_drop, List.take_append_drop]

theorem range_of_getElem? :
    range (table ls) (k + 1) = List.range' ((ls.take k).flatten.length + 1) l.length := by
  obtain ⟨hsplit, hlen⟩ := split_at h
  have hr := range_table (ls.take k) l (ls.drop (k + 1))
  rwa [← hsplit, hlen] at hr

theorem map_range : (range (table ls) (k + 1)).map (fun i => ls.flatten[i - 1]?) = l.map some := by
  rw [range_of_getElem? h]
  have hm := map_range' (ls.take k).flatten l (ls.drop (k + 1)).flatten
  rw [List.append_assoc, ← List.flatten_cons, ← List.flatten_append, ← (split_at h).1] at hm
  exact hm

theorem foldl_range {σ : Type*} (g : σ → Option α → σ) (s : σ) :
    (range (table ls) (k + 1)).foldl (fun s i => g s ls.flatten[i - 1]?) s
      = l.foldl (fun s x => g s (some x)) s := by
  have hm := congrArg (List.foldl g s) (map_range h)
  rwa [List.foldl_map, List.foldl_map] at hm

theorem findSome?_range {β : Type*} {f : ℕ → Option β} {g : α → Option β}
    (hf : ∀ i ∈ range (table ls) (k + 1), f i = ls.flatten[i - 1]?.bind g) :
    (range (table ls) (k + 1)).findSome? f = l.findSome? g := by
  have hm : (range (table ls) (k + 1)).map f = l.map g := by
    rw [List.map_congr_left hf]
    simpa [Function.comp_def] using congrArg (List.map (·.bind g)) (map_range h)
  simpa only [List.findSome?_map, Function.id_comp] using congrArg (List.findSome? id) hm

theorem one_le_of_mem_range {i : ℕ} (hi : i ∈ range (table ls) (k + 1)) : 1 ≤ i := by
  rw [range_of_getElem? h, List.mem_range'_1] at hi
  omega

end

end Offsets
