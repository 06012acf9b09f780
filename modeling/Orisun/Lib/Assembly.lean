import Mathlib.Data.List.Nodup
import Mathlib.Data.List.Perm.Basic
import Mathlib.Data.List.Range

/-!
# Assembling a list from its entries

Entries come in any order, each with its place. A list is assembled by writing each entry into its
place and marking the place as seen.
-/

namespace Assembly

variable {α : Type*}

structure Slots (α : Type*) where
  seen : List Bool
  values : List α
  deriving DecidableEq, Repr

namespace Slots

def vacant (n : ℕ) (a : α) : Slots α := ⟨List.replicate n false, List.replicate n a⟩

def put (s : Slots α) (i : ℕ) (a : α) : Slots α := ⟨s.seen.set i true, s.values.set i a⟩

end Slots

variable {n i : ℕ} {a : α} {entries : List (ℕ × α)} {s : Slots α}

/-- The entries have been written, each into a place of its own. -/
structure Holds (n : ℕ) (entries : List (ℕ × α)) (s : Slots α) : Prop where
  places : (entries.map Prod.fst).Nodup
  bounded : ∀ e ∈ entries, e.1 < n
  seenLength : s.seen.length = n
  seen : ∀ i < n, s.seen[i]? = some (decide (i ∈ entries.map Prod.fst))
  valuesLength : s.values.length = n
  values : ∀ e ∈ entries, s.values[e.1]? = some e.2

theorem holds_vacant (n : ℕ) (a : α) : Holds n [] (Slots.vacant n a) where
  places := List.nodup_nil
  bounded := by simp
  seenLength := by simp [Slots.vacant]
  seen i hi := by simp [Slots.vacant, hi]
  valuesLength := by simp [Slots.vacant]
  values := by simp

theorem Holds.seen_eq_false (h : Holds n entries s) :
    s.seen[i]? = some false ↔ i < n ∧ i ∉ entries.map Prod.fst := by
  by_cases hi : i < n
  · rw [h.seen i hi]
    simp [hi]
  · rw [List.getElem?_eq_none (by rw [h.seenLength]; omega)]
    simp [hi]

theorem Holds.put (h : Holds n entries s) (hi : s.seen[i]? = some false) (a : α) :
    Holds n (entries ++ [(i, a)]) (s.put i a) := by
  obtain ⟨hlt, hnot⟩ := h.seen_eq_false.1 hi
  refine ⟨?_, ?_, ?_, fun j hj => ?_, ?_, fun e he => ?_⟩
  · rw [List.map_append, List.map_singleton, List.nodup_append]
    refine ⟨h.places, List.nodup_singleton i, fun j hj k hk => ?_⟩
    rw [List.mem_singleton.1 hk]
    rintro rfl
    exact hnot hj
  · intro e he
    rcases List.mem_append.1 he with he | he
    · exact h.bounded e he
    · rw [List.mem_singleton.1 he]
      exact hlt
  · simp [Slots.put, h.seenLength]
  · by_cases hij : i = j
    · subst hij
      simp [Slots.put, h.seenLength, hlt]
    · simp only [Slots.put, List.getElem?_set, hij, if_false, h.seen j hj]
      simp [Ne.symm hij]
  · simp [Slots.put, h.valuesLength]
  · rcases List.mem_append.1 he with he | he
    · have hne : i ≠ e.1 := fun hie => hnot (List.mem_map.2 ⟨e, he, hie.symm⟩)
      simp only [Slots.put, List.getElem?_set, hne, if_false]
      exact h.values e he
    · rw [List.mem_singleton.1 he]
      simp [Slots.put, h.valuesLength, hlt]

theorem Holds.all_seen (h : Holds n entries s) :
    false ∉ s.seen ↔ (entries.map Prod.fst).Perm (List.range n) := by
  rw [List.perm_ext_iff_of_nodup h.places List.nodup_range]
  constructor
  · intro hall i
    constructor
    · intro hi
      obtain ⟨e, he, rfl⟩ := List.mem_map.1 hi
      exact List.mem_range.2 (h.bounded e he)
    · intro hi
      by_contra hnot
      exact hall (List.mem_of_getElem? (h.seen_eq_false.2 ⟨List.mem_range.1 hi, hnot⟩))
  · intro hall hfalse
    obtain ⟨i, hi⟩ := List.mem_iff_getElem?.1 hfalse
    obtain ⟨hlt, hnot⟩ := h.seen_eq_false.1 hi
    exact hnot ((hall i).2 (List.mem_range.2 hlt))

theorem Holds.eq_values (h : Holds n entries s)
    (hperm : (entries.map Prod.fst).Perm (List.range n)) {values : List α}
    (hlen : values.length = n) (hvalues : ∀ e ∈ entries, values[e.1]? = some e.2) :
    values = s.values := by
  refine List.ext_getElem? fun i => ?_
  by_cases hi : i < n
  · obtain ⟨e, he, rfl⟩ := List.mem_map.1 (hperm.mem_iff.2 (List.mem_range.2 hi))
    rw [hvalues e he, h.values e he]
  · rw [List.getElem?_eq_none (by omega), List.getElem?_eq_none (by rw [h.valuesLength]; omega)]

end Assembly
