import Orisun.LatestBatch

/-!
# The context position of a read

Whatever order the matches come in, the context position of a batch is the latest of them.
-/

namespace Orisun

namespace LatestByCriteriaBatch

/-- The batch has a slot for every criterion, and no context position before its first match. -/
structure Ready (count : ℕ) (batch : LatestByCriteriaBatch) : Prop where
  length : batch.found.length = count
  empty : batch.found.any Option.isSome = false → batch.contextPosition = notExistsPosition

theorem ready_empty (count : ℕ) : Ready count (empty count) :=
  ⟨List.length_replicate, fun _ => rfl⟩

theorem Ready.add {count : ℕ} {batch : LatestByCriteriaBatch} {row : ℕ × Position}
    (h : Ready count batch) (hi : row.1 < count) (hp : notExistsPosition < row.2) :
    Ready count (batch.add row) ∧
      (batch.add row).contextPosition = max batch.contextPosition row.2 := by
  refine ⟨⟨(List.length_set ..).trans h.length, fun hnone => ?_⟩, ?_⟩
  · have hset : some row.2 ∈ batch.found.set row.1 (some row.2) :=
      List.mem_set (by rw [h.length]; exact hi) _
    have hany := List.any_eq_false.1 hnone _ hset
    simp at hany
  · unfold LatestByCriteriaBatch.add
    dsimp only
    split_ifs with hany
    · exact laterPosition_eq_max _ _
    · rw [h.empty (by simpa using hany), max_eq_right hp.le]

end LatestByCriteriaBatch

end Orisun
