import Orisun.Criteria

/-!
# The latest match of each criterion

What a read of the latest events returns: for every criterion the event found, here its position,
and the latest of these positions as the position of the whole query.
-/

namespace Orisun

structure LatestByCriteriaBatch where
  found : List (Option Position)
  contextPosition : Position
  deriving DecidableEq, Repr

def LatestByCriteriaBatch.empty (count : ℕ) : LatestByCriteriaBatch :=
  ⟨List.replicate count none, notExistsPosition⟩

/-- A match of the criterion at the index: the first one sets the context position, a later one
moves it forwards. -/
def LatestByCriteriaBatch.add (batch : LatestByCriteriaBatch) (row : ℕ × Position) :
    LatestByCriteriaBatch where
  found := batch.found.set row.1 (some row.2)
  contextPosition :=
    if batch.found.any Option.isSome then laterPosition batch.contextPosition row.2 else row.2

end Orisun
