import Orisun.Json
import Orisun.Position

/-!
# The positions of a boundary

What the saves of a boundary that were accepted have stored, in the order they were accepted in.
-/

namespace Orisun

/-- An event as it is stored: its position, the write it refers to and its document. -/
structure LedgerRow where
  position : Position
  writeId : ℤ
  data : Json

/-- The rows of a save that was accepted, and the position it was answered. -/
structure LedgerEntry where
  rows : List LedgerRow
  position : Position

structure LedgerEntry.Placed (entry : LedgerEntry) : Prop where
  commit : ∀ row ∈ entry.rows, row.position.commitPosition = entry.position.commitPosition
  prepares : entry.rows.Pairwise fun row row' =>
    row.position.preparePosition < row'.position.preparePosition
  last : entry.rows.getLast?.map LedgerRow.position = some entry.position
  /-- No event is at `(0, 0)` or at `(-1, -1)`. -/
  positive : 0 < entry.position.commitPosition
  writeId : ∀ row ∈ entry.rows, row.writeId = entry.position.preparePosition ∧
    row.data.get? "__writeId" =
      some (.string (writeIdText entry.position.commitPosition entry.position.preparePosition))

/-- The stored rows and the ids of the write rows are those of the saves, in their order. -/
structure Ledger (rows : List LedgerRow) (writes : List ℤ) (entries : List LedgerEntry) : Prop where
  stored : rows = entries.flatMap LedgerEntry.rows
  written : writes = entries.map fun entry => entry.position.preparePosition
  placed : ∀ entry ∈ entries, entry.Placed
  commits : entries.Pairwise fun entry entry' =>
    entry.position.commitPosition < entry'.position.commitPosition
  ordered : rows.Pairwise fun row row' => row.position < row'.position
  sentinels : ∀ row ∈ rows, row.position ≠ ⟨0, 0⟩ ∧ row.position ≠ notExistsPosition
  /-- A row's write is there exactly once. -/
  oneWrite : ∀ row ∈ rows, writes.count row.writeId = 1

/-- The entries are those of the answers that are positions, with as many rows as were saved. -/
def Answers (answers : List (ℕ × Option Position)) (entries : List LedgerEntry) : Prop :=
  (answers.filterMap fun a => a.2.map fun p => (a.1, p)) =
    entries.map fun entry => (entry.rows.length, entry.position)

end Orisun
