import Orisun.Ledger
import Orisun.Sqlite.Serial

/-!
# Runs of flushes

The rows of a boundary file as a ledger, and the arithmetic on positions as the machine does it.
-/

namespace Orisun.Sqlite

def EventRow.row (r : EventRow) : LedgerRow := ⟨r.position, r.writeId, r.data⟩

/-- How many events each save of the queue had, and the position it is answered. -/
def answers (saves : List Save) (outcomes : List (Except SaveError Position)) :
    List (ℕ × Option Position) :=
  (saves.map fun s => s.inserts.length).zip (outcomes.map Except.toOption)

/-- An `int64` result, which wraps around. -/
def int64 (x : ℤ) : ℤ := x.bmod (2 ^ 64)

/-- The positions `saveEventsOnConn` computes for `n` events from `firstId` on, and the next one
after them: the last, those of the events, and the next. `wrap` is applied to each result. -/
def positionsWith (wrap : ℤ → ℤ) (firstId : ℤ) (n : ℕ) : Option (ℤ × List ℤ × ℤ) :=
  if n = 0 ∨ wrap n > wrap (maxInt64 - firstId) then none
  else
    let lastId := wrap (wrap (firstId + wrap n) - 1)
    some (lastId, (List.range n).map fun i : ℕ => wrap (firstId + wrap (i : ℤ)), wrap (lastId + 1))

def idsBelow (nextId : ℤ) : List ℤ :=
  (List.range (nextId - 1).toNat).map fun i : ℕ => (i : ℤ) + 1

end Orisun.Sqlite
