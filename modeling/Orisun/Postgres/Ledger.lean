import Orisun.Ledger
import Orisun.Postgres.Serial

/-!
# Runs of calls

A call of `insert_event_requests_v2` in a transaction of its own. One that does not commit leaves
the sequence where it has drawn to.
-/

namespace Orisun.Postgres

/-- A call, whether its transaction commits where it raises nothing, and how many values it has
drawn where it does not. -/
structure Call where
  statement : Statement
  requests : List Request
  valid : ∀ r ∈ requests, ValidRequest r
  commits : Bool
  drawn : ℕ

def ResultRow.position (row : ResultRow) : Option Position :=
  row.latestTransactionId.bind fun tx => row.latestGlobalId.map fun gid => ⟨tx, gid⟩

/-- How many events each request had, and the position it is answered. -/
def Call.answers (call : Call) (rows : List ResultRow) : List (ℕ × Option Position) :=
  (call.requests.map fun r => r.events.length).zip (rows.map ResultRow.position)

def Call.run (call : Call) (t : Tables) : Tables × List (ℕ × Option Position) :=
  match call.commits, insertEventRequestsV2 call.statement t call.requests with
  | true, .ok (t', rows) => (t', call.answers rows)
  | _, _ => ({ t with sequence := t.sequence + call.drawn },
      call.requests.map fun r => (r.events.length, none))

def runCalls : Tables → List Call → Tables × List (ℕ × Option Position)
  | t, [] => (t, [])
  | t, call :: calls =>
    let r := call.run t
    let s := runCalls r.1 calls
    (s.1, r.2 ++ s.2)

def StoredEvent.row (e : StoredEvent) : LedgerRow := ⟨e.position, e.writeId, e.data⟩

end Orisun.Postgres
