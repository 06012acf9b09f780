import Orisun.Delivery
import Orisun.Postgres.Cluster

/-!
# A subscription on PostgreSQL

The reader of a subscription pages through a boundary behind the visibility barrier, while writers
of the boundary and other transactions of the cluster go on. The boundary has been initialised
before.
-/

namespace Orisun.Postgres

/-- Whether an event matches a subscription's query; criteria without tags do not restrict it. -/
def matchesQuery (query : Option Query) (event : Event) : Bool :=
  let criteria := (encodeQueryCriteria query).filter (·.fields ≠ [])
  criteria.isEmpty || queryHolds criteria event.data

def ClusterAction.isInitialisation : ClusterAction → Bool
  | .initBegin => true
  | .initUpdate => true
  | .initCommit => true
  | .initAbort => true
  | _ => false

structure Subscriber where
  cluster : Cluster
  reader : Reader

inductive SubscriberAction where
  | cluster (action : ClusterAction)
  | wake
  | read
  | reader (action : ReaderAction)
  | restart

namespace Subscriber

/-- A read that returns its rows. One that raises is among the reader's failures. -/
def read (s : Subscriber) (query : Option Query) : Option Subscriber :=
  match getBatch s.cluster.tables.events s.cluster.xmin query s.reader.drain.request with
  | .error _ => none
  | .ok rows => (s.reader.receiveBatch (rows.map EventRow.event)).map fun reader =>
      { s with reader := reader }

def step (query : Option Query) (s : Subscriber) : SubscriberAction → Option Subscriber
  | .cluster action =>
    if action.isInitialisation then none
    else (s.cluster.step action).map fun cluster => { s with cluster := cluster }
  | .wake => some { s with reader := s.reader.wake }
  | .read => s.read query
  | .reader action => (s.reader.step action).map fun reader => { s with reader := reader }
  | .restart => s.reader.restart.map fun reader => { s with reader := reader }

end Subscriber

/-- The committed events a subscription from the position is for. -/
def Cluster.committed (c : Cluster) (query : Option Query) (after : Position) : List Event :=
  GrowingLog.after Event.position (some after)
    ((c.tables.events.map EventRow.event).filter (matchesQuery query))

end Orisun.Postgres
