import Orisun.Lib.Transition
import Orisun.Postgres.GetMatchingEvents

/-!
# One boundary in a PostgreSQL cluster

Transactions take increasing transaction ids (XIDs) and hold them while they are in progress. A
writer of the boundary takes the advisory lock, then an XID, then calls `insert_event_requests_v2`,
whose rows are marked with the XID; the rows appear and the XID ends in one step, and the lock is
released after it. An initialisation takes its XID with the version row's lock; its `UPDATE` unmarks
the rows it sees whose mark is not below that XID, which takes effect when it commits. Any other
transactions of the cluster come and go.
-/

namespace Orisun.Postgres

/-- The holder of the boundary's advisory lock. Others wait for it without an XID. -/
inductive Writer where
  | free
  | locked
  | begun (xid : ℤ)
  | inserted (xid : ℤ) (events : List EventRow) (writes : List WriteRow)
  | ended

def Writer.xid : Writer → Option ℤ
  | begun xid => some xid
  | inserted xid _ _ => some xid
  | _ => none

/-- The holder of the version row's lock; `nulled` are the global ids of the rows it has updated. -/
inductive Initializer where
  | idle
  | begun (xid : ℤ)
  | updated (xid : ℤ) (nulled : List ℤ)

def Initializer.xid : Initializer → Option ℤ
  | idle => none
  | begun xid => some xid
  | updated xid _ => some xid

/-- The next XID, the other transactions in progress, the committed tables, and whether an
initialisation has committed. -/
structure Cluster where
  nextXid : ℤ
  others : List ℤ
  writer : Writer
  initializer : Initializer
  tables : Tables
  initialized : Bool

inductive ClusterAction where
  | begin
  | finish (xid : ℤ)
  | lock
  | assign
  | insert (st : Statement) (requests : List Request)
  | commit
  | abort (drawn : ℕ)
  | release
  | initBegin
  | initUpdate
  | initCommit
  | initAbort

def EventRow.unmark (nulled : List ℤ) (row : EventRow) : EventRow :=
  if row.globalId ∈ nulled then { row with pgXactId := none } else row

namespace Cluster

def inProgress (c : Cluster) : List ℤ :=
  c.others ++ c.writer.xid.toList ++ c.initializer.xid.toList

/-- `pg_snapshot_xmin` of a snapshot that is taken now. -/
def xmin (c : Cluster) : ℤ := c.inProgress.min?.getD c.nextXid

def lock (c : Cluster) : Option Cluster :=
  match c.writer with
  | .free => some { c with writer := .locked }
  | _ => none

def assign (c : Cluster) : Option Cluster :=
  match c.writer with
  | .locked => some { c with nextXid := c.nextXid + 1, writer := .begun c.nextXid }
  | _ => none

def insert (c : Cluster) (st : Statement) (requests : List Request) : Option Cluster :=
  match c.writer with
  | .begun xid =>
    if ∀ r ∈ requests, ValidRequest r then
      match insertEventRequestsV2 { st with currentXactId := xid } c.tables requests with
      | .error _ => none
      | .ok (t, _) => some { c with
          writer := .inserted xid (t.events.drop c.tables.events.length)
            (t.writes.drop c.tables.writes.length)
          tables := { c.tables with sequence := t.sequence } }
    else none
  | _ => none

def commit (c : Cluster) : Option Cluster :=
  match c.writer with
  | .inserted _ events writes => some { c with
      writer := .ended
      tables := { c.tables with
        events := c.tables.events ++ events
        writes := c.tables.writes ++ writes } }
  | _ => none

/-- An aborted call leaves the sequence where it has drawn to. -/
def abort (c : Cluster) (drawn : ℕ) : Option Cluster :=
  match c.writer with
  | .locked => some { c with writer := .ended }
  | .begun _ => some { c with
      writer := .ended
      tables := { c.tables with sequence := c.tables.sequence + drawn } }
  | .inserted _ _ _ => some { c with writer := .ended }
  | _ => none

def release (c : Cluster) : Option Cluster :=
  match c.writer with
  | .ended => some { c with writer := .free }
  | _ => none

def initBegin (c : Cluster) : Option Cluster :=
  match c.initializer with
  | .idle => some { c with nextXid := c.nextXid + 1, initializer := .begun c.nextXid }
  | _ => none

def initUpdate (c : Cluster) : Option Cluster :=
  match c.initializer with
  | .begun xid => some { c with
      initializer := .updated xid ((c.tables.events.filter fun row =>
        row.pgXactId.any fun v => v ≥ xid).map EventRow.globalId) }
  | _ => none

def initCommit (c : Cluster) : Option Cluster :=
  match c.initializer with
  | .updated _ nulled => some { c with
      initializer := .idle
      tables := { c.tables with events := c.tables.events.map (EventRow.unmark nulled) }
      initialized := true }
  | _ => none

def initAbort (c : Cluster) : Option Cluster :=
  match c.initializer with
  | .idle => none
  | _ => some { c with initializer := .idle }

def step (c : Cluster) : ClusterAction → Option Cluster
  | .begin => some { c with nextXid := c.nextXid + 1, others := c.others ++ [c.nextXid] }
  | .finish xid => some { c with others := c.others.erase xid }
  | .lock => c.lock
  | .assign => c.assign
  | .insert st requests => c.insert st requests
  | .commit => c.commit
  | .abort drawn => c.abort drawn
  | .release => c.release
  | .initBegin => c.initBegin
  | .initUpdate => c.initUpdate
  | .initCommit => c.initCommit
  | .initAbort => c.initAbort

/-- The rows an ascending read shows come before those it hides. -/
def StablePrefix (c : Cluster) : Prop :=
  ∀ row ∈ c.tables.events, ∀ row' ∈ c.tables.events, row.position < row'.position →
    row'.readable c.xmin = true → row.readable c.xmin = true

/-- A row that is hidden is followed by rows whose marks are no smaller, and so is the mark of the
writer. -/
structure Ordered (c : Cluster) : Prop where
  rows : c.tables.events.Pairwise fun row row' =>
    ∀ v ∈ row.pgXactId, c.xmin ≤ v → ∃ w ∈ row'.pgXactId, v ≤ w
  writer : ∀ x ∈ c.writer.xid, ∀ row ∈ c.tables.events, ∀ v ∈ row.pgXactId, c.xmin ≤ v → v ≤ x

/-- Where an initialisation commits, no hidden row precedes one it unmarks; and if it is the first,
it keeps no mark that is not below those of the transactions in progress and comes from before it. -/
def InitialisesInOrder (c : Cluster) (a : ClusterAction) : Prop :=
  match a, c.initializer, c.initialized with
  | .initCommit, .updated _ nulled, true => c.tables.events.Pairwise fun row row' =>
      row'.globalId ∈ nulled → row.globalId ∉ nulled → row.readable c.xmin = true
  | .initCommit, .updated xid _, false =>
      ∀ row ∈ c.tables.events, ∀ v ∈ row.pgXactId, v < xid → v < c.xmin
  | _, _, _ => True

/-- A cluster in which no writer and no initialisation is active, with the boundary's rows in the
order of their positions. Before an initialisation their marks may come from anywhere. -/
structure Quiet (c : Cluster) : Prop where
  xids : ∀ x ∈ c.others, x < c.nextXid
  writer : c.writer = .free
  initializer : c.initializer = .idle
  sound : c.tables.log.Sound
  sorted : (c.tables.events.map EventRow.position).Pairwise (· < ·)
  initialized : c.initialized = true →
    c.Ordered ∧ ∀ row ∈ c.tables.events, ∀ v ∈ row.pgXactId, v < c.nextXid

end Cluster

structure QuietCluster where
  cluster : Cluster
  quiet : cluster.Quiet

end Orisun.Postgres
