import Orisun.Admin.BoundaryCatalog
import Orisun.Lib.Transition

/-!
# The names of locks

Subscriptions and the notification relays of boundaries take their leases under names in one bucket:
a subscription under the boundary and the subscriber's name with two underscores in between, a relay
under the boundary alone. A lease is had by whoever comes first, until it ends.
-/

namespace Orisun.LockNames

inductive Locker where
  | subscription (boundary subscriberName : String)
  | relay (boundary : String)
  deriving DecidableEq, Repr

namespace Locker

def boundary : Locker → String
  | subscription boundary _ => boundary
  | relay boundary => boundary

/-- The name that is passed to `AcquireLock`. -/
def lockName : Locker → String
  | subscription boundary subscriberName => boundary ++ "__" ++ subscriberName
  | relay boundary => boundary

end Locker

structure Bucket where
  owner : String → Option Locker

inductive Action where
  | acquire (l : Locker)
  | release (lockName : String)

def Bucket.step (b : Bucket) : Action → Option Bucket
  | .acquire l =>
    match b.owner l.lockName with
    | none => some ⟨Function.update b.owner l.lockName (some l)⟩
    | some _ => none
  | .release lockName => some ⟨Function.update b.owner lockName none⟩

def Action.isOf (boundaries : Set String) : Action → Prop
  | .acquire l => l.boundary ∈ boundaries
  | .release _ => True

/-- A name that begins another with the separator after it, or but for one underscore is another. -/
def Clashes (b b' : String) : Prop := (b ++ "__").toList <+: b'.toList ∨ b' = b ++ "_"

end Orisun.LockNames
