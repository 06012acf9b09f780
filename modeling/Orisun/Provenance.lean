import Orisun.Postgres.Clients
import Orisun.Sqlite.Clients
import Orisun.WriteContext

/-!
# Write provenance

What a boundary's clients can read back of the contexts of their saves: those of the accepted ones,
by the ids their events carry, and nothing else.
-/

namespace Orisun

/-- The query of `GetWriteContext` takes the first row it is given. -/
def Postgres.writeContextQuery (t : Postgres.Tables) (id : Position) : Option (List Observation) :=
  (contextRows t.writes (t.events.map Postgres.EventRow.position) id).head?

def Sqlite.writeContextQuery (db : Sqlite.Database) (id : Position) : Option (List Observation) :=
  (contextRows db.tables.writes (db.tables.events.map Sqlite.EventRow.position) id).getLast?

def Event.writeId (e : Event) : Option String := e.data.getText? "__writeId"

structure WriteProvenance {B : Backend} (query : B.State → Position → Option (List Observation))
    (w : World B) : Prop where
  /-- By the id of any of its events, the context of an accepted save is what its observations
  were normalised to. -/
  returned : ∀ s ∈ w.saved, s.answer.isAccepted = true → ∀ e ∈ s.answer.added (B.events w.store),
    ∃ writeId checks, e.writeId = some writeId ∧
      consistencyChecksFromObservations s.call.consistency = .ok checks ∧
      ∀ registry boundary, boundary ≠ "" → registry boundary = some w.store →
        getWriteContext registry query ⟨boundary, writeId⟩
          = .ok ⟨writeId, checks.map fun check => .of check.criteria check.position⟩
  /-- Any other id is refused. -/
  refused : ∀ writeId, (∀ s ∈ w.saved, s.answer.isAccepted = true →
      ∀ e ∈ s.answer.added (B.events w.store), e.writeId ≠ some writeId) →
    ∀ registry boundary, registry boundary = some w.store →
      ∃ e, getWriteContext registry query ⟨boundary, writeId⟩ = .error e ∧ e.isRefusal = true

end Orisun
