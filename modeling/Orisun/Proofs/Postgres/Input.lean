import Orisun.Postgres.Input
import Orisun.Proofs.Postgres.Clients

/-!
# When a batch returns

The criteria of a prepared save never raise. Its events do: a value `jsonb` refuses raises for the
whole batch, and an id `uuid` refuses does so when the save is accepted.
-/

namespace Orisun.Postgres.Wire

variable {server : Server}

variable {p : BatchPayload}

theorem prepareSave_eq_ok {events : List PreparedEvent} {checks : List ConsistencyCheck}
    (h : prepareSave events checks = .ok p) :
    p.consistency = checks.map storedObservation ∧ (∀ check ∈ checks, validateCheck check = .ok ()) ∧
      p.events.length = events.length := by
  unfold prepareSave at h
  split at h
  · cases h
  · rename_i hvalid
    split at h
    · cases h
    · rename_i wire hwire
      split_ifs at h
      cases h
      unfold validatePostgresSaveInput at hvalid
      split_ifs at hvalid
      obtain ⟨⟨⟩, -, hchecks⟩ := Attempt.bind_eq_ok.1 hvalid
      exact ⟨rfl, Attempt.forM_eq_ok hchecks, (Attempt.forall₂_of_mapM hwire).length_eq.symm⟩

/-- What preparing a save gives the batch. -/
structure Prepared (p : BatchPayload) : Prop where
  readable : p.consistency.mapM observationIn = some p.consistency
  valid : ∀ o ∈ p.consistency, o.criteria ≠ [] ∧ ∀ c ∈ o.criteria, ValidCriterion c

variable {r : Request}

def sampleEvents (eventId : String) (metadata : JsonText) : List PreparedEvent :=
  [⟨eventId, "Opened", some (.object []), some metadata⟩]

end Orisun.Postgres.Wire
