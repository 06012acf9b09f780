import Mathlib.Algebra.Order.Ring.Int
import Orisun.Criteria
import Orisun.Lib.Netstring

/-!
# The observations of a save

A client sends back the queries it read with the positions they stood at. Every query is normalised
before it is checked: tags are validated, written with one spelling of equality, freed of duplicates
and sorted, and so are the criteria. Queries are the same if their normal forms are.
-/

namespace Orisun

def maxConsistencyObservations : ℕ := 1024
def maxConsistencyCriteria : ℕ := 4096
def maxConsistencyTags : ℕ := 16384

structure Criterion where
  tags : List (Option ReadTag)
  deriving DecidableEq, Repr

structure Query where
  criteria : List (Option Criterion)
  deriving DecidableEq, Repr

structure ConsistencyObservation where
  query : Option Query
  position : Option Position
  deriving DecidableEq, Repr

inductive QueryError where
  | noCriteria
  | noTags (criterionIndex : ℕ)
  | nilTag (criterionIndex tagIndex : ℕ)
  | invalidTag (e : TagError)
  | repeatedKey (criterionIndex : ℕ) (key : String)
  deriving DecidableEq, Repr

inductive ConsistencyError where
  | tooManyObservations (count : ℕ)
  | nilObservation (index : ℕ)
  | noPosition (index : ℕ)
  | invalidPosition (index : ℕ)
  | tooManyCriteria
  | tooManyTags
  | invalidQuery (index : ℕ) (e : QueryError)
  | contradiction (index : ℕ)
  deriving DecidableEq, Repr

def tagIdentity (tag : ReadTag) : String :=
  Netstring.encode tag.key ++ (Netstring.encode tag.operator ++ Netstring.encode tag.value)

def normalizedTag (tag : ReadTag) : ReadTag :=
  if canonicalTagOperator tag.operator = some .eq then { tag with operator := "" } else tag

/-- The tags of a criterion so far, by identity, and the value each key must equal. -/
structure Predicates where
  predicates : List (String × ReadTag) := []
  equalities : List (String × String) := []

def addTag (criterionIndex : ℕ) (s : Predicates) (tag : Option ReadTag × ℕ) :
    Except QueryError Predicates :=
  match tag.1 with
  | none => .error (.nilTag criterionIndex tag.2)
  | some t =>
    match validateTag t with
    | .error e => .error (.invalidTag e)
    | .ok () =>
      let predicates :=
        Fields.insert (tagIdentity (normalizedTag t)) (normalizedTag t) s.predicates
      if canonicalTagOperator t.operator = some .eq then
        if (s.equalities.lookup t.key).any (· ≠ t.value)
        then .error (.repeatedKey criterionIndex t.key)
        else .ok ⟨predicates, Fields.insert t.key t.value s.equalities⟩
      else .ok ⟨predicates, s.equalities⟩

def tagLess (a b : ReadTag) : Bool :=
  if a.key ≠ b.key then a.key < b.key
  else if a.operator ≠ b.operator then a.operator < b.operator
  else a.value < b.value

def normalizeCriterion (criterionIndex : ℕ) (criterion : Option Criterion) :
    Except QueryError ReadCriterion :=
  match criterion with
  | none => .error (.noTags criterionIndex)
  | some c =>
    if c.tags = [] then .error (.noTags criterionIndex)
    else (c.tags.zipIdx.foldlM (addTag criterionIndex) {}).map fun s =>
      ⟨(s.predicates.map Prod.snd).mergeSort fun a b => !tagLess b a⟩

def criterionKey (criterion : ReadCriterion) : String :=
  Netstring.concat tagIdentity criterion.tags

/-- The distinct criteria of a query so far, by key, and their keys. -/
structure NormalizedCriteria where
  criteriaByKey : List (String × ReadCriterion) := []
  keys : List String := []

def addCriterion (s : NormalizedCriteria) (criterion : Option Criterion × ℕ) :
    Except QueryError NormalizedCriteria :=
  (normalizeCriterion criterion.2 criterion.1).map fun normalized =>
    let key := criterionKey normalized
    if (s.criteriaByKey.lookup key).isSome then s
    else ⟨Fields.insert key normalized s.criteriaByKey, s.keys ++ [key]⟩

/-- The normal form of a query and the key it is known by. -/
def normalizeConsistencyQuery (query : Option Query) :
    Except QueryError (List ReadCriterion × String) :=
  match query with
  | none => .error .noCriteria
  | some q =>
    if q.criteria = [] then .error .noCriteria
    else (q.criteria.zipIdx.foldlM addCriterion {}).map fun s =>
      let keys := s.keys.mergeSort fun a b => decide (a ≤ b)
      (keys.map fun key => (s.criteriaByKey.lookup key).getD ⟨[]⟩,
        Netstring.concat Netstring.encode keys)

def validConsistencyPosition (position : Position) : Bool :=
  position == notExistsPosition ||
    !(decide (position.commitPosition < 0) || decide (position.preparePosition < 0))

/-- The checks so far, where each query was observed, and what was counted. -/
structure ObservationState where
  checks : List ConsistencyCheck := []
  seen : List (String × Position) := []
  totalCriteria : ℕ := 0
  totalTags : ℕ := 0

def Query.tagCount (q : Query) : ℕ :=
  (q.criteria.map fun c => (c.map fun c => c.tags.length).getD 0).sum

def addObservation (s : ObservationState) (observation : Option ConsistencyObservation × ℕ) :
    Except ConsistencyError ObservationState :=
  match observation.1 with
  | none => .error (.nilObservation observation.2)
  | some o =>
    match o.position with
    | none => .error (.noPosition observation.2)
    | some position =>
      if !validConsistencyPosition position then .error (.invalidPosition observation.2) else
      let totalCriteria := s.totalCriteria + (o.query.map fun q => q.criteria.length).getD 0
      let totalTags := s.totalTags + (o.query.map Query.tagCount).getD 0
      if totalCriteria > maxConsistencyCriteria then .error .tooManyCriteria
      else if totalTags > maxConsistencyTags then .error .tooManyTags
      else match normalizeConsistencyQuery o.query with
        | .error e => .error (.invalidQuery observation.2 e)
        | .ok (criteria, key) =>
          match s.seen.lookup key with
          | some previous =>
            if previous ≠ position then .error (.contradiction observation.2)
            else .ok { s with totalCriteria := totalCriteria, totalTags := totalTags }
          | none => .ok ⟨s.checks ++ [⟨criteria, position⟩],
              Fields.insert key position s.seen, totalCriteria, totalTags⟩

def consistencyChecksFromObservations (observations : List (Option ConsistencyObservation)) :
    Except ConsistencyError (List ConsistencyCheck) :=
  if observations.length > maxConsistencyObservations
  then .error (.tooManyObservations observations.length)
  else (observations.zipIdx.foldlM addObservation {}).map ObservationState.checks

def Query.ofCriteria (criteria : List ReadCriterion) : Query :=
  ⟨criteria.map fun c => some ⟨c.tags.map some⟩⟩

def ConsistencyObservation.of (criteria : List ReadCriterion) (position : Position) :
    ConsistencyObservation :=
  ⟨some (.ofCriteria criteria), some position⟩

end Orisun
