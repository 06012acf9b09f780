import Orisun.Lib.JsonPath
import Orisun.Number
import Orisun.SqlPart

/-!
# The predicate the SQLite backend renders

`renderCriterionPredicate` compares a field's scalar text, or by order a value of the target's own
type, numbers by their tokens. Values with a NUL byte and unsupported operators are not rendered.
-/

namespace Orisun.Sqlite

/-- SQLite's JSON functions on a document and the plans of its statements. -/
structure JsonFunctions where
  /-- What a key's quoted path leads to, if anything. A malformed step that is reached is an error. -/
  lookup : Json → String → Except JsonPath.PathError (Option Json)
  /-- The text a value is cast to, `none` for `NULL`. -/
  castText : Json → Option String
  /-- The lookups a statement with a condition makes over a table, which is its plan's choice. -/
  visits : List Json → List (List SqlPart) → List (Json × String)
  /-- They are lookups of the condition's keys in the table's documents. -/
  visits_mem : ∀ docs orParts doc key, (doc, key) ∈ visits docs orParts →
    doc ∈ docs ∧ ∃ parts ∈ orParts, ∃ part ∈ parts, part.key = key

theorem noVisits_mem (docs : List Json) (orParts : List (List SqlPart)) (doc : Json) (key : String)
    (h : (doc, key) ∈ []) : doc ∈ docs ∧ ∃ parts ∈ orParts, ∃ part ∈ parts, part.key = key :=
  absurd h List.not_mem_nil

def JsonFunctions.member (fns : JsonFunctions) (data : Json) (key : String) : Option Json :=
  match fns.lookup data key with
  | .ok value => value
  | .error _ => none

/-- A statement fails if one of its lookups does. -/
def JsonFunctions.fails (fns : JsonFunctions) (docs : List Json) (orParts : List (List SqlPart)) :
    Bool :=
  (fns.visits docs orParts).any fun v => !(fns.lookup v.1 v.2).isOk

/-- `sqliteJSONScalarTextExpr`. -/
def scalarText (fns : JsonFunctions) (data : Json) (key : String) : Option String :=
  match fns.member data key with
  | some (.bool true) => some "true"
  | some (.bool false) => some "false"
  | some value => fns.castText value
  | none => none

/-- The comparison's value on a document, `none` for `NULL`. -/
def evalPart (fns : JsonFunctions) (data : Json) : SqlPart → Option Bool
  | .equal key target => (scalarText fns data key).map (· == target)
  | .notEqual key target => (scalarText fns data key).map (· != target)
  | .order key op target =>
    match fns.member data key with
    | some (.string _) => (scalarText fns data key).map fun s => op.holds (compareText s target)
    | some (.number token) => (compareJSONNumbers token target).map op.holds
    | _ => some false

def selects (fns : JsonFunctions) (parts : List SqlPart) (data : Json) : Bool :=
  Ternary.all (parts.map (evalPart fns data)) == some true

/-- How SQLite enters a document. -/
def access : JsonPath.Access Json where
  member j label := j.get? (String.ofList label)
  items
    | .array items => some items
    | _ => none

/-- The functions on a key's path, which is the key between quotes with its own quotes doubled,
before a plan is chosen. -/
def onPaths (castText : Json → Option String) : JsonFunctions where
  lookup data key := JsonPath.walk access data (JsonPath.doubledPath key.toList)
  castText := castText
  visits _ _ := []
  visits_mem := noVisits_mem

section Scan

variable (eval : Json → SqlPart → Option Bool)

/-- The comparisons of a conjunction up to the first that is not true. -/
def evaluatedParts (data : Json) : List SqlPart → List SqlPart
  | [] => []
  | part :: parts =>
    part :: if eval data part = some true then evaluatedParts data parts else []

/-- The comparisons of a disjunction up to its first true conjunction. -/
def evaluatedDisjuncts (data : Json) : List (List SqlPart) → List SqlPart
  | [] => []
  | parts :: orParts => evaluatedParts eval data parts ++
      if parts.all (eval data · == some true) then [] else evaluatedDisjuncts data orParts

/-- The lookups of a scan up to the first document it selects. -/
def scanned (orParts : List (List SqlPart)) : List Json → List (Json × String)
  | [] => []
  | data :: docs => (evaluatedDisjuncts eval data orParts).map (fun part => (data, part.key)) ++
      if orParts.any (·.all (eval data · == some true)) then [] else scanned orParts docs

variable {eval} {data : Json} {part : SqlPart}

theorem mem_of_evaluatedParts : ∀ {parts : List SqlPart},
    part ∈ evaluatedParts eval data parts → part ∈ parts
  | [], h => h
  | p :: parts, h => by
    rcases List.mem_cons.1 h with rfl | h
    · exact List.mem_cons_self
    · split_ifs at h
      · exact List.mem_cons_of_mem p (mem_of_evaluatedParts h)
      · cases h

theorem mem_of_evaluatedDisjuncts : ∀ {orParts : List (List SqlPart)},
    part ∈ evaluatedDisjuncts eval data orParts → ∃ parts ∈ orParts, part ∈ parts
  | [], h => by cases h
  | parts :: orParts, h => by
    rcases List.mem_append.1 h with h | h
    · exact ⟨parts, List.mem_cons_self, mem_of_evaluatedParts h⟩
    · split_ifs at h
      · cases h
      · obtain ⟨ps, hps, hpart⟩ := mem_of_evaluatedDisjuncts h
        exact ⟨ps, List.mem_cons_of_mem parts hps, hpart⟩

theorem mem_of_scanned {orParts : List (List SqlPart)} {doc : Json} {key : String} :
    ∀ {docs : List Json}, (doc, key) ∈ scanned eval orParts docs →
      doc ∈ docs ∧ ∃ parts ∈ orParts, ∃ part ∈ parts, part.key = key
  | [], h => by cases h
  | data :: docs, h => by
    rcases List.mem_append.1 h with h | h
    · obtain ⟨part, hpart, he⟩ := List.mem_map.1 h
      obtain ⟨rfl, rfl⟩ := Prod.mk.inj he
      obtain ⟨parts, hparts, hmem⟩ := mem_of_evaluatedDisjuncts hpart
      exact ⟨List.mem_cons_self, parts, hparts, part, hmem, rfl⟩
    · split_ifs at h
      · cases h
      · obtain ⟨hdoc, hkey⟩ := mem_of_scanned h
        exact ⟨List.mem_cons_of_mem data hdoc, hkey⟩

end Scan

/-- The functions under the plan of a boundary without indexes of its own: the newest document
first, to the one that is returned. -/
def pathFunctions (castText : Json → Option String) : JsonFunctions where
  lookup := (onPaths castText).lookup
  castText := castText
  visits docs orParts := scanned (evalPart (onPaths castText)) orParts docs.reverse
  visits_mem docs orParts doc key h := by
    obtain ⟨hdoc, hkey⟩ := mem_of_scanned h
    exact ⟨List.mem_reverse.1 hdoc, hkey⟩

inductive CriteriaError where
  | keyNul (key : String)
  | valueNul
  | unsupportedOperator (operator : String)
  deriving DecidableEq, Repr

def renderTagPredicate (key : String) (p : TagPredicate) : Except CriteriaError SqlPart :=
  match canonicalTagOperator p.operator with
  | none => .error (.unsupportedOperator p.operator)
  | some op => if containsNul p.value then .error .valueNul else .ok (op.part key p.value)

def renderCriterionPredicate (key : String) : TagField → Except CriteriaError (List SqlPart)
  | .scalar value => if containsNul value then .error (.keyNul key) else .ok [.equal key value]
  | .predicates ps => ps.mapM (renderTagPredicate key)

/-- `buildCriteriaSQL` of one criterion. -/
def buildCriteriaSQL (c : EncodedCriterion) : Except CriteriaError (List SqlPart) := do
  let fields := c.fields.mergeSort fun f g => decide (f.1 ≤ g.1)
  return (← fields.mapM fun f => renderCriterionPredicate f.1 f.2).flatten

end Orisun.Sqlite
