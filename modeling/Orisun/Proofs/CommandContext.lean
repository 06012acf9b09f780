import Orisun.Proofs.Postgres.Clients
import Orisun.Proofs.Sqlite.Clients
import Orisun.Proofs.Sqlite.TagPath

/-!
# Command Context Consistency

Both storages keep to the laws of a backend, so what holds of the clients of a lawful backend holds
of theirs. On SQLite the lookups see the fields a query names where no key has a quote or a
backslash.
-/

namespace Orisun

namespace Sqlite

variable {fns fns' : JsonFunctions} {data : Json} {key : String}

theorem tagHolds_congr (hmember : fns.member data key = fns'.member data key)
    (hcast : fns.castText = fns'.castText) (op : TagOperator) (value : String) :
    tagHolds fns op key value data = tagHolds fns' op key value data := by
  have hscalar : scalarText fns data key = scalarText fns' data key := by
    rw [scalarText, scalarText, hmember, hcast]
  cases op <;> simp only [tagHolds, hmember, hscalar]

theorem queryMatches_plain (hfns : fns.OnPaths) {criteria : List ReadCriterion}
    (h : PlainQuery criteria) : queryMatches (tagHolds fns) criteria
      = queryMatches (tagHolds (atKey fns.castText)) criteria := by
  have htag : ∀ c ∈ criteria, ∀ t ∈ c.tags, ∀ op value data,
      tagHolds fns op t.key value data = tagHolds (atKey fns.castText) op t.key value data := by
    intro c hc t ht op value data
    have hcast : fns.castText = (atKey fns.castText).castText := rfl
    refine tagHolds_congr ?_ hcast op value
    rw [JsonFunctions.member, hfns, lookup_of_plain (h c hc t ht)]
    rfl
  funext data
  rw [Bool.eq_iff_iff, queryMatches, queryMatches, List.any_eq_true, List.any_eq_true]
  refine exists_congr fun c => and_congr_right fun hc => ?_
  rw [Meaning.tags, Meaning.tags, List.all_eq_true, List.all_eq_true]
  refine forall₂_congr fun t ht => ?_
  simp only [htag c hc t ht]

end Sqlite

/-- However the clients and processes of a boundary interleave, over PostgreSQL or over SQLite, a
save under what a read returned is accepted exactly if no match was committed in between. On SQLite
this is about the queries whose keys have no quote and no backslash. -/
theorem clients_commandContextConsistency (uuidParse : String → Bool) (sch : Sqlite.Schema)
    (hfns : sch.fns.OnPaths) (boundary : Postgres.Boundary) (store : Sqlite.Store) :
    (∀ (actions : List (Action (Postgres.backend uuidParse))) w,
      Transition.run World.step (World.initial boundary.tables) actions = some w →
        CommandContextConsistency Postgres.tagHolds (fun _ => True) w) ∧
    (∀ (actions : List (Action (Sqlite.backend sch))) w,
      Transition.run World.step (World.initial store.db) actions = some w →
        CommandContextConsistency (Sqlite.tagHolds (Sqlite.atKey sch.fns.castText))
          Sqlite.PlainQuery w) :=
  ⟨fun _ _ h => commandContextConsistency_of_lawful (Postgres.lawful uuidParse) boundary.sound
      (fun _ _ => rfl) h,
    fun _ _ h => commandContextConsistency_of_lawful (Sqlite.lawful sch) store.sound
      (fun _ hplain => Sqlite.queryMatches_plain hfns hplain) h⟩

/-- A save under the read at index 0, which found no event whose field is `a`. -/
def callUnder {B : Backend} (key : String) (payload : B.Payload) : Call B where
  basis := some 0
  consistency := [some (.of [⟨[⟨key, "a", ""⟩]⟩] ⟨-1, -1⟩)]
  payload := payload

/-- Both processes save under the read, the second one first. -/
def raceActions {B : Backend} (key : String) (payload : B.Payload) (env : B.Env) :
    List (Action B) :=
  [.read [⟨[⟨key, "a", ""⟩]⟩], .submit 0 [callUnder key payload], .submit 1 [callUnder key payload],
    .acquire 1, .execute 1 env, .commit 1, .release 1, .acquire 0, .execute 0 env, .commit 0]

def postgresActions : List (Action (Postgres.backend fun _ => true)) :=
  raceActions "kind" [⟨"1", "Opened", some [("kind", .string "a")], none⟩] Postgres.sampleStatement

/-- SQLite without indexes of its own, and the cast of a string. -/
def pathSchema : Sqlite.Schema :=
  ⟨Sqlite.pathFunctions Sqlite.stringText, fun _ => true, fun _ => true⟩

/-- A save of one event that carries the field of the query. -/
def sqliteActions (key : String) : List (Action (Sqlite.backend pathSchema)) :=
  raceActions key ⟨none, "", [⟨"1", "Opened", some .null, some [(key, .string "a")]⟩]⟩ ()

/-- On both backends the second client is told of the first. -/
theorem clients_race : (∃ w, Transition.run World.step
      (World.initial Postgres.freshBoundary.tables) postgresActions = some w ∧
    w.saved.map Saved.answer = [.accepted ⟨1, 0⟩, .conflict] ∧
    CommandContextConsistency Postgres.tagHolds (fun _ => True) w) ∧
    ∃ w, Transition.run World.step (World.initial Sqlite.freshStore.db) (sqliteActions "kind")
        = some w ∧
      w.saved.map Saved.answer = [.accepted ⟨1, 1⟩, .conflict] ∧
      CommandContextConsistency (Sqlite.tagHolds (Sqlite.atKey Sqlite.stringText))
        Sqlite.PlainQuery w := by
  have hanswers : (Transition.run World.step (World.initial Postgres.freshBoundary.tables)
      postgresActions).map (fun w => w.saved.map Saved.answer)
        = some [.accepted ⟨1, 0⟩, .conflict] := by decide +kernel
  have hanswers' : (Transition.run World.step (World.initial Sqlite.freshStore.db)
      (sqliteActions "kind")).map (fun w => w.saved.map Saved.answer)
        = some [.accepted ⟨1, 1⟩, .conflict] := by decide +kernel
  obtain ⟨w, hw, ha⟩ := Option.map_eq_some_iff.1 hanswers
  obtain ⟨w', hw', ha'⟩ := Option.map_eq_some_iff.1 hanswers'
  have hboth := clients_commandContextConsistency (fun _ => true) pathSchema (fun _ _ => rfl)
    Postgres.freshBoundary Sqlite.freshStore
  exact ⟨⟨w, hw, ha, hboth.1 postgresActions w hw⟩, w', hw', ha', hboth.2 _ w' hw'⟩

/-- Under one observation of a key with a backslash both saves are accepted, and each adds an event
that carries the field. -/
theorem backslash_both_accepted :
    (Transition.run World.step (World.initial Sqlite.freshStore.db) (sqliteActions "a\\nb")).map
      (fun w => (w.winners (Sqlite.tagHolds (Sqlite.atKey Sqlite.stringText))
        [⟨[⟨"a\\nb", "a", ""⟩]⟩] ⟨-1, -1⟩).map Saved.answer)
      = some [.accepted ⟨1, 1⟩, .accepted ⟨2, 2⟩] := by
  decide +kernel

end Orisun
