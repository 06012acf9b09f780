import Orisun.Lib.Attempt
import Orisun.Sqlite.Migration

/-!
# Opening a database file does not damage it

Whatever fails, a file is left as it was unless `initializeSchema` returns without an error. Then it
has the supported version, and of its objects only those an upgrade is about have changed.
-/

namespace Orisun.Sqlite.Migration

open Savepoints

variable {fs : Faults} {engine : Engine} {s : FileSchema} {db db' : Database} {o : Object}

/-- The statements one after another, as far as SQLite does not refuse any. -/
def effectAll (sts : List Statement) (db : Database) : Except SqlError Database :=
  sts.foldlM Statement.effect db

/-- The file after a migration. -/
inductive Migrated (engine : Engine) (s : FileSchema) (db : Database) : Database → Prop where
  | supported (h : db.userVersion = s.supported) : Migrated engine s db db
  | reindexed {db₁ : Database} (hs : s = .event) (hv : db.userVersion = 6 ∨ db.userVersion = 7)
      (h : effectAll [.dropIndex "idx_event_type_order", eventTypeOrderIndexDDL] db = .ok db₁) :
      Migrated engine s db { db₁ with userVersion := s.supported }
  | dropped {db₁ : Database} (hs : s = .metadata) (hv : db.userVersion = 1)
      (h : dropTableIfExists engine legacyTable db = .ok db₁) :
      Migrated engine s db { db₁ with userVersion := s.supported }
  | created {db₁ : Database} (hv : db.userVersion = 0) (hempty : db.occupied = false)
      (h : effectAll s.ddl db = .ok db₁) :
      Migrated engine s db { db₁ with userVersion := s.supported }

theorem contained_execute (st : Statement) :
    Contained fs (execute fs engine st) (fun db _ db' => st.effect db = .ok db') :=
  (contained_statement _).imp fun db _ db' h => by
    split_ifs at h
    split at h
    · rename_i db₁ heff
      obtain ⟨rfl, -⟩ := Prod.mk.inj (Except.ok.inj h)
      exact heff
    · cases h

theorem contained_executeAll : ∀ sts : List Statement,
    Contained fs (executeAll fs engine sts) (fun db _ db' => effectAll sts db = .ok db')
  | [] => (contained_pure ()).imp fun db _ db' h => by rw [h.1]; rfl
  | st :: sts => by
    refine (contained_bind (contained_execute st) fun _ => contained_executeAll sts).imp ?_
    rintro db - db' ⟨-, db₁, h₁, h₂⟩
    exact Attempt.bind_eq_ok.2 ⟨db₁, h₁, h₂⟩

theorem contained_setUserVersion (version : ℤ) : Contained fs (setUserVersion fs version)
    (fun db _ db' => db' = { db with userVersion := version }) :=
  (contained_statement _).imp fun db _ db' h => by
    obtain ⟨rfl, -⟩ := Prod.mk.inj (Except.ok.inj h)
    rfl

theorem contained_dropLegacyTable : Contained fs (dropLegacyTable fs engine)
    (fun db _ db' => dropTableIfExists engine legacyTable db = .ok db') :=
  (contained_statement _).imp fun db _ db' h => by
    split at h
    · rename_i db₁ hdrop
      obtain ⟨rfl, -⟩ := Prod.mk.inj (Except.ok.inj h)
      exact hdrop
    · cases h

theorem supported_eq_event : s.supported = eventSchemaVersion ↔ s = .event := by
  cases s <;> decide

theorem supported_eq_metadata : s.supported = metadataSchemaVersion ↔ s = .metadata := by
  cases s <;> decide

theorem contained_upgrade {x : Run Database SchemaError Unit} {Q : Database → Database → Prop}
    (hx : Contained fs x fun db _ db' => Q db db') (version : ℤ) :
    Contained fs (do x; setUserVersion fs version) (fun db _ db' =>
      ∃ db₁, Q db db₁ ∧ db' = { db₁ with userVersion := version }) := by
  refine (contained_bind hx fun _ => contained_setUserVersion version).imp ?_
  rintro db - db' ⟨-, db₁, hq, rfl⟩
  exact ⟨db₁, hq, rfl⟩

theorem contained_migration :
    Contained fs (migration fs engine s.ddl s.supported) (fun db _ db' => Migrated engine s db db') := by
  have hscript : ∀ sts, Contained fs (executeScript fs engine sts)
      (fun db _ db' => effectAll sts db = .ok db') := fun sts =>
    contained_save (contained_executeAll sts)
  refine Contained.imp (contained_bind (contained_statement _) fun version =>
    (?_ : Contained fs _ fun db _ db' => db.userVersion = version → Migrated engine s db db')) ?_
  · split_ifs with hsup hevent hmeta hzero
    · refine (contained_pure ()).imp ?_
      rintro db - db' ⟨rfl, -⟩ hv
      exact .supported (hv.trans hsup)
    · refine (contained_upgrade (hscript _) _).imp ?_
      rintro db - db' ⟨db₁, h, rfl⟩ rfl
      exact .reindexed (supported_eq_event.1 hevent.1) hevent.2 h
    · refine (contained_upgrade contained_dropLegacyTable _).imp ?_
      rintro db - db' ⟨db₁, h, rfl⟩ rfl
      exact .dropped (supported_eq_metadata.1 hmeta.1) hmeta.2 h
    · exact contained_fail _
    · have hzero : version = 0 := not_not.1 hzero
      refine Contained.imp (contained_bind (contained_statement _) fun occupied =>
        (?_ : Contained fs _ fun db _ db' => db.occupied = occupied → db.userVersion = version →
          Migrated engine s db db')) ?_
      · split_ifs with hocc
        · exact contained_fail _
        · refine (contained_upgrade (hscript _) _).imp ?_
          rintro db - db' ⟨db₁, h, rfl⟩ hocc' hv
          exact .created (hv.trans hzero) (by simpa [hocc'] using hocc) h
      · rintro db - db' ⟨occupied, db₁, h, hmig⟩ hv
        cases h
        exact hmig rfl hv
  · rintro db - db' ⟨version, db₁, h, hmig⟩
    cases h
    exact hmig rfl

theorem migrate_cases {executed : ℕ} {c : Conn Database} {r : Result SchemaError Unit}
    (hr : s.migrate fs engine ⟨db, none, executed⟩ = (c, r)) :
    (r = .ok () → c.tx = none ∧ Migrated engine s db c.durable) ∧
    (r ≠ .ok () → c.durable = db) ∧ ∀ e, r = .error e → c.tx = none := by
  have hguarded := guarded_save (@contained_migration fs engine s) _ _ _ hr
  refine ⟨fun hok => ?_, fun hne => ?_, fun e he => ?_⟩
  · obtain ⟨d, hmig, hd, htx⟩ := hguarded.1 () hok
    exact ⟨htx, hd ▸ hmig⟩
  · rcases r with ⟨⟨⟩⟩ | e | _
    · exact absurd rfl hne
    · exact (hguarded.2 e rfl).1
    · exact (save_panicked contained_migration hr).1
  · rcases (hguarded.2 e he).2 with htx | htx <;> exact htx

theorem Migrated.userVersion (h : Migrated engine s db db') : db'.userVersion = s.supported := by
  cases h with
  | supported h => exact h
  | reindexed | dropped | created => rfl

theorem Migrated.eq_self (h : Migrated engine s db db') (hv : db.userVersion = s.supported) :
    db' = db := by
  cases h with
  | supported => rfl
  | reindexed hs hv' =>
    rw [hs] at hv
    rcases hv' with hv' | hv' <;> exact absurd (hv'.symm.trans hv) (by decide)
  | dropped hs hv' =>
    rw [hs] at hv
    exact absurd (hv'.symm.trans hv) (by decide)
  | created hv' =>
    cases s <;> exact absurd (hv'.symm.trans hv) (by decide)

theorem Migrated.not_other (h : Migrated engine s.other db db') :
    db.userVersion ≠ s.supported := by
  intro hv
  cases h with
  | supported h => cases s <;> exact absurd (hv.symm.trans h) (by decide)
  | reindexed hs hv' =>
    rcases hv' with hv' | hv' <;> cases s <;> exact absurd (hv'.symm.trans hv) (by decide)
  | dropped hs hv' => cases s <;> exact absurd (hv'.symm.trans hv) (by decide)
  | created hv' => cases s <;> exact absurd (hv'.symm.trans hv) (by decide)

def Statement.touches (o : Object) : Statement → Bool
  | .createTable .. | .createIndex .. => false
  | .insertOrIgnore table _ => o.isNamed table
  | .dropIndex name => o.isIndexNamed name

theorem insertOrIgnore_of_not_named {table : String} {row : Row} (h : o.isNamed table = false) :
    o.insertOrIgnore table row = o := by
  unfold Object.insertOrIgnore
  split
  · rw [h]
    rfl
  · rfl

theorem mem_of_effect {st : Statement} (h : st.effect db = .ok db') (ho : o ∈ db.objects)
    (ht : st.touches o = false) : o ∈ db'.objects := by
  cases st with
  | createTable ifNotExists name columns parents =>
    simp only [Statement.effect] at h
    split_ifs at h
    · rw [← Except.ok.inj h]
      exact ho
    · rw [← Except.ok.inj h]
      exact List.mem_append_left _ ho
  | createIndex name table columns =>
    simp only [Statement.effect] at h
    split at h
    · cases h
    · split_ifs at h
      rw [← Except.ok.inj h]
      exact List.mem_append_left _ ho
  | insertOrIgnore table row =>
    simp only [Statement.effect] at h
    split at h
    · cases h
    · split_ifs at h
      rw [← Except.ok.inj h]
      exact List.mem_map.2 ⟨o, ho, insertOrIgnore_of_not_named ht⟩
  | dropIndex name =>
    simp only [Statement.effect] at h
    split_ifs at h
    rw [← Except.ok.inj h]
    exact List.mem_filter.2 ⟨ho, by rw [show o.isIndexNamed name = false from ht]; rfl⟩

theorem mem_of_effectAll {sts : List Statement} (h : effectAll sts db = .ok db')
    (ho : o ∈ db.objects) (ht : ∀ st ∈ sts, st.touches o = false) : o ∈ db'.objects :=
  Attempt.foldlM_invariant (P := fun db => o ∈ db.objects)
    (fun _ _ st hst hmem heff => mem_of_effect heff hmem (ht st hst)) ho h

theorem not_named_of_isLikeSqlite (h : o.isLikeSqlite = true) {name : String}
    (hname : (name.toList.take 6).map Char.toLower ≠ "sqlite".toList) : o.isNamed name = false := by
  refine Bool.eq_false_iff.2 fun hsame => hname ?_
  simp only [Object.isNamed, sameName, beq_iff_eq] at hsame
  simp only [Object.isLikeSqlite, Bool.and_eq_true, beq_iff_eq] at h
  rw [List.map_take, ← hsame, ← List.map_take]
  exact h.1

theorem touches_ddl (h : o.isLikeSqlite = true) : ∀ st ∈ s.ddl, st.touches o = false := by
  have hseq : o.isNamed "orisun_es_seq" = false := not_named_of_isLikeSqlite h (by decide)
  cases s <;> simp [FileSchema.ddl, eventDDL, metadataDDL, eventTypeOrderIndexDDL,
    Statement.touches, hseq]

theorem touches_reindex (h : o.isIndexNamed "idx_event_type_order" = false) :
    ∀ st ∈ [.dropIndex "idx_event_type_order", eventTypeOrderIndexDDL], st.touches o = false := by
  simp [eventTypeOrderIndexDDL, Statement.touches, h]

theorem mem_of_dropTable {name : String} (h : dropTableIfExists engine name db = .ok db')
    (hfk : db.isReferenced name = false) (ho : o ∈ db.objects) (hb : o.belongsTo name = false) :
    o ∈ db'.objects := by
  unfold dropTableIfExists at h
  split at h
  · rw [← Except.ok.inj h]
    exact ho
  · split_ifs at h with hview href
    · simp [hfk] at href
    · rw [← Except.ok.inj h]
      exact List.mem_filter.2 ⟨ho, by rw [hb]; rfl⟩

theorem Migrated.mem (h : Migrated engine s db db')
    (hfk : s = .metadata → db.userVersion = 1 → db.isReferenced legacyTable = false)
    (ho : o ∈ db.objects) (hup : s.upgraded o = false) : o ∈ db'.objects := by
  cases h with
  | supported => exact ho
  | reindexed hs hv heff =>
    subst hs
    have hmem := mem_of_effectAll heff ho (touches_reindex hup)
    exact hmem
  | dropped hs hv hdrop =>
    subst hs
    have hmem := mem_of_dropTable hdrop (hfk rfl hv) ho hup
    exact hmem
  | created hv hempty heff =>
    have hlike : o.isLikeSqlite = true := by
      unfold Database.occupied at hempty
      simpa using List.any_eq_false.1 hempty o ho
    have hmem := mem_of_effectAll heff ho (touches_ddl hlike)
    exact hmem

theorem effectAll_empty (s : FileSchema) : effectAll s.ddl ⟨0, []⟩ = .ok ⟨0, s.builtIn⟩ := by
  cases s <;> rfl

theorem Migrated.of_empty (h : Migrated engine s ⟨0, []⟩ db') : db'.objects = s.builtIn := by
  cases h with
  | supported h => cases s <;> exact absurd h (by decide)
  | reindexed hs hv => rcases hv with hv | hv <;> exact absurd hv (by decide)
  | dropped hs hv => exact absurd hv (by decide)
  | created hv hempty heff =>
    rw [effectAll_empty] at heff
    rw [← Except.ok.inj heff]

/-- A migration that does not succeed leaves the file. One that succeeds leaves every object but
SQLite's own and those its upgrade is about, and what it leaves stays as it is: the same migration changes nothing
any more, and the other one fails. -/
theorem migrate_undamaging {executed : ℕ} {c : Conn Database} {r : Result SchemaError Unit}
    (hfk : s = .metadata → db.userVersion = 1 → db.isReferenced legacyTable = false)
    (hr : s.migrate fs engine ⟨db, none, executed⟩ = (c, r)) :
    (r ≠ .ok () → c.durable = db ∧ ∀ e, r = .error e → c.tx = none) ∧
    (r = .ok () → c.tx = none ∧ c.durable.userVersion = s.supported ∧
      (∀ o ∈ db.objects, o.isLikeSqlite = false → s.upgraded o = false → o ∈ c.durable.objects) ∧
      (db.userVersion = 0 → db.objects = [] → c.durable.objects = s.builtIn) ∧
      ∀ (fs' : Faults) (engine' : Engine) (executed' : ℕ),
        (s.migrate fs' engine' ⟨c.durable, none, executed'⟩).1.durable = c.durable ∧
        (s.other.migrate fs' engine' ⟨c.durable, none, executed'⟩).1.durable = c.durable ∧
        (s.other.migrate fs' engine' ⟨c.durable, none, executed'⟩).2 ≠ .ok ()) := by
  obtain ⟨hok, hkept, htx⟩ := migrate_cases hr
  refine ⟨fun hne => ⟨hkept hne, htx⟩, fun hrok => ?_⟩
  obtain ⟨hnone, hmig⟩ := hok hrok
  refine ⟨hnone, hmig.userVersion, fun o ho _ hup => hmig.mem hfk ho hup, fun hv hnil => ?_, ?_⟩
  · obtain ⟨version, objects⟩ := db
    obtain rfl : version = 0 := hv
    obtain rfl : objects = [] := hnil
    exact hmig.of_empty
  · intro fs' engine' executed'
    rcases hagain : s.migrate fs' engine' ⟨c.durable, none, executed'⟩ with ⟨c₁, r₁⟩
    rcases hother : s.other.migrate fs' engine' ⟨c.durable, none, executed'⟩ with ⟨c₂, r₂⟩
    obtain ⟨hok₁, hkept₁, -⟩ := migrate_cases hagain
    obtain ⟨hok₂, hkept₂, -⟩ := migrate_cases hother
    have hne : r₂ ≠ .ok () := fun h => (hok₂ h).2.not_other hmig.userVersion
    refine ⟨?_, hkept₂ hne, hne⟩
    by_cases h₁ : r₁ = .ok ()
    · exact (hok₁ h₁).2.eq_self hmig.userVersion
    · exact hkept₁ h₁

def noFaults : Faults where
  fault _ := none
  persists n f hf := by cases hf

def plainEngine : Engine := ⟨fun _ _ => false, fun _ db => .ok db⟩

/-- An index that a caller has put on the table that is not used any more. -/
def callerIndex : Object := ⟨"position_idx", .index legacyTable "position"⟩

def earlierMetadata : Database :=
  ⟨1, [⟨"users", .table usersColumns [["u1", "Anna"]] []⟩,
    ⟨legacyTable, .table "position INTEGER" [["7"]] []⟩, callerIndex]⟩

/-- The user's row is kept, and a second run changes nothing. -/
theorem migrate_undamaging_earlierMetadata : ∃ c,
    FileSchema.metadata.migrate noFaults plainEngine ⟨earlierMetadata, none, 0⟩ = (c, .ok ()) ∧
    ⟨"users", .table usersColumns [["u1", "Anna"]] []⟩ ∈ c.durable.objects ∧
    (FileSchema.metadata.migrate noFaults plainEngine ⟨c.durable, none, 0⟩).1.durable =
      c.durable := by
  have hok : succeeds (fun _ => true)
      (FileSchema.metadata.migrate noFaults plainEngine ⟨earlierMetadata, none, 0⟩) = true := by
    decide +kernel
  obtain ⟨c, u, hr, -⟩ := exists_of_succeeds hok
  obtain ⟨hfk, hown, hup⟩ : earlierMetadata.isReferenced legacyTable = false ∧
      Object.isLikeSqlite ⟨"users", .table usersColumns [["u1", "Anna"]] []⟩ = false ∧
      FileSchema.metadata.upgraded ⟨"users", .table usersColumns [["u1", "Anna"]] []⟩ = false := by
    decide +kernel
  obtain ⟨-, -, hmem, -, hagain⟩ := (migrate_undamaging (fun _ _ => hfk) hr).2 rfl
  exact ⟨c, hr, hmem _ List.mem_cons_self hown hup, (hagain noFaults plainEngine 0).1⟩

/-- The index goes with its table. -/
theorem callerIndex_dropped : callerIndex ∈ earlierMetadata.objects ∧ ∃ c,
    FileSchema.metadata.migrate noFaults plainEngine ⟨earlierMetadata, none, 0⟩ = (c, .ok ()) ∧
    callerIndex ∉ c.durable.objects := by
  have hok : succeeds (fun c => decide (callerIndex ∉ c.durable.objects))
      (FileSchema.metadata.migrate noFaults plainEngine ⟨earlierMetadata, none, 0⟩) = true := by
    decide +kernel
  obtain ⟨c, u, hr, hc⟩ := exists_of_succeeds hok
  exact ⟨by simp [earlierMetadata], c, hr, of_decide_eq_true hc⟩

end Orisun.Sqlite.Migration
