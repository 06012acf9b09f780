import Orisun.Lib.Attempt
import Orisun.Postgres.BoundaryStorage
import Orisun.Proofs.Postgres.Identifiers

/-!
# Boundaries keep apart

Two derived names agree after truncation only where one boundary's suffix goes on as the other's
does, for as many characters as truncation leaves of it. For names of up to 46 characters that is
17, enough to tell every suffix and every tail of one apart.
-/

namespace Orisun.Postgres

open SqlIdentifier

theorem suffixes_apart : ∀ o ∈ boundaryObjects, ∀ o' ∈ boundaryObjects, ∀ k < 37,
    (o.suffix.toList.drop k).take 17 = o'.suffix.toList.take 17 → k = 0 ∧ o = o' := by
  decide +kernel

theorem suffix_length_le : ∀ o ∈ boundaryObjects, o.suffix.toList.length < 37 := by
  decide +kernel

theorem suffix_ne_nil : ∀ o ∈ boundaryObjects, o.suffix.toList.take 17 ≠ [] := by
  decide +kernel

theorem take_drop_of_truncate_eq {b b' s s' : List Char} (hle : b.length ≤ b'.length) {k : ℕ}
    (hk : k ≤ maxLength - b'.length) (h : truncate (b ++ s) = truncate (b' ++ s')) :
    (s.drop (b'.length - b.length)).take k = s'.take k := by
  have hd := congrArg (fun l => (l.drop b'.length).take k) h
  simpa [truncate, List.drop_take, List.take_take, Nat.min_eq_left hk, List.drop_append,
    List.drop_eq_nil_of_le hle] using hd

theorem eq_of_truncate_eq {o o' : BoundaryObject} (ho : o ∈ boundaryObjects)
    (ho' : o' ∈ boundaryObjects) {b b' : String} (hle : b.toList.length ≤ b'.toList.length)
    (hb' : b'.toList.length ≤ 46) (h : truncate (o.name b) = truncate (o'.name b')) :
    b = b' ∧ o = o' := by
  have h63 : maxLength = 63 := rfl
  have ht := take_drop_of_truncate_eq (k := 17) hle (by omega) h
  have hk : b'.toList.length - b.toList.length < 37 := by
    by_contra hk
    have := suffix_length_le o ho
    rw [List.drop_eq_nil_of_le (by omega), List.take_nil] at ht
    exact suffix_ne_nil o' ho' ht.symm
  obtain ⟨h0, rfl⟩ := suffixes_apart o ho o' ho' _ hk ht
  have hlen : b.toList.length = b'.toList.length := by omega
  have hp := congrArg (List.take b.toList.length) h
  have hmin : min b.toList.length maxLength = b.toList.length := by
    have : maxLength = 63 := rfl
    omega
  rw [truncate, truncate, List.take_take, List.take_take, hmin, BoundaryObject.name,
    BoundaryObject.name, List.take_left, hlen, List.take_left] at hp
  exact ⟨String.toList_injective hp, rfl⟩

theorem relationOf_inj {m m' : BoundaryToPostgresSchemaMapping} {o o' : BoundaryObject}
    (ho : o ∈ boundaryObjects) (ho' : o' ∈ boundaryObjects) (hm : m.boundary.toList.length ≤ 46)
    (hm' : m'.boundary.toList.length ≤ 46) (h : relationOf m o = relationOf m' o') :
    m.boundary = m'.boundary ∧ o = o' := by
  have hn : truncate (o.name m.boundary) = truncate (o'.name m'.boundary) :=
    congrArg Relation.name h
  rcases le_total m.boundary.toList.length m'.boundary.toList.length with hle | hle
  · exact eq_of_truncate_eq ho ho' hle hm' hn
  · obtain ⟨hb, hoo⟩ := eq_of_truncate_eq ho' ho hle hm hn.symm
    exact ⟨hb.symm, hoo.symm⟩

theorem relationOf_event_eq {m : BoundaryToPostgresSchemaMapping}
    (h : 46 < m.boundary.toList.length) : relationOf m .event = relationOf m .globalIdSeq := by
  have hlen : maxLength - m.boundary.toList.length ≤ 16 := by
    have : maxLength = 63 := rfl
    omega
  have hs : ∀ n ≤ 16, BoundaryObject.event.suffix.toList.take n =
      BoundaryObject.globalIdSeq.suffix.toList.take n := by decide +kernel
  simp only [relationOf, BoundaryObject.name, truncate, List.take_append]
  rw [hs _ hlen]

/-- A definition whose placement is accepted. -/
structure Acceptable (d : Admin.Definition) : Prop where
  boundary : validateBoundaryName d.name = .ok ()
  schema : validateBoundaryName d.placement.namespace = .ok ()
  placement : postgresPlacement d = .ok d.placement.namespace

theorem acceptable_of_postgresPlacement {d : Admin.Definition} {schema : String}
    (h : postgresPlacement d = .ok schema) : Acceptable d := by
  have h' := h
  unfold postgresPlacement at h'
  split_ifs at h'
  rcases hb : validateBoundaryName d.name with e | ⟨⟩ <;> simp only [hb, reduceCtorEq] at h'
  rcases hs : validateBoundaryName d.placement.namespace with e | ⟨⟩ <;>
    simp only [hs, reduceCtorEq] at h'
  cases h'
  exact ⟨hb, hs, h⟩

variable (K : Keywords)

theorem created_eq_relationOf {d : Admin.Definition} (hd : Acceptable d) (o : BoundaryObject) :
    created K d.placement.namespace d.name o = some (relationOf (mappingOf d) o) :=
  created_eq K (accepted_of_validateBoundaryName hd.schema)
    (accepted_of_validateBoundaryName hd.boundary) o

theorem derivedRelations_eq {d : Admin.Definition} (hd : Acceptable d) :
    derivedRelations K d = boundaryObjects.map (relationOf (mappingOf d)) := by
  unfold derivedRelations
  rw [funext (created_eq_relationOf K hd), List.filterMap_eq_map']

theorem boundaryObjects_nodup : boundaryObjects.Nodup := by decide

theorem derivedRelations_nodup_iff {d : Admin.Definition} (hd : Acceptable d) :
    (derivedRelations K d).Nodup ↔ d.name.toList.length ≤ 46 := by
  rw [derivedRelations_eq K hd]
  constructor
  · intro h
    by_contra hlen
    have heq := relationOf_event_eq (m := mappingOf d) (not_le.1 hlen)
    have := List.inj_on_of_nodup_map h (by decide) (by decide) heq
    simp at this
  · intro hlen
    exact boundaryObjects_nodup.map_on fun o ho o' ho' h =>
      (relationOf_inj ho ho' hlen hlen h).2

theorem derivedRelations_disjoint {d d' : Admin.Definition} (hd : Acceptable d) (hd' : Acceptable d')
    (hl : d.name.toList.length ≤ 46) (hl' : d'.name.toList.length ≤ 46) (hne : d.name ≠ d'.name) :
    (derivedRelations K d).Disjoint (derivedRelations K d') := by
  rw [derivedRelations_eq K hd, derivedRelations_eq K hd']
  intro rel h h'
  obtain ⟨o, ho, rfl⟩ := List.mem_map.1 h
  obtain ⟨o', ho', heq⟩ := List.mem_map.1 h'
  exact hne (relationOf_inj ho' ho hl' hl heq).1.symm

variable {ds : List Admin.Definition}

theorem flatMap_derivedRelations_nodup_iff (hds : ∀ d ∈ ds, Acceptable d)
    (hnames : (ds.map Admin.Definition.name).Nodup) :
    (ds.flatMap (derivedRelations K)).Nodup ↔ ∀ d ∈ ds, d.name.toList.length ≤ 46 := by
  rw [List.nodup_flatMap]
  constructor
  · intro h d hd
    exact (derivedRelations_nodup_iff K (hds d hd)).1 (h.1 d hd)
  · intro h
    refine ⟨fun d hd => (derivedRelations_nodup_iff K (hds d hd)).2 (h d hd), ?_⟩
    refine (List.pairwise_map.1 hnames).imp_of_mem fun {d d'} hd hd' hne => ?_
    exact derivedRelations_disjoint K (hds d hd) (hds d' hd') (h d hd) (h d' hd') hne

namespace Database

/-- The database with some of a boundary's objects added. -/
def withObjects (m : BoundaryToPostgresSchemaMapping) (os : List BoundaryObject)
    (db : Database) : Database :=
  { db with relations := db.relations ++ os.map (ownRelation m) }

/-- A short name whose relations are not taken, in a schema that is there. -/
structure Free (m : BoundaryToPostgresSchemaMapping) (db : Database) : Prop where
  short : m.boundary.toList.length ≤ 46
  schema : m.schema.toList ∈ db.schemas
  names : ∀ o ∈ boundaryObjects, ∀ r ∈ db.relations, r.relation ≠ relationOf m o

variable {m : BoundaryToPostgresSchemaMapping} {db : Database} {os : List BoundaryObject}
  {o : BoundaryObject}

theorem lookup_withObjects (hf : db.Free m) (hos : os ⊆ boundaryObjects)
    (ho : o ∈ boundaryObjects) : (db.withObjects m os).lookup (relationOf m o) =
      if o ∈ os then some (ownRelation m o) else none := by
  have hbase : db.relations.find? (fun r => decide (r.relation = relationOf m o)) = none := by
    rw [List.find?_eq_none]
    intro r hr
    simpa using hf.names o ho r hr
  rw [lookup, withObjects, List.find?_append, hbase, Option.none_or]
  clear hbase
  induction os with
  | nil => rfl
  | cons q os ih =>
    have hq := hos List.mem_cons_self
    have ih := ih fun x hx => hos (List.mem_cons_of_mem _ hx)
    by_cases hqo : q = o
    · subst hqo
      simp [ownRelation]
    · have hne : relationOf m q ≠ relationOf m o := fun h =>
        hqo (relationOf_inj hq ho hf.short hf.short h).2
      have hoq : o ≠ q := fun h => hqo h.symm
      simpa [ownRelation, hne, hoq] using ih

variable {K} (hcreated : ∀ o, created K m.schema m.boundary o = some (relationOf m o))

include hcreated

theorem holds_withObjects (hf : db.Free m) (hos : os ⊆ boundaryObjects) (ho : o ∈ os) :
    (db.withObjects m os).holds K m o = true := by
  unfold holds
  rw [hcreated, Option.bind_some, lookup_withObjects hf hos (hos ho), if_pos ho]
  simp [ownRelation]

theorem createIfNotExists_withObjects (hf : db.Free m) (hos : os ⊆ boundaryObjects)
    {columnsOf : List BoundaryObject} (hcols : columnsOf ⊆ os) (ho : o ∈ boundaryObjects)
    (hnew : o ∉ os) : (db.withObjects m os).createIfNotExists K m columnsOf o =
      .ok (db.withObjects m (os ++ [o])) := by
  have hfind : columnsOf.find? (fun q => !(db.withObjects m os).holds K m q) = none := by
    rw [List.find?_eq_none]
    intro q hq
    simp [holds_withObjects hcreated hf hos (hcols hq)]
  have hschema : (relationOf m o).schema ∈ (db.withObjects m os).schemas := hf.schema
  rw [createIfNotExists, hcreated]
  simp only [lookup_withObjects hf hos ho, if_neg hnew, hfind, hschema, not_true, if_false,
    Option.isSome_none, Bool.false_eq_true]
  simp [add, withObjects, ownRelation]

theorem requireBoundaryStorage_of_free (hf : db.Free m)
    (hevent : K.fromItem (quoteQualified m.schema (BoundaryObject.event.name m.boundary)) =
      some (relationOf m .event)) :
    db.requireBoundaryStorage K m = .ok (db.withObjects m [.schemaVersion]) := by
  have hl : ∀ o ∈ boundaryObjects, db.lookup (relationOf m o) = none := by
    intro o ho
    have := lookup_withObjects hf (List.nil_subset _) ho
    simpa [withObjects] using this
  have hc := createIfNotExists_withObjects hcreated hf (List.nil_subset _)
    (List.nil_subset []) (o := .schemaVersion) (by decide) (by simp)
  have hdb : db.withObjects m [] = db := by simp [withObjects]
  rw [hdb] at hc
  rw [requireBoundaryStorage, hcreated]
  simp only [hl .schemaVersion (by decide), hevent, Option.bind_some, hl .event (by decide)]
  simpa using hc

theorem initializeBoundaryTables_of_free (hf : db.Free m) :
    (db.withObjects m [.schemaVersion]).initializeBoundaryTables K m =
      .ok (db.withObjects m boundaryObjects) := by
  have hclear : (db.withObjects m [.schemaVersion, .write, .event, .globalIdSeq]).clearStaleXactIds
      K m = .ok (db.withObjects m [.schemaVersion, .write, .event, .globalIdSeq]) :=
    if_pos (holds_withObjects hcreated hf (by decide) (by decide))
  unfold initializeBoundaryTables
  simp (disch := decide) only [createIfNotExists_withObjects hcreated hf, hclear, bind, Except.bind,
    List.cons_append, List.nil_append]
  rfl

omit hcreated

/-- `public` is there from the start, and what is created is in lower case. -/
structure SoundSchemas (K : Keywords) (db : Database) : Prop where
  «public» : "public".toList ∈ db.schemas
  creatable : ∀ s ∈ db.schemas, CreatableSchema K s
  relations : ∀ r ∈ db.relations, r.relation.schema ∈ db.schemas

theorem createSchemaIfNotExists_eq {schema : String} (hs : Accepted schema) {b : String} :
    db.createSchemaIfNotExists K ⟨b, schema⟩ =
      if K.reserved (schema.toList.map fold) then .error .parseError
      else if "pg_".toList.isPrefixOf (schema.toList.map fold) then
        .error (.unacceptableSchema (schema.toList.map fold))
      else if schema.toList.map fold ∈ db.schemas then .ok db
      else .ok { db with schemas := db.schemas ++ [schema.toList.map fold] } := by
  have hl := lexIdent_word hs.isWord Keywords.stops_nil
  have ht : truncate (schema.toList.map fold) = schema.toList.map fold :=
    List.take_of_length_le (by simpa using hs.length_le)
  rw [List.append_nil] at hl
  simp only [createSchemaIfNotExists, hl, Keywords.colId]
  by_cases hr : K.reserved (schema.toList.map fold) = true <;> simp [hr, ht]

variable {db' : Database}

theorem ensureSchema_sound (hs : Accepted m.schema) (h : db.SoundSchemas K)
    (hstep : db.ensureSchema K m = .ok db') :
    db'.SoundSchemas K ∧ db'.relations = db.relations := by
  unfold ensureSchema at hstep
  split_ifs at hstep with hp
  · cases hstep
    exact ⟨h, rfl⟩
  · obtain ⟨b, schema⟩ := m
    rw [createSchemaIfNotExists_eq hs] at hstep
    split_ifs at hstep with hr hpg hmem
    · cases hstep
      exact ⟨h, rfl⟩
    · cases hstep
      refine ⟨⟨List.mem_append_left _ h.public, fun s hs' => ?_, fun r hr' =>
        List.mem_append_left _ (h.relations r hr')⟩, rfl⟩
      rcases List.mem_append.1 hs' with hs' | hs'
      · exact h.creatable s hs'
      · rw [List.mem_singleton.1 hs']
        refine .inr ⟨fun c hc => ?_, Bool.eq_false_iff.2 hr, fun hpre => hpg ?_⟩
        · obtain ⟨d, -, rfl⟩ := List.mem_map.1 hc
          exact isUpper_fold d
        · exact List.isPrefixOf_iff_prefix.2 hpre

theorem ensureSchema_of_creatable (hs : Accepted m.schema) (h : db.SoundSchemas K)
    (hc : CreatableSchema K m.schema.toList) :
    ∃ db', db.ensureSchema K m = .ok db' ∧ m.schema.toList ∈ db'.schemas := by
  unfold ensureSchema
  split_ifs with hp
  · exact ⟨db, rfl, by rw [hp]; exact h.public⟩
  · obtain ⟨b, schema⟩ := m
    rcases hc with hpub | ⟨hl, hr, hpg⟩
    · exact absurd (String.toList_injective hpub) hp
    · have hpg' : ¬ "pg_".toList.isPrefixOf schema.toList = true := fun h =>
        hpg (List.isPrefixOf_iff_prefix.1 h)
      rw [createSchemaIfNotExists_eq hs, map_fold_of_not_upper hl, if_neg (by simp [hr]),
        if_neg hpg']
      split_ifs with hmem
      · exact ⟨db, rfl, hmem⟩
      · exact ⟨_, rfl, List.mem_append_right _ List.mem_cons_self⟩

def KeepsSchemas (K : Keywords) (db db' : Database) : Prop :=
  db.SoundSchemas K → db'.SoundSchemas K

theorem createIfNotExists_sound {columnsOf : List BoundaryObject}
    (hstep : db.createIfNotExists K m columnsOf o = .ok db') : KeepsSchemas K db db' := by
  intro h
  unfold createIfNotExists at hstep
  split at hstep
  · simp at hstep
  · split_ifs at hstep with hs
    · cases hstep
      exact h
    · split at hstep
      · simp at hstep
      · cases hstep
        refine ⟨h.public, h.creatable, fun r hr => ?_⟩
        rcases List.mem_append.1 hr with hr | hr
        · exact h.relations r hr
        · rw [List.mem_singleton.1 hr]
          exact hs

theorem dropTableIfExists_sound (hstep : db.dropTableIfExists K m o = .ok db') :
    KeepsSchemas K db db' := by
  intro h
  unfold dropTableIfExists at hstep
  split at hstep
  · simp at hstep
  · split at hstep
    · cases hstep
      exact h
    · split_ifs at hstep
      cases hstep
      exact ⟨h.public, h.creatable, fun r hr => h.relations r (List.mem_filter.1 hr).1⟩

theorem setVersion_sound (rel : Relation) (version : ℕ) :
    KeepsSchemas K db (db.setVersion rel version) := by
  intro h
  refine ⟨h.public, h.creatable, fun r hr => ?_⟩
  obtain ⟨r', hr', rfl⟩ := List.mem_map.1 hr
  split_ifs <;> exact h.relations r' hr'

theorem requireBoundaryStorage_sound (hstep : db.requireBoundaryStorage K m = .ok db') :
    KeepsSchemas K db db' := by
  unfold requireBoundaryStorage at hstep
  split at hstep
  · simp at hstep
  · split at hstep
    · split_ifs at hstep
      · obtain ⟨db₁, hdrop, hset⟩ := Attempt.bind_eq_ok.1 hstep
        cases hset
        exact fun h => setVersion_sound _ _ (dropTableIfExists_sound hdrop h)
      · cases hstep
        exact id
    · split_ifs at hstep
      exact createIfNotExists_sound hstep

theorem clearStaleXactIds_sound (hstep : db.clearStaleXactIds K m = .ok db') :
    KeepsSchemas K db db' := by
  unfold clearStaleXactIds at hstep
  split_ifs at hstep
  cases hstep
  exact id

theorem initializeBoundaryTables_sound (hstep : db.initializeBoundaryTables K m = .ok db') :
    KeepsSchemas K db db' := by
  unfold initializeBoundaryTables at hstep
  obtain ⟨db₁, h₁, hstep⟩ := Attempt.bind_eq_ok.1 hstep
  obtain ⟨db₂, h₂, hstep⟩ := Attempt.bind_eq_ok.1 hstep
  obtain ⟨db₃, h₃, hstep⟩ := Attempt.bind_eq_ok.1 hstep
  obtain ⟨db₄, h₄, hstep⟩ := Attempt.bind_eq_ok.1 hstep
  obtain ⟨db₅, h₅, hstep⟩ := Attempt.bind_eq_ok.1 hstep
  obtain ⟨db₆, h₆, hstep⟩ := Attempt.bind_eq_ok.1 hstep
  obtain ⟨db₇, h₇, hstep⟩ := Attempt.bind_eq_ok.1 hstep
  obtain ⟨db₈, h₈, hstep⟩ := Attempt.bind_eq_ok.1 hstep
  obtain ⟨db₉, h₉, hstep⟩ := Attempt.bind_eq_ok.1 hstep
  intro h
  have h3 := createIfNotExists_sound h₃ (createIfNotExists_sound h₂ (createIfNotExists_sound h₁ h))
  have h4 := clearStaleXactIds_sound h₄ h3
  have h7 := createIfNotExists_sound h₇ (createIfNotExists_sound h₆ (createIfNotExists_sound h₅ h4))
  exact createIfNotExists_sound hstep
    (createIfNotExists_sound h₉ (createIfNotExists_sound h₈ h7))

theorem initializeBoundary_sound (h : db.SoundSchemas K) :
    (db.initializeBoundary K m).1.SoundSchemas K := by
  unfold initializeBoundary
  rcases hinit : db.requireBoundaryStorage K m >>= initializeBoundaryTables K m with e | db'
  · exact h
  · obtain ⟨db₁, hreq, hinit⟩ := Attempt.bind_eq_ok.1 hinit
    exact initializeBoundaryTables_sound hinit (requireBoundaryStorage_sound hreq h)

theorem runDbScripts_of_ensureSchema (hb : validateBoundaryName m.boundary = .ok ())
    (hstep : db.ensureSchema K m = .ok db') :
    db.runDbScripts K m = db'.initializeBoundary K m := by
  simp only [runDbScripts, hb, hstep]

theorem runDbScripts_sound (hb : validateBoundaryName m.boundary = .ok ())
    (hs : Accepted m.schema) (h : db.SoundSchemas K) :
    (db.runDbScripts K m).1.SoundSchemas K := by
  rcases hstep : db.ensureSchema K m with e | db'
  · simp only [runDbScripts, hb, hstep]
    exact h
  · rw [runDbScripts_of_ensureSchema hb hstep]
    exact initializeBoundary_sound (ensureSchema_sound hs h hstep).1

theorem runDbScripts_of_free (hb : validateBoundaryName m.boundary = .ok ())
    (hs : validateBoundaryName m.schema = .ok ()) (h : db.SoundSchemas K)
    (hc : CreatableSchema K m.schema.toList) (hshort : m.boundary.toList.length ≤ 46)
    (hnames : ∀ o ∈ boundaryObjects, ∀ r ∈ db.relations, r.relation ≠ relationOf m o) :
    (db.runDbScripts K m).2 = .ok () ∧ (db.runDbScripts K m).1.relations =
      db.relations ++ boundaryObjects.map (ownRelation m) := by
  have hs' := accepted_of_validateBoundaryName hs
  have hb' := accepted_of_validateBoundaryName hb
  obtain ⟨db', hstep, hmem⟩ := ensureSchema_of_creatable hs' h hc
  have hrel := (ensureSchema_sound hs' h hstep).2
  have hfree : db'.Free m := ⟨hshort, hmem, by rw [hrel]; exact hnames⟩
  have hcreated : ∀ o, created K m.schema m.boundary o = some (relationOf m o) :=
    created_eq K hs' hb'
  have hevent : K.fromItem (quoteQualified m.schema (BoundaryObject.event.name m.boundary)) =
      some (relationOf m .event) := by
    rw [quoteQualified, K.fromItem_quoteIdentifier hs'.ne_nil (name_ne_nil _ hb'), hs'.truncate]
    rfl
  have hinit : (db'.requireBoundaryStorage K m >>= initializeBoundaryTables K m) =
      .ok (db'.withObjects m boundaryObjects) := by
    rw [requireBoundaryStorage_of_free hcreated hfree hevent]
    exact initializeBoundaryTables_of_free hcreated hfree
  rw [runDbScripts_of_ensureSchema hb hstep]
  simp only [initializeBoundary, hinit]
  exact ⟨trivial, by rw [withObjects, hrel]⟩

end Database

namespace PostgresBoundaryProvisioner

variable {p : PostgresBoundaryProvisioner} {d : Admin.Definition}

theorem register_db (p : PostgresBoundaryProvisioner) (m : BoundaryToPostgresSchemaMapping) :
    (p.register m).1.db = p.db := by
  unfold register
  split
  · split_ifs <;> rfl
  · rfl

theorem installBoundary_db (hd : Acceptable d) :
    (p.installBoundary K d).1.db = p.db ∨
      (p.installBoundary K d).1.db = (p.db.runDbScripts K (mappingOf d)).1 := by
  unfold installBoundary
  rw [hd.placement]
  simp only
  split_ifs
  · exact .inl (register_db _ _)
  · exact .inl (register_db _ _)
  · right
    rcases hr : p.db.runDbScripts K ⟨d.name, d.placement.namespace⟩ with ⟨db, e | ⟨⟩⟩
    · simp [mappingOf, hr]
    · simp [mappingOf, hr, register_db]

theorem installBoundary_sound (hd : Acceptable d) (h : p.db.SoundSchemas K) :
    (p.installBoundary K d).1.db.SoundSchemas K := by
  rcases installBoundary_db K (p := p) hd with heq | heq <;> rw [heq]
  · exact h
  · exact Database.runDbScripts_sound hd.boundary (accepted_of_validateBoundaryName hd.schema) h

theorem installAll_sound (hds : ∀ d ∈ ds, Acceptable d) (h : p.db.SoundSchemas K) :
    (p.installAll K ds).db.SoundSchemas K := by
  induction ds generalizing p with
  | nil => exact h
  | cons d ds ih =>
    exact ih (fun d' hd' => hds d' (List.mem_cons_of_mem _ hd'))
      (installBoundary_sound K (hds d List.mem_cons_self) h)

/-- A boundary the process knows nothing of, and whose relations are not taken. -/
structure New (p : PostgresBoundaryProvisioner) (d : Admin.Definition) : Prop where
  registry : ∀ m ∈ p.registry, m.boundary ≠ d.name
  migrated : ∀ m ∈ p.migrated, m.boundary ≠ d.name
  names : ∀ o ∈ boundaryObjects, ∀ r ∈ p.db.relations, r.relation ≠ relationOf (mappingOf d) o

theorem lookup_eq_none_of_new (h : p.New d) : p.lookup d.name = none := by
  rw [lookup, List.find?_eq_none]
  intro m hm
  simpa using h.registry m hm

theorem register_of_lookup_eq_none {m : BoundaryToPostgresSchemaMapping}
    (h : p.lookup m.boundary = none) :
    p.register m = ({ p with registry := p.registry ++ [m] }, .ok ()) := by
  rw [register, h]

theorem installBoundary_of_new (hd : Acceptable d) (h : p.db.SoundSchemas K) (hnew : p.New d)
    (hc : CreatableSchema K d.placement.namespace.toList) (hl : d.name.toList.length ≤ 46) :
    (p.installBoundary K d).1.db.relations = p.db.relations ++ ownRelations d ∧
      (p.installBoundary K d).1.registry = p.registry ++ [mappingOf d] ∧
      ∀ m ∈ (p.installBoundary K d).1.migrated, m ∈ p.migrated ∨ m = mappingOf d := by
  obtain ⟨hok, hrel⟩ := Database.runDbScripts_of_free (m := mappingOf d) hd.boundary hd.schema h hc
    hl hnew.names
  have hlook := lookup_eq_none_of_new hnew
  have hmig : mappingOf d ∉ p.migrated := fun hm => hnew.migrated _ hm rfl
  have hm : (⟨d.name, d.placement.namespace⟩ : BoundaryToPostgresSchemaMapping) = mappingOf d := rfl
  rcases hr : p.db.runDbScripts K (mappingOf d) with ⟨db, e | ⟨⟩⟩
  · simp [hr] at hok
  · rw [hr] at hrel
    simp only [installBoundary, hd.placement, hm, hlook, hmig, hr, Option.isSome_none,
      Bool.false_eq_true, if_false]
    rw [register_of_lookup_eq_none hlook]
    refine ⟨hrel, rfl, fun m hmem => ?_⟩
    rcases List.mem_append.1 hmem with hmem | hmem
    · exact .inl (List.mem_filter.1 hmem).1
    · exact .inr (List.mem_singleton.1 hmem)

theorem new_of_installBoundary {d' : Admin.Definition} (hd : Acceptable d)
    (h : p.db.SoundSchemas K) (hnew : p.New d)
    (hc : CreatableSchema K d.placement.namespace.toList) (hl : d.name.toList.length ≤ 46)
    (hl' : d'.name.toList.length ≤ 46) (hne : d.name ≠ d'.name) (hnew' : p.New d') :
    (p.installBoundary K d).1.New d' := by
  obtain ⟨hrel, hreg, hmig⟩ := installBoundary_of_new K hd h hnew hc hl
  refine ⟨fun m hm => ?_, fun m hm => ?_, fun o ho r hr => ?_⟩
  · rw [hreg] at hm
    rcases List.mem_append.1 hm with hm | hm
    · exact hnew'.registry m hm
    · rw [List.mem_singleton.1 hm]
      exact hne
  · rcases hmig m hm with hm | rfl
    · exact hnew'.migrated m hm
    · exact hne
  · rw [hrel] at hr
    rcases List.mem_append.1 hr with hr | hr
    · exact hnew'.names o ho r hr
    · obtain ⟨o', ho', rfl⟩ := List.mem_map.1 hr
      exact fun heq => hne (relationOf_inj ho' ho hl hl' heq).1

theorem installAll_of_new (hds : ∀ d ∈ ds, Acceptable d)
    (hnames : (ds.map Admin.Definition.name).Nodup) (h : p.db.SoundSchemas K)
    (hgood : ∀ d ∈ ds, d.name.toList.length ≤ 46 ∧ CreatableSchema K d.placement.namespace.toList)
    (hnew : ∀ d ∈ ds, p.New d) :
    (p.installAll K ds).db.relations = p.db.relations ++ ds.flatMap ownRelations := by
  induction ds generalizing p with
  | nil => simp [installAll]
  | cons d ds ih =>
    have hd := hds d List.mem_cons_self
    obtain ⟨hl, hc⟩ := hgood d List.mem_cons_self
    have hdnew := hnew d List.mem_cons_self
    rw [List.map_cons, List.nodup_cons] at hnames
    have hrest := ih (fun d' hd' => hds d' (List.mem_cons_of_mem _ hd')) hnames.2
      (installBoundary_sound K hd h) (fun d' hd' => hgood d' (List.mem_cons_of_mem _ hd'))
      fun d' hd' => new_of_installBoundary K hd h hdnew hc hl
        (hgood d' (List.mem_cons_of_mem _ hd')).1
        (fun heq => hnames.1 (heq ▸ List.mem_map_of_mem hd'))
        (hnew d' (List.mem_cons_of_mem _ hd'))
    have hfirst := (installBoundary_of_new K hd h hdnew hc hl).1
    calc (p.installAll K (d :: ds)).db.relations
        = ((p.installBoundary K d).1.installAll K ds).db.relations := rfl
      _ = p.db.relations ++ (d :: ds).flatMap ownRelations := by
        rw [hrest, hfirst, List.flatMap_cons, List.append_assoc]

end PostgresBoundaryProvisioner

open PostgresBoundaryProvisioner

theorem fresh_soundSchemas : Database.fresh.SoundSchemas K :=
  ⟨by decide, fun s hs => .inl (by simpa [Database.fresh] using hs), fun r hr => by
    simp [Database.fresh] at hr⟩

/-- All boundaries' relations differ and installing them creates every one of them, where the names
are short and the schemas can be created, and only there. -/
theorem boundaries_separate_iff
    (hds : ∀ d ∈ ds, postgresPlacement d = .ok d.placement.namespace)
    (hnames : (ds.map Admin.Definition.name).Nodup) :
    ((ds.flatMap (derivedRelations K)).Nodup ∧
        (fresh.installAll K ds).db.relations = ds.flatMap ownRelations) ↔
      ∀ d ∈ ds, d.name.toList.length ≤ 46 ∧ CreatableSchema K d.placement.namespace.toList := by
  have haccepted : ∀ d ∈ ds, Acceptable d := fun d hd => acceptable_of_postgresPlacement (hds d hd)
  constructor
  · rintro ⟨hnd, hinst⟩ d hd
    refine ⟨(flatMap_derivedRelations_nodup_iff K haccepted hnames).1 hnd d hd, ?_⟩
    have hsound := installAll_sound K (p := fresh) haccepted (fresh_soundSchemas K)
    have hmem : ownRelation (mappingOf d) .event ∈ (fresh.installAll K ds).db.relations := by
      rw [hinst]
      exact List.mem_flatMap.2 ⟨d, hd, List.mem_map_of_mem (by decide)⟩
    exact hsound.creatable _ (hsound.relations _ hmem)
  · intro hgood
    refine ⟨(flatMap_derivedRelations_nodup_iff K haccepted hnames).2 fun d hd => (hgood d hd).1, ?_⟩
    have := installAll_of_new K (p := fresh) haccepted hnames (fresh_soundSchemas K) hgood fun d _ =>
      ⟨by simp [fresh], by simp [fresh], by simp [fresh, Database.fresh]⟩
    simpa [fresh, Database.fresh] using this

/-- Every statement refers to the relations that installing the boundary creates, where the names read
as themselves however they are written, the boundary's is short and the schema can be created, and
only there. -/
theorem references_resolve_iff {schema boundary : String}
    (hs : validateBoundaryName schema = .ok ()) (hb : validateBoundaryName boundary = .ok ()) :
    (∀ r ∈ references K schema boundary, r.Finds K ⟨boundary, schema⟩) ↔
      PlainSchema K schema ∧ PlainBoundary K boundary ∧ boundary.toList.length ≤ 46 ∧
        CreatableSchema K schema.toList := by
  have hs' := accepted_of_validateBoundaryName hs
  have hcreated := created_eq K hs' (accepted_of_validateBoundaryName hb)
  have hsound : (Database.fresh.runDbScripts K ⟨boundary, schema⟩).1.SoundSchemas K :=
    Database.runDbScripts_sound hb hs' (fresh_soundSchemas K)
  have hobject : ∀ r : Reference, r.Resolves K schema boundary →
      K.fromItem r.text = some (relationOf ⟨boundary, schema⟩ r.object) := by
    rintro r ⟨rel, hrel, htext⟩
    rw [htext, ← hrel, hcreated]
    rfl
  constructor
  · intro h
    obtain ⟨hps, hpb⟩ := (resolves_iff_plain K hs hb).1 fun r hr => (h r hr).1
    have hfound : ∀ o ∈ [BoundaryObject.globalIdSeq, .event],
        (Database.fresh.runDbScripts K ⟨boundary, schema⟩).1.lookup
          (relationOf ⟨boundary, schema⟩ o) = some (ownRelation ⟨boundary, schema⟩ o) := by
      intro o ho
      have hr : formatted K schema boundary o ∈ references K schema boundary := by
        rcases List.mem_pair.1 ho with rfl | rfl <;>
          simp [references, insertEventRequestsV2References]
      obtain ⟨hres, hlookup⟩ := h _ hr
      rw [hobject _ hres, Option.bind_some] at hlookup
      refine hlookup ?_
      rcases List.mem_pair.1 ho with rfl | rfl <;> simp [formatted, boundaryObjects]
    have hevent := hfound .event (by simp)
    refine ⟨hps, hpb, not_lt.1 fun hlong => ?_, ?_⟩
    -- a long name gives the sequence and the table of events one relation
    · rw [relationOf_event_eq hlong, hfound .globalIdSeq (by simp)] at hevent
      simpa [ownRelation] using congrArg StoredRelation.object (Option.some.inj hevent)
    · exact hsound.creatable _ (hsound.relations _ (List.mem_of_find?_eq_some hevent))
  · rintro ⟨hps, hpb, hshort, hc⟩ r hr
    have hres := (resolves_iff_plain K hs hb).2 ⟨hps, hpb⟩ r hr
    refine ⟨hres, fun ho => ?_⟩
    obtain ⟨-, hrel⟩ := Database.runDbScripts_of_free (m := ⟨boundary, schema⟩) hb hs
      (fresh_soundSchemas K) hc hshort (by simp [Database.fresh])
    have hfree : Database.Free ⟨boundary, schema⟩ ⟨[schema.toList], []⟩ :=
      ⟨hshort, by simp, by simp⟩
    have hlookup := Database.lookup_withObjects hfree (List.Subset.refl boundaryObjects) ho
    rw [if_pos ho] at hlookup
    rw [hobject r hres, Option.bind_some, Database.lookup, hrel]
    exact hlookup

/-- Lower case, and no keyword. -/
theorem orders_references_resolve :
    validateBoundaryName "public" = .ok () ∧ validateBoundaryName "orders" = .ok () ∧
      ∀ r ∈ references sampleKeywords "public" "orders",
        r.Finds sampleKeywords ⟨"orders", "public"⟩ := by
  have hs : validateBoundaryName "public" = .ok () := by decide +kernel
  have hb : validateBoundaryName "orders" = .ok () := by decide +kernel
  exact ⟨hs, hb, (references_resolve_iff sampleKeywords hs hb).2
    ⟨⟨not_upper_of_map_fold (by decide +kernel), by decide +kernel⟩,
      ⟨not_upper_of_map_fold (by decide +kernel), by decide +kernel⟩, by decide, .inl rfl⟩⟩

/-- The events of `Orders` are read from the table `Orders` and counted in
`orders_orisun_es_event`. -/
theorem upperCase_not_resolved :
    validateBoundaryName "public" = .ok () ∧ validateBoundaryName "Orders" = .ok () ∧
      created sampleKeywords "public" "Orders" .event =
        some ⟨"public".toList, "Orders_orisun_es_event".toList⟩ ∧
      (getMatchingEventsV4References sampleKeywords "public" "Orders").map
          (fun r => sampleKeywords.fromItem r.text) =
        [some ⟨"public".toList, "Orders".toList⟩] ∧
      (buildPostgresBoundaryReferences "public" "Orders").map
          (fun r => sampleKeywords.fromItem r.text) =
        [some ⟨"public".toList, "orders_events_count".toList⟩,
          some ⟨"public".toList, "orders_orisun_es_event".toList⟩,
          some ⟨"public".toList, "orders_events_count".toList⟩] ∧
      ¬ ∀ r ∈ references sampleKeywords "public" "Orders",
        r.Finds sampleKeywords ⟨"Orders", "public"⟩ := by
  have hnot : ¬ ∀ r ∈ references sampleKeywords "public" "Orders",
      r.Resolves sampleKeywords "public" "Orders" := by decide +kernel
  exact ⟨by decide +kernel, by decide +kernel, by decide +kernel, by decide +kernel,
    by decide +kernel, fun h => hnot fun r hr => (h r hr).1⟩

def inPublic (name : String) : Admin.Definition := ⟨name, "", ⟨"postgres", "public"⟩⟩

/-- A boundary whose name is that of another's table. -/
theorem orders_separate :
    ([inPublic "orders", inPublic "orders_orisun_es_event"].flatMap
        (derivedRelations sampleKeywords)).Nodup ∧
      (fresh.installAll sampleKeywords
          [inPublic "orders", inPublic "orders_orisun_es_event"]).db.relations =
        [inPublic "orders", inPublic "orders_orisun_es_event"].flatMap ownRelations := by
  refine (boundaries_separate_iff sampleKeywords ?_ (by decide +kernel)).2 ?_
  · decide +kernel
  · rintro d hd
    refine ⟨?_, .inl ?_⟩ <;> revert d <;> decide +kernel

/-- With 47 characters the sequence is taken for the table of events: installing succeeds, and there
is none. -/
theorem longName_without_sequence :
    postgresPlacement (inPublic "a_boundary_name_of_just_more_than_46_characters") = .ok "public" ∧
      created sampleKeywords "public" "a_boundary_name_of_just_more_than_46_characters" .event =
        created sampleKeywords "public" "a_boundary_name_of_just_more_than_46_characters"
          .globalIdSeq ∧
      (fresh.installBoundary sampleKeywords
          (inPublic "a_boundary_name_of_just_more_than_46_characters")).2 = .ok () ∧
      (fresh.installBoundary sampleKeywords
          (inPublic "a_boundary_name_of_just_more_than_46_characters")).1.db.relations.all
        (fun r => decide (r.object ≠ .globalIdSeq)) = true ∧
      ¬ ([inPublic "a_boundary_name_of_just_more_than_46_characters"].flatMap
          (derivedRelations sampleKeywords)).Nodup := by
  decide +kernel

end Orisun.Postgres
