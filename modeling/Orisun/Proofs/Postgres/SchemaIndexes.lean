import Orisun.Postgres.SchemaIndexes
import Orisun.Proofs.Postgres.BoundaryStorage
import Orisun.Proofs.Postgres.Indexes

/-!
# Which drops are local

A boundary is registered only where its version table and its table of events are two relations, so
its name is short enough for its index metadata to be its own.
-/

namespace Orisun.Postgres

open SqlIdentifier

variable {K : Keywords}

namespace Database

variable {m : BoundaryToPostgresSchemaMapping} {o : BoundaryObject} {db db' db'' : Database}

/-- A relation that is there stays what it was created as. No version table is of an old version. -/
structure Grows (db db' : Database) : Prop where
  lookup : ∀ rel r, db.lookup rel = some r → ∃ r', db'.lookup rel = some r' ∧ r'.object = r.object
  versions : (∀ r ∈ db.relations, r.version ≠ 4) → ∀ r ∈ db'.relations, r.version ≠ 4

theorem Grows.refl : Grows db db := ⟨fun _ r h => ⟨r, h, rfl⟩, id⟩

theorem Grows.trans (h : Grows db db') (h' : Grows db' db'') : Grows db db'' where
  lookup := fun rel r hr => by
    obtain ⟨r₁, hr₁, ho₁⟩ := h.lookup rel r hr
    obtain ⟨r₂, hr₂, ho₂⟩ := h'.lookup rel r₁ hr₁
    exact ⟨r₂, hr₂, ho₂.trans ho₁⟩
  versions := fun hv => h'.versions (h.versions hv)

theorem Grows.of_relations (h : db'.relations = db.relations) : Grows db db' where
  lookup := fun rel r hr => ⟨r, by rwa [Database.lookup, h], rfl⟩
  versions := fun hv => by rwa [h]

theorem Grows.holds (h : Grows db db') (ho : db.holds K m o = true) : db'.holds K m o = true := by
  rw [Database.holds, Option.any_eq_true] at ho ⊢
  obtain ⟨r, hr, hobj⟩ := ho
  obtain ⟨rel, hrel, hr⟩ := Option.bind_eq_some_iff.1 hr
  obtain ⟨r', hr', ho'⟩ := h.lookup rel r hr
  exact ⟨r', Option.bind_eq_some_iff.2 ⟨rel, hrel, hr'⟩, by rw [ho']; exact hobj⟩

theorem grows_add (rel : Relation) : Grows db (db.add m rel o) where
  lookup := fun rel' r hr => by
    refine ⟨r, ?_, rfl⟩
    rw [Database.lookup, add, List.find?_append]
    rw [Database.lookup] at hr
    simp [hr]
  versions := fun hv r hr => by
    rcases List.mem_append.1 hr with hr | hr
    · exact hv r hr
    · obtain rfl := List.mem_singleton.1 hr
      dsimp only
      split_ifs <;> decide

theorem createIfNotExists_cases {columnsOf : List BoundaryObject}
    (h : db.createIfNotExists K m columnsOf o = .ok db') :
    ∃ rel, created K m.schema m.boundary o = some rel ∧
      ((db.lookup rel).isSome = true ∧ db' = db ∨
        db.lookup rel = none ∧ db' = db.add m rel o) := by
  unfold createIfNotExists at h
  split at h
  · simp at h
  · rename_i rel hrel
    refine ⟨rel, hrel, ?_⟩
    split_ifs at h with hs hl
    · exact .inl ⟨hl, (Except.ok.inj h).symm⟩
    · split at h
      · simp at h
      · exact .inr ⟨by simpa using hl, (Except.ok.inj h).symm⟩

theorem createIfNotExists_grows {columnsOf : List BoundaryObject}
    (h : db.createIfNotExists K m columnsOf o = .ok db') : Grows db db' := by
  obtain ⟨rel, -, ⟨-, rfl⟩ | ⟨-, rfl⟩⟩ := createIfNotExists_cases h
  · exact Grows.refl
  · exact grows_add rel

theorem holds_add {rel : Relation} (hrel : created K m.schema m.boundary o = some rel)
    (hl : db.lookup rel = none) : (db.add m rel o).holds K m o = true := by
  have hfind : (db.add m rel o).lookup rel =
      some ⟨rel, o, m, if o = .schemaVersion then boundarySchemaVersion else 0⟩ := by
    rw [Database.lookup] at hl
    rw [Database.lookup, add, List.find?_append, hl]
    simp
  simp [Database.holds, hrel, hfind]

theorem requireBoundaryStorage_grows (hv : ∀ r ∈ db.relations, r.version ≠ 4)
    (h : db.requireBoundaryStorage K m = .ok db') :
    Grows db db' ∧ db'.holds K m .schemaVersion = true := by
  unfold requireBoundaryStorage at h
  split at h
  · simp at h
  · rename_i versions hrel
    split at h
    · rename_i r hr
      split_ifs at h with hobj h4 h5
      · exact absurd h4 (hv r (List.mem_of_find?_eq_some hr))
      · cases h
        exact ⟨Grows.refl, by simpa [Database.holds, hrel, hr] using hobj⟩
    · rename_i hnone
      split_ifs at h
      refine ⟨createIfNotExists_grows h, ?_⟩
      obtain ⟨rel, hrel', hcases⟩ := createIfNotExists_cases h
      obtain rfl := Option.some.inj (hrel.symm.trans hrel')
      rcases hcases with ⟨hsome, -⟩ | ⟨hl, rfl⟩
      · simp [hnone] at hsome
      · exact holds_add hrel hl

theorem clearStaleXactIds_eq_ok (h : db.clearStaleXactIds K m = .ok db') :
    db' = db ∧ db.holds K m .event = true := by
  unfold clearStaleXactIds at h
  split_ifs at h with hev
  exact ⟨(Except.ok.inj h).symm, hev⟩

theorem initializeBoundaryTables_grows (h : db.initializeBoundaryTables K m = .ok db') :
    Grows db db' ∧ db'.holds K m .event = true := by
  unfold initializeBoundaryTables at h
  obtain ⟨db₁, h₁, h⟩ := Attempt.bind_eq_ok.1 h
  obtain ⟨db₂, h₂, h⟩ := Attempt.bind_eq_ok.1 h
  obtain ⟨db₃, h₃, h⟩ := Attempt.bind_eq_ok.1 h
  obtain ⟨db₄, h₄, h⟩ := Attempt.bind_eq_ok.1 h
  obtain ⟨db₅, h₅, h⟩ := Attempt.bind_eq_ok.1 h
  obtain ⟨db₆, h₆, h⟩ := Attempt.bind_eq_ok.1 h
  obtain ⟨db₇, h₇, h⟩ := Attempt.bind_eq_ok.1 h
  obtain ⟨db₈, h₈, h⟩ := Attempt.bind_eq_ok.1 h
  obtain ⟨db₉, h₉, h⟩ := Attempt.bind_eq_ok.1 h
  obtain ⟨hsame, hevent⟩ := clearStaleXactIds_eq_ok h₄
  have hbefore : Grows db db₃ := (createIfNotExists_grows h₁).trans
    ((createIfNotExists_grows h₂).trans (createIfNotExists_grows h₃))
  have hafter : Grows db₄ db' := (createIfNotExists_grows h₅).trans
    ((createIfNotExists_grows h₆).trans ((createIfNotExists_grows h₇).trans
      ((createIfNotExists_grows h₈).trans ((createIfNotExists_grows h₉).trans
        (createIfNotExists_grows h)))))
  rw [hsame] at hafter
  exact ⟨hbefore.trans hafter, hafter.holds hevent⟩

/-- A boundary's version table and its table of events are there, as two relations. -/
structure Separate (K : Keywords) (db : Database) (m : BoundaryToPostgresSchemaMapping) : Prop where
  boundary : validateBoundaryName m.boundary = .ok ()
  schema : validateBoundaryName m.schema = .ok ()
  schemaVersion : db.holds K m .schemaVersion = true
  event : db.holds K m .event = true

theorem Separate.grows (h : db.Separate K m) (hg : Grows db db') : db'.Separate K m :=
  ⟨h.boundary, h.schema, hg.holds h.schemaVersion, hg.holds h.event⟩

theorem runDbScripts_grows (hb : validateBoundaryName m.boundary = .ok ())
    (hs : validateBoundaryName m.schema = .ok ()) (hsound : db.SoundSchemas K)
    (hv : ∀ r ∈ db.relations, r.version ≠ 4) :
    Grows db (db.runDbScripts K m).1 ∧
      ((db.runDbScripts K m).2 = .ok () → (db.runDbScripts K m).1.Separate K m) := by
  rcases hstep : db.ensureSchema K m with e | db₁
  · simp only [runDbScripts, hb, hstep]
    exact ⟨Grows.refl, by simp⟩
  · have hrel := (ensureSchema_sound (accepted_of_validateBoundaryName hs) hsound hstep).2
    have hg₁ : Grows db db₁ := Grows.of_relations hrel
    rw [runDbScripts_of_ensureSchema hb hstep, initializeBoundary]
    rcases hinit : db₁.requireBoundaryStorage K m >>= initializeBoundaryTables K m with e | db₃
    · exact ⟨hg₁, by simp⟩
    · obtain ⟨db₂, hreq, htables⟩ := Attempt.bind_eq_ok.1 hinit
      obtain ⟨hg₂, hversion⟩ := requireBoundaryStorage_grows (hg₁.versions hv) hreq
      obtain ⟨hg₃, hevent⟩ := initializeBoundaryTables_grows htables
      exact ⟨hg₁.trans (hg₂.trans hg₃), fun _ => ⟨hb, hs, hg₃.holds hversion, hevent⟩⟩

end Database

namespace PostgresBoundaryProvisioner

open Database

variable {p : PostgresBoundaryProvisioner} {d : Admin.Definition} {ds : List Admin.Definition}

theorem lookup_eq_some {boundary : String} {m : BoundaryToPostgresSchemaMapping}
    (h : p.lookup boundary = some m) : m ∈ p.registry ∧ m.boundary = boundary := by
  rw [PostgresBoundaryProvisioner.lookup] at h
  exact ⟨List.mem_of_find?_eq_some h, by simpa using List.find?_some h⟩

/-- What the registered and migrated boundaries have in the database. -/
structure Sound (K : Keywords) (p : PostgresBoundaryProvisioner) : Prop where
  schemas : p.db.SoundSchemas K
  versions : ∀ r ∈ p.db.relations, r.version ≠ 4
  registry : ∀ m ∈ p.registry, p.db.Separate K m
  migrated : ∀ m ∈ p.migrated, p.db.Separate K m

theorem sound_fresh : Sound K fresh where
  schemas := fresh_soundSchemas K
  versions := by simp [fresh, Database.fresh]
  registry := by simp [fresh]
  migrated := by simp [fresh]

theorem Sound.register (h : p.Sound K) {m : BoundaryToPostgresSchemaMapping}
    (hm : p.db.Separate K m) : (p.register m).1.Sound K := by
  unfold PostgresBoundaryProvisioner.register
  split
  · split_ifs <;> exact h
  · refine ⟨h.schemas, h.versions, fun n hn => ?_, h.migrated⟩
    rcases List.mem_append.1 hn with hn | hn
    · exact h.registry n hn
    · obtain rfl := List.mem_singleton.1 hn
      exact hm

theorem Sound.withDb (h : p.Sound K) {db : Database} (hg : Database.Grows p.db db)
    (hs : db.SoundSchemas K) : ({ p with db := db } : PostgresBoundaryProvisioner).Sound K :=
  ⟨hs, hg.versions h.versions, fun m hm => (h.registry m hm).grows hg,
    fun m hm => (h.migrated m hm).grows hg⟩

theorem Sound.installBoundary (h : p.Sound K) (d : Admin.Definition) :
    (p.installBoundary K d).1.Sound K := by
  rcases hplace : postgresPlacement d with e | schema
  · simp only [PostgresBoundaryProvisioner.installBoundary, hplace]
    exact h
  · have hd := acceptable_of_postgresPlacement hplace
    obtain rfl : schema = d.placement.namespace := Except.ok.inj (hplace.symm.trans hd.placement)
    have hs := accepted_of_validateBoundaryName hd.schema
    obtain ⟨hg, hok⟩ := runDbScripts_grows (m := mappingOf d) hd.boundary hd.schema h.schemas
      h.versions
    have hsound := runDbScripts_sound (m := mappingOf d) hd.boundary hs h.schemas
    unfold PostgresBoundaryProvisioner.installBoundary
    rw [hplace]
    dsimp only
    split_ifs with hlookup hmigrated
    · obtain ⟨m, hm⟩ := Option.isSome_iff_exists.1 hlookup
      simp only [PostgresBoundaryProvisioner.register, hm]
      split_ifs <;> exact h
    · exact h.register (h.migrated _ hmigrated)
    · rcases hr : p.db.runDbScripts K ⟨d.name, d.placement.namespace⟩ with ⟨db, e | ⟨⟩⟩
      · simp only [mappingOf, hr] at hg hsound
        exact h.withDb hg hsound
      · simp only [mappingOf, hr, forall_const] at hg hok hsound
        have hdb := h.withDb hg hsound
        have hnew : Sound K ⟨p.registry, p.migrated.filter
            (fun n : BoundaryToPostgresSchemaMapping => decide (n.boundary ≠ d.name)) ++
              [⟨d.name, d.placement.namespace⟩], db⟩ := by
          refine ⟨hsound, hdb.versions, hdb.registry, fun m hm => ?_⟩
          rcases List.mem_append.1 hm with hm | hm
          · exact hdb.migrated m (List.mem_filter.1 hm).1
          · obtain rfl := List.mem_singleton.1 hm
            exact hok
        exact hnew.register hok

theorem Sound.installAll (h : p.Sound K) (ds : List Admin.Definition) :
    (p.installAll K ds).Sound K := by
  induction ds generalizing p with
  | nil => exact h
  | cons d ds ih => exact ih (h.installBoundary d)

end PostgresBoundaryProvisioner

theorem Database.Separate.length_le {db : Database} {m : BoundaryToPostgresSchemaMapping}
    (h : db.Separate K m) : m.boundary.toList.length ≤ 54 := by
  by_contra hlen
  have hmax : maxLength - m.boundary.toList.length ≤ 8 := by
    have : maxLength = 63 := rfl
    omega
  have hsuffix : ∀ n ≤ 8, BoundaryObject.event.suffix.toList.take n =
      BoundaryObject.schemaVersion.suffix.toList.take n := by decide +kernel
  have hsame : truncate (BoundaryObject.event.name m.boundary) =
      truncate (BoundaryObject.schemaVersion.name m.boundary) := by
    simp only [BoundaryObject.name, truncate, List.take_append]
    rw [hsuffix _ hmax]
  have hs := accepted_of_validateBoundaryName h.schema
  have hb := accepted_of_validateBoundaryName h.boundary
  obtain ⟨r, hr, hr'⟩ := (Option.any_eq_true _ _).1 h.event
  obtain ⟨q, hq, hq'⟩ := (Option.any_eq_true _ _).1 h.schemaVersion
  rw [created_eq K hs hb, hsame] at hr
  rw [created_eq K hs hb] at hq
  obtain rfl := Option.some.inj (hr.symm.trans hq)
  have := (of_decide_eq_true hr').symm.trans (of_decide_eq_true hq')
  simp at this

theorem metadata_suffix_apart : ∀ k < 31,
    (BoundaryObject.boundaryIndexMetadata.suffix.toList.drop k).take 9 =
      BoundaryObject.boundaryIndexMetadata.suffix.toList.take 9 → k = 0 := by
  decide +kernel

theorem eq_of_metadata_eq {b b' : String} (hle : b.toList.length ≤ b'.toList.length)
    (hb' : b'.toList.length ≤ 54)
    (h : truncate (BoundaryObject.boundaryIndexMetadata.name b) =
      truncate (BoundaryObject.boundaryIndexMetadata.name b')) : b = b' := by
  have h63 : maxLength = 63 := rfl
  have ht := take_drop_of_truncate_eq (k := 9) hle (by omega) h
  have hk : b'.toList.length - b.toList.length < 31 := by
    by_contra hk
    have hlen : BoundaryObject.boundaryIndexMetadata.suffix.toList.length = 31 := by decide +kernel
    rw [List.drop_eq_nil_of_le (by omega), List.take_nil] at ht
    exact absurd ht (by decide +kernel)
  have hlen : b.toList.length = b'.toList.length := by
    have := metadata_suffix_apart _ hk ht
    omega
  have hp := congrArg (List.take b.toList.length) h
  have hmin : min b.toList.length maxLength = b.toList.length := by omega
  rw [truncate, truncate, List.take_take, List.take_take, hmin, BoundaryObject.name,
    BoundaryObject.name, List.take_left, hlen, List.take_left] at hp
  exact String.toList_injective hp

namespace IndexedDatabase

open PostgresBoundaryProvisioner

variable {s : IndexedDatabase} {boundary name : String} {m : BoundaryToPostgresSchemaMapping}

theorem metadataTable_eq (h : s.provisioner.Sound K) (hm : s.provisioner.lookup boundary = some m) :
    s.metadataTable K boundary =
      some ⟨m.schema.toList, truncate (BoundaryObject.boundaryIndexMetadata.name boundary)⟩ := by
  obtain ⟨hmem, rfl⟩ := lookup_eq_some hm
  have hs := accepted_of_validateBoundaryName (h.registry m hmem).schema
  have hb := accepted_of_validateBoundaryName (h.registry m hmem).boundary
  rw [metadataTable, hm, Option.bind_some, quoteQualified,
    K.fromItem_quoteIdentifier hs.ne_nil (name_ne_nil _ hb), hs.truncate]

theorem metadataTable_inj (h : s.provisioner.Sound K) {boundary' : String}
    (hb : (s.provisioner.lookup boundary).isSome = true)
    (hb' : (s.provisioner.lookup boundary').isSome = true)
    (he : s.metadataTable K boundary = s.metadataTable K boundary') : boundary = boundary' := by
  obtain ⟨m, hm⟩ := Option.isSome_iff_exists.1 hb
  obtain ⟨m', hm'⟩ := Option.isSome_iff_exists.1 hb'
  rw [metadataTable_eq h hm, metadataTable_eq h hm'] at he
  have hname := congrArg Relation.name (Option.some.inj he)
  obtain ⟨hmem, rfl⟩ := lookup_eq_some hm
  obtain ⟨hmem', rfl⟩ := lookup_eq_some hm'
  have hlen := (h.registry m hmem).length_le
  have hlen' := (h.registry m' hmem').length_le
  rcases le_total m.boundary.toList.length m'.boundary.toList.length with hle | hle
  · exact eq_of_metadata_eq hle hlen' hname
  · exact (eq_of_metadata_eq hle hlen hname.symm).symm

theorem dropBoundaryIndex_eq (h : s.provisioner.Sound K)
    (hm : s.provisioner.lookup boundary = some m) (hn : validateBoundaryName name = .ok ()) :
    s.dropBoundaryIndex K boundary name =
      match s.dropIndexIfExists ⟨m.schema.toList, indexRelname boundary name⟩ with
      | .error e => (s, .error e)
      | .ok s => (s.deleteRow K boundary name, .ok ()) := by
  obtain ⟨hmem, rfl⟩ := lookup_eq_some hm
  have hs := accepted_of_validateBoundaryName (h.registry m hmem).schema
  have hne : physicalIndexName m.boundary name ≠ [] := by simp [physicalIndexName]
  unfold dropBoundaryIndex
  simp only [hm, hn]
  rw [quoteQualified, K.fromItem_quoteIdentifier hs.ne_nil hne, hs.truncate]
  rfl

theorem mem_deleteRow (h : s.provisioner.Sound K)
    (hb : (s.provisioner.lookup boundary).isSome = true)
    {row : String × String} (hr : row ∈ s.rows)
    (hrow : (s.provisioner.lookup row.1).isSome = true) (hne : row ≠ (boundary, name)) :
    row ∈ (s.deleteRow K boundary name).rows := by
  refine List.mem_filter.2 ⟨hr, ?_⟩
  rw [Bool.not_eq_true', Bool.and_eq_false_iff, decide_eq_false_iff_not, decide_eq_false_iff_not]
  by_contra hboth
  rw [not_or, not_not, not_not] at hboth
  exact hne (Prod.ext (metadataTable_inj h hrow hb hboth.1) hboth.2)

theorem goneAtMost_of_dropsOwn (h : s.provisioner.Sound K)
    (hm : s.provisioner.lookup boundary = some m) (hn : validateBoundaryName name = .ok ())
    (hex : s.Existing) (hown : DropsOwn s.provisioner m boundary name) :
    GoneAtMost boundary name s (s.dropBoundaryIndex K boundary name).1 := by
  have hb : (s.provisioner.lookup boundary).isSome = true := by simp [hm]
  rw [dropBoundaryIndex_eq h hm hn]
  unfold dropIndexIfExists
  rcases hl : s.provisioner.db.lookup ⟨m.schema.toList, indexRelname boundary name⟩ with _ | r
  · refine ⟨rfl, fun i hi hne => ?_, fun row hr hne => ?_⟩
    · refine List.mem_filter.2 ⟨hi, decide_eq_true fun hrel => hne ?_⟩
      obtain ⟨m', hm', hname, hfit, hi', -⟩ := hex.created i hi
      rw [hi'] at hrel
      obtain ⟨hschema, hphysical⟩ := Relation.mk.inj hrel
      obtain ⟨hbb, hnn⟩ := hown.2 hl i.boundary m' i.name hm'
        (String.toList_injective hschema) hname hfit hphysical
      rw [hbb, hnn]
    · exact mem_deleteRow (s := { s with indexes := _ }) h hb hr (hex.rows row hr) hne
  · simp only [hown.1 r hl, Bool.false_eq_true, if_false]
    exact ⟨rfl, fun i hi _ => hi, fun row hr _ => hr⟩

theorem existing_single {p : PostgresBoundaryProvisioner}
    (hm : p.lookup boundary = some m) (hn : validateBoundaryName name = .ok ())
    (hfit : fitsRelname boundary name = true)
    (hfree : p.db.lookup ⟨m.schema.toList, physicalIndexName boundary name⟩ = none) :
    Existing ⟨p, [⟨⟨m.schema.toList, physicalIndexName boundary name⟩, boundary, name⟩], []⟩ where
  created := by
    intro i hi
    obtain rfl := List.mem_singleton.1 hi
    exact ⟨m, hm, hn, hfit, rfl, hfree⟩
  distinct := by simp
  rows := by simp

end IndexedDatabase

open PostgresBoundaryProvisioner IndexedDatabase

/-- Over every set of installed boundaries and with every set of existing indexes, a drop takes away
at most its own index and row exactly if its name, cut to length, is its own. -/
theorem dropBoundaryIndex_local_iff (K : Keywords) (ds : List Admin.Definition)
    (boundary name : String) (m : BoundaryToPostgresSchemaMapping)
    (hm : (fresh.installAll K ds).lookup boundary = some m)
    (hn : validateBoundaryName name = .ok ()) :
    (∀ s : IndexedDatabase, s.provisioner = fresh.installAll K ds → s.Existing →
      GoneAtMost boundary name s (s.dropBoundaryIndex K boundary name).1) ↔
    DropsOwn (fresh.installAll K ds) m boundary name := by
  have hsound : (fresh.installAll K ds).Sound K := sound_fresh.installAll ds
  generalize fresh.installAll K ds = p at hm hsound ⊢
  constructor
  · intro hlocal
    refine ⟨fun r hr => ?_, fun hfree b' m' n' hm' hschema hn' hfit hphysical => ?_⟩
    · -- an installed index under the name would be dropped
      by_contra hindex
      rw [Bool.not_eq_false] at hindex
      have hgone := hlocal ⟨p, [], []⟩ rfl ⟨by simp, by simp, by simp⟩
      have hinst := hgone.installed
      rw [dropBoundaryIndex_eq hsound hm hn] at hinst
      simp only [dropIndexIfExists, hr, hindex, if_true, deleteRow] at hinst
      have hrel := congrArg (fun p : PostgresBoundaryProvisioner => p.db.relations) hinst
      have hmem := List.mem_of_find?_eq_some hr
      rw [← hrel] at hmem
      have hname : r.relation = ⟨m.schema.toList, indexRelname boundary name⟩ := by
        simpa using List.find?_some hr
      simp [hname] at hmem
    · -- so would the only index there is
      rw [← hschema, ← hphysical] at hfree
      have hgone := hlocal _ rfl (existing_single hm' hn' hfit hfree)
      by_contra hne
      have hmem := hgone.indexes _ (List.mem_singleton_self _) (by simpa using hne)
      rw [dropBoundaryIndex_eq hsound hm hn, hphysical, hschema] at hmem
      rw [hphysical, hschema] at hfree
      simp [dropIndexIfExists, hfree, deleteRow] at hmem
  · rintro hown s rfl hex
    exact goneAtMost_of_dropsOwn hsound hm hn hex hown

theorem dropBoundaryIndex_local_guard :
    (fresh.installAll sampleKeywords [inPublic "orders"]).lookup "orders" =
      some ⟨"orders", "public"⟩ ∧
    ∀ s : IndexedDatabase,
      s.provisioner = fresh.installAll sampleKeywords [inPublic "orders"] → s.Existing →
      GoneAtMost "orders" "guard" s (s.dropBoundaryIndex sampleKeywords "orders" "guard").1 := by
  have hm : (fresh.installAll sampleKeywords [inPublic "orders"]).lookup "orders" =
      some ⟨"orders", "public"⟩ := by decide +kernel
  refine ⟨hm, (dropBoundaryIndex_local_iff _ _ _ _ _ hm (by decide +kernel)).2 ?_⟩
  have hfree : (fresh.installAll sampleKeywords [inPublic "orders"]).db.lookup
      ⟨"public".toList, indexRelname "orders" "guard"⟩ = none := by decide +kernel
  have hregistry : ∀ m ∈ (fresh.installAll sampleKeywords [inPublic "orders"]).registry,
      m.boundary = "orders" := by decide +kernel
  refine ⟨fun r hr => absurd (hfree.symm.trans hr) (by simp), fun _ b' m' n' hm' _ _ _ hphysical => ?_⟩
  obtain ⟨hmem, hname⟩ := lookup_eq_some hm'
  obtain rfl : b' = "orders" := hname.symm.trans (hregistry m' hmem)
  rw [indexRelname_of_fits (by decide +kernel)] at hphysical
  exact ⟨rfl, physicalIndexName_inj hphysical⟩

def ordersAndEu : PostgresBoundaryProvisioner :=
  fresh.installAll sampleKeywords [inPublic "orders", inPublic "orders_eu"]

def longBoundary : PostgresBoundaryProvisioner :=
  fresh.installAll sampleKeywords [inPublic "a_boundary_name_of_thirty_seven_chars"]

/-- The index of one boundary is dropped as that of another, and one that installation has created
as that of a name which is cut to it. -/
theorem drop_of_foreign_indexes :
    ((ordersAndEu.lookup "orders").isSome = true ∧ (ordersAndEu.lookup "orders_eu").isSome = true ∧
      validateBoundaryName "eu_guard" = .ok () ∧ validateBoundaryName "guard" = .ok () ∧
      (dropBoundaryIndex sampleKeywords
        ⟨ordersAndEu, [⟨⟨"public".toList, "orders_eu_guard_idx".toList⟩, "orders_eu", "guard"⟩],
          [("orders_eu", "guard")]⟩ "orders" "eu_guard").1 =
        ⟨ordersAndEu, [], [("orders_eu", "guard")]⟩) ∧
    validateBoundaryName "idx_global_order_covering" = .ok () ∧
    (longBoundary.db.relations.any fun r => decide (r.object = .idxGlobalOrderCovering)) = true ∧
    ((dropBoundaryIndex sampleKeywords ⟨longBoundary, [], []⟩
        "a_boundary_name_of_thirty_seven_chars"
        "idx_global_order_covering").1.provisioner.db.relations.any fun r =>
      decide (r.object = .idxGlobalOrderCovering)) = false := by
  decide +kernel

end Orisun.Postgres
