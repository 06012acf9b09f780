import Mathlib.Data.List.Pairwise
import Orisun.Sqlite.BoundaryStorage

/-!
# The files of boundaries are disjoint

The files of two boundaries differ unless one boundary's name is the other's with `_metadata` after
it. Without such a pair every boundary finds its files absent, and can be installed.
-/

namespace Orisun.Sqlite

open Admin (Definition)

def storageFiles (boundary : String) : List String := [eventFile boundary, metadataFile boundary]

variable {b c : String}

theorem eventFile_inj : eventFile b = eventFile c ↔ b = c := by
  simp [eventFile, eventDBName, ← String.toList_inj]

theorem metadataFile_inj : metadataFile b = metadataFile c ↔ b = c := by
  simp [metadataFile, metadataDBNameForBoundary, ← String.toList_inj]

theorem eventFile_eq_metadataFile :
    eventFile b = metadataFile c ↔ b = metadataDBNameForBoundary c := by
  simp [eventFile, eventDBName, metadataFile, ← String.toList_inj]

theorem ne_metadataDBName (b : String) : b ≠ metadataDBNameForBoundary b := by
  simp [metadataDBNameForBoundary, ← String.toList_inj]

theorem storageFiles_nodup (b : String) : (storageFiles b).Nodup := by
  simp [storageFiles, eventFile_eq_metadataFile, ne_metadataDBName]

/-- Boundaries of which none has the name of another's metadata. -/
def NoMetadataName (names : List String) : Prop :=
  ∀ b ∈ names, ∀ c ∈ names, c ≠ metadataDBNameForBoundary b

theorem storageFiles_disjoint (hbc : b ≠ c) (h : c ≠ metadataDBNameForBoundary b)
    (h' : b ≠ metadataDBNameForBoundary c) : List.Disjoint (storageFiles b) (storageFiles c) := by
  have hmeta : metadataFile b ≠ eventFile c := fun he => h (eventFile_eq_metadataFile.1 he.symm)
  simp [storageFiles, List.Disjoint, eventFile_inj, metadataFile_inj, eventFile_eq_metadataFile,
    hbc, h', hmeta]

theorem nodup_storageFiles_iff {names : List String} (hnodup : names.Nodup) :
    (names.flatMap storageFiles).Nodup ↔ NoMetadataName names := by
  constructor
  · intro h b hb c hc hcb
    rcases eq_or_ne b c with rfl | hne
    · exact ne_metadataDBName b hcb
    · have : Std.Symm (Function.onFun List.Disjoint storageFiles) :=
        ⟨fun _ _ hd _ hx hy => hd hy hx⟩
      have hdisjoint : List.Disjoint (storageFiles b) (storageFiles c) :=
        (List.nodup_flatMap.1 h).2.forall hb hc hne
      refine hdisjoint (a := metadataFile b) (by simp [storageFiles]) ?_
      simp [storageFiles, eventFile_eq_metadataFile.2 hcb]
  · intro h
    refine List.nodup_flatMap.2 ⟨fun b _ => storageFiles_nodup b, ?_⟩
    refine hnodup.imp_of_mem fun hb hc hbc => ?_
    exact storageFiles_disjoint hbc (h _ hb _ hc) (h _ hc _ hb)

namespace SqliteBoundaryProvisioner

/-- What the boundaries installed so far have left: their files, and no others. -/
structure Holds (p : SqliteBoundaryProvisioner) (names : List String) : Prop where
  registry : p.registry = names
  opened : p.saverClosed = false
  installed : ∀ b ∈ names, p.Installed b
  files : ∀ file, p.dir file ≠ none → ∃ b ∈ names, file ∈ storageFiles b

theorem holds_fresh : Holds fresh [] where
  registry := rfl
  opened := rfl
  installed := by simp
  files := by simp [fresh]

theorem openBoundaryPools_absent {dir : Directory} {b : String} (h : dir (eventFile b) = none) :
    openBoundaryPools dir b =
      (Function.update dir (eventFile b) (some ⟨eventSchemaVersion, eventDDL⟩), .ok ()) := by
  simp [openBoundaryPools, openSQLitePools, h, applyMigrations, initializeSchema,
    eventSchemaVersion, metadataSchemaVersion]

theorem openMetadataPools_absent {dir : Directory} {b : String} (h : dir (metadataFile b) = none) :
    openMetadataPools dir b =
      (Function.update dir (metadataFile b) (some ⟨metadataSchemaVersion, metadataDDL⟩), .ok ()) := by
  simp [openMetadataPools, openSQLitePools, h, applyMetadataMigrations, initializeSchema,
    eventSchemaVersion, metadataSchemaVersion]

theorem Holds.install {p : SqliteBoundaryProvisioner} {names : List String} (h : p.Holds names)
    {d : Definition} (hvalid : validateDefinition d = .ok ()) (hnew : d.name ∉ names)
    (hdisjoint : ∀ b ∈ names, List.Disjoint (storageFiles b) (storageFiles d.name)) :
    ∃ p', p.installBoundary d = (p', .ok ()) ∧ p'.Holds (names ++ [d.name]) := by
  have habsent : ∀ file ∈ storageFiles d.name, p.dir file = none := by
    intro file hfile
    by_contra hne
    obtain ⟨b, hb, hin⟩ := h.files file hne
    exact hdisjoint b hb hin hfile
  have hkept : ∀ b ∈ names, ∀ file ∈ storageFiles b,
      file ≠ eventFile d.name ∧ file ≠ metadataFile d.name := by
    intro b hb file hfile
    constructor
    · rintro rfl
      exact hdisjoint b hb hfile (by simp [storageFiles])
    · rintro rfl
      exact hdisjoint b hb hfile (by simp [storageFiles])
  have hown : metadataFile d.name ≠ eventFile d.name := fun he =>
    ne_metadataDBName _ (eventFile_eq_metadataFile.1 he.symm)
  have hevent := openBoundaryPools_absent (habsent (eventFile d.name) (by simp [storageFiles]))
  have hmeta : Function.update p.dir (eventFile d.name) (some ⟨eventSchemaVersion, eventDDL⟩)
      (metadataFile d.name) = none := by
    rw [Function.update_of_ne hown]
    exact habsent _ (by simp [storageFiles])
  refine ⟨⟨names ++ [d.name], false, Function.update (Function.update p.dir (eventFile d.name)
      (some ⟨eventSchemaVersion, eventDDL⟩)) (metadataFile d.name)
      (some ⟨metadataSchemaVersion, metadataDDL⟩)⟩, ?_, rfl, rfl, ?_, ?_⟩
  · simp [installBoundary, hvalid, h.registry, hnew, hevent, openMetadataPools_absent hmeta,
      h.opened]
  · intro b hb
    rcases List.mem_append.1 hb with hin | hin
    · obtain ⟨-, hev, hmd⟩ := h.installed b hin
      have hke := hkept b hin (eventFile b) (by simp [storageFiles])
      have hkm := hkept b hin (metadataFile b) (by simp [storageFiles])
      refine ⟨hb, ?_, ?_⟩
      · simpa [hke.1, hke.2] using hev
      · simpa [hkm.1, hkm.2] using hmd
    · obtain rfl := List.mem_singleton.1 hin
      exact ⟨hb, by simp [hown.symm], by simp⟩
  · intro file hfile
    by_cases hin : file ∈ storageFiles d.name
    · exact ⟨d.name, by simp, hin⟩
    · have hne : file ≠ eventFile d.name ∧ file ≠ metadataFile d.name := by
        simpa [storageFiles] using hin
      obtain ⟨b, hb, hbf⟩ := h.files file (by simpa [hne.1, hne.2] using hfile)
      exact ⟨b, List.mem_append_left _ hb, hbf⟩

theorem Holds.installAll :
    ∀ {ds : List Definition} {names : List String} {p : SqliteBoundaryProvisioner}, p.Holds names →
      (∀ d ∈ ds, validateDefinition d = .ok ()) → (names ++ ds.map (·.name)).Nodup →
      NoMetadataName (names ++ ds.map (·.name)) →
      ∃ p', p.installAll ds = .ok p' ∧ p'.Holds (names ++ ds.map (·.name))
  | [], names, p, h, _, _, _ => ⟨p, rfl, by simpa using h⟩
  | d :: ds, names, p, h, hvalid, hnodup, hno => by
    have hnew : d.name ∉ names := fun hin =>
      (List.nodup_append.1 hnodup).2.2 _ hin d.name (by simp) rfl
    have hmem : d.name ∈ names ++ (d :: ds).map (·.name) := by simp
    have hdisjoint : ∀ b ∈ names, List.Disjoint (storageFiles b) (storageFiles d.name) := by
      intro b hb
      have hbmem := List.mem_append_left ((d :: ds).map (·.name)) hb
      exact storageFiles_disjoint (fun he => hnew (he ▸ hb)) (hno _ hbmem _ hmem)
        (hno _ hmem _ hbmem)
    obtain ⟨q, hq, hqh⟩ := h.install (hvalid d (List.mem_cons_self ..)) hnew hdisjoint
    have hassoc : names ++ (d :: ds).map (·.name) = (names ++ [d.name]) ++ ds.map (·.name) := by
      simp
    rw [hassoc] at hnodup hno ⊢
    obtain ⟨p', hp', hh⟩ := Holds.installAll hqh
      (fun e he => hvalid e (List.mem_cons_of_mem _ he)) hnodup hno
    exact ⟨p', by simp [SqliteBoundaryProvisioner.installAll, hq, hp'], hh⟩

end SqliteBoundaryProvisioner

/-- Boundaries of different names have different files, and are installed on an empty directory one
after the other, exactly if none has the name of another's metadata. -/
theorem storageFiles_disjoint_iff (ds : List Definition) (hnodup : (ds.map (·.name)).Nodup)
    (hvalid : ∀ d ∈ ds, validateDefinition d = .ok ()) :
    (((ds.map (·.name)).flatMap storageFiles).Nodup ∧
      ∃ p, SqliteBoundaryProvisioner.fresh.installAll ds = .ok p ∧
        ∀ d ∈ ds, p.Installed d.name) ↔
    ∀ d ∈ ds, ∀ e ∈ ds, e.name ≠ metadataDBNameForBoundary d.name := by
  have hno : NoMetadataName (ds.map (·.name)) ↔
      ∀ d ∈ ds, ∀ e ∈ ds, e.name ≠ metadataDBNameForBoundary d.name := by
    simp [NoMetadataName]
  rw [nodup_storageFiles_iff hnodup, hno]
  refine ⟨And.left, fun h => ⟨h, ?_⟩⟩
  obtain ⟨p, hp, hh⟩ := SqliteBoundaryProvisioner.holds_fresh.installAll hvalid
    (by simpa using hnodup) (by simpa using hno.2 h)
  exact ⟨p, hp, fun d hd => hh.installed d.name (by simpa using ⟨d, hd, rfl⟩)⟩

def sqliteDefinition (name : String) : Definition := ⟨name, "", ⟨"sqlite", name⟩⟩

theorem storageFiles_disjoint_orders : ∃ p,
    SqliteBoundaryProvisioner.fresh.installAll (["orders", "billing"].map sqliteDefinition) = .ok p ∧
      p.Installed "orders" := by
  have h := (storageFiles_disjoint_iff (["orders", "billing"].map sqliteDefinition)
    (by decide +kernel) (by decide +kernel)).2 (by decide +kernel)
  obtain ⟨-, p, hp, hin⟩ := h
  exact ⟨p, hp, hin (sqliteDefinition "orders") (by simp)⟩

/-- Two accepted boundaries that cannot both be installed, in neither order. -/
theorem metadataFile_of_orders :
    (["orders", "orders_metadata"].all fun b => (Admin.validateName b).isOk) = true ∧
    eventFile "orders_metadata" = metadataFile "orders" ∧
    ([["orders", "orders_metadata"], ["orders_metadata", "orders"]].any fun names =>
      (SqliteBoundaryProvisioner.fresh.installAll (names.map sqliteDefinition)).isOk) = false := by
  decide +kernel

end Orisun.Sqlite
