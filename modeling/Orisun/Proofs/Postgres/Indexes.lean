import Orisun.Postgres.Indexes

/-!
# What the rows say of the indexes

Where the calls on one name run one after the other, each of them finds the name's row and index as
the last one left them, and no statement of another call touches them.
-/

namespace Orisun.Postgres

open SqlIdentifier

variable {boundary name : String} {deparse : String × String → Option String}
  {cat : IndexCatalog} {d : IndexDefinition} {e : String × String}

theorem physicalIndexName_inj {n n' : String}
    (h : physicalIndexName boundary n = physicalIndexName boundary n') : n = n' := by
  simpa [physicalIndexName, String.toList_inj] using h

theorem indexRelname_of_fits (h : fitsRelname boundary name = true) :
    indexRelname boundary name = physicalIndexName boundary name :=
  List.take_of_length_le (of_decide_eq_true h)

theorem indexRelname_inj {n n' : String} (h : fitsRelname boundary n = true)
    (h' : fitsRelname boundary n' = true) (he : indexRelname boundary n = indexRelname boundary n') :
    n = n' := by
  rw [indexRelname_of_fits h, indexRelname_of_fits h'] at he
  exact physicalIndexName_inj he

/-- The row and the index of a name between calls. -/
inductive Settled (deparse : String × String → Option String) :
    Option IndexRow → Option PhysicalIndex → Prop
  | absent : Settled deparse none none
  | building (d : IndexDefinition) : Settled deparse (some ⟨d, .building⟩) none
  | ready {d : IndexDefinition} {e : String × String} {definition : String}
      (he : boundaryIndexExpressions d = .ok e) (hd : deparse e = some definition) :
      Settled deparse (some ⟨d, .ready⟩) (some ⟨definition, true⟩)

theorem Settled.index_of_absent {index : Option PhysicalIndex} (h : Settled deparse none index) :
    index = none := by
  cases h
  rfl

def Built (deparse : String × String → Option String) (e : String × String)
    (index : Option PhysicalIndex) : Prop :=
  ∃ definition, deparse e = some definition ∧ index = some ⟨definition, true⟩

def Reserved (e : String × String) (row : Option IndexRow) (reserved : IndexDefinition) : Prop :=
  row = some ⟨reserved, .building⟩ ∧ boundaryIndexExpressions reserved = .ok e

def StageFinds (deparse : String × String → Option String) (e : String × String)
    (row : Option IndexRow) (index : Option PhysicalIndex) : CreateStage → Prop
  | .checkMetadata => Settled deparse row index
  | .verify | .insertRow =>
    Settled deparse row index ∧ ∀ r ∈ row, boundaryIndexExpressions r.definition = .ok e
  | .recheck =>
    Settled deparse row index ∧
      ∃ r, row = some r ∧ boundaryIndexExpressions r.definition = .ok e
  | .setBuilding reserved =>
    Settled deparse row index ∧
      ∃ r, row = some r ∧ r.definition = reserved ∧ boundaryIndexExpressions reserved = .ok e
  | .readValidity reserved | .build reserved =>
    Reserved e row reserved ∧ (index = none ∨ Built deparse e index)
  | .dropInvalid _ => False
  | .building reserved =>
    Reserved e row reserved ∧
      ∃ definition, deparse e = some definition ∧ index = some ⟨definition, false⟩
  | .readBuilt reserved | .verifyBuilt reserved | .setReady reserved =>
    Reserved e row reserved ∧ Built deparse e index
  | .cleanup _ | .cleanupDrop _ =>
    (∃ d, row = some ⟨d, .building⟩) ∧ ∀ i ∈ index, i.valid = false

def CallFinds (boundary : String) (deparse : String × String → Option String) (cat : IndexCatalog) :
    IndexCall → Prop
  | .creating name d e stage =>
    fitsRelname boundary name = true ∧ boundaryIndexExpressions d = .ok e ∧
      StageFinds deparse e (cat.rows name) (cat.index boundary name) stage
  | .dropping name =>
    fitsRelname boundary name = true ∧ Settled deparse (cat.rows name) (cat.index boundary name)
  | .deleting name => fitsRelname boundary name = true ∧ cat.index boundary name = none
  | .returned name _ => Settled deparse (cat.rows name) (cat.index boundary name)

namespace IndexCatalog

@[simp] theorem setRow_rows (row : Option IndexRow) : (cat.setRow name row).rows name = row := by
  simp [setRow]

@[simp] theorem setRow_index (n : String) (row : Option IndexRow) :
    (cat.setRow name row).index boundary n = cat.index boundary n := rfl

@[simp] theorem setIndex_rows (i : Option PhysicalIndex) :
    (cat.setIndex boundary name i).rows = cat.rows := rfl

@[simp] theorem setIndex_index (i : Option PhysicalIndex) :
    (cat.setIndex boundary name i).index boundary name = i := by
  simp [setIndex, index]

theorem check_eq_ok {found : Option IndexRow}
    (h : cat.checkBoundaryIndexMetadata name e = .ok found) :
    found = cat.rows name ∧ ∀ r ∈ cat.rows name, boundaryIndexExpressions r.definition = .ok e := by
  unfold checkBoundaryIndexMetadata at h
  split at h
  · rename_i hrow
    cases h
    simp [hrow]
  · rename_i r hrow
    split at h
    · simp at h
    · split_ifs at h with hne
      cases h
      simp_all

theorem verify_of_built (h : Built deparse e (cat.index boundary name)) :
    cat.verifyBoundaryIndexDefinition boundary deparse name e = .ok true := by
  obtain ⟨definition, hd, hi⟩ := h
  simp [verifyBoundaryIndexDefinition, hi, hd]

theorem setState_of_rows {r : IndexRow} (h : cat.rows name = some r) (state : IndexState) :
    cat.setState name r.definition state = some (cat.setRow name (some ⟨r.definition, state⟩)) := by
  simp [setState, h]

/-- Nothing changes but under the name. -/
structure Frame (boundary name : String) (cat cat' : IndexCatalog) : Prop where
  rows : ∀ n ≠ name, cat'.rows n = cat.rows n
  indexes : ∀ t ≠ indexRelname boundary name, cat'.indexes t = cat.indexes t

theorem Frame.refl : Frame boundary name cat cat := ⟨fun _ _ => rfl, fun _ _ => rfl⟩

theorem frame_setRow (row : Option IndexRow) : Frame boundary name cat (cat.setRow name row) :=
  ⟨fun _ hn => Function.update_of_ne hn .., fun _ _ => rfl⟩

theorem frame_setIndex (i : Option PhysicalIndex) :
    Frame boundary name cat (cat.setIndex boundary name i) :=
  ⟨fun _ _ => rfl, fun _ ht => Function.update_of_ne ht ..⟩

theorem Frame.index {cat' : IndexCatalog} (h : Frame boundary name cat cat') {n : String}
    (hfit : fitsRelname boundary name = true) (hn : fitsRelname boundary n = true)
    (hne : n ≠ name) : cat'.index boundary n = cat.index boundary n :=
  h.indexes _ fun he => hne (indexRelname_inj hn hfit he)

theorem frame_setState {reserved : IndexDefinition} {state : IndexState} {cat' : IndexCatalog}
    (h : cat.setState name reserved state = some cat') : Frame boundary name cat cat' := by
  unfold setState at h
  split at h
  · simp at h
  · split_ifs at h
    cases h
    exact frame_setRow _

theorem frame_insertRow : Frame boundary name cat (cat.insertRow name d) := by
  unfold insertRow
  split
  · exact frame_setRow _
  · exact Frame.refl

end IndexCatalog

namespace IndexCall

open IndexCatalog

theorem execCreate_frame (fails : Bool) (stage : CreateStage) :
    Frame boundary name cat (execCreate boundary deparse cat fails name d e stage).1 ∧
      (execCreate boundary deparse cat fails name d e stage).2.name = name := by
  cases stage <;> simp only [execCreate]
  case checkMetadata => split <;> exact ⟨Frame.refl, rfl⟩
  case verify => split <;> exact ⟨Frame.refl, rfl⟩
  case insertRow => exact ⟨frame_insertRow, rfl⟩
  case recheck => split <;> exact ⟨Frame.refl, rfl⟩
  case setBuilding =>
    split
    · exact ⟨Frame.refl, rfl⟩
    · exact ⟨frame_setState ‹_›, rfl⟩
  case readValidity => split <;> exact ⟨Frame.refl, rfl⟩
  case dropInvalid => exact ⟨frame_setIndex _, rfl⟩
  case build =>
    split_ifs
    · exact ⟨Frame.refl, rfl⟩
    · split
      · exact ⟨Frame.refl, rfl⟩
      · split
        · exact ⟨frame_setIndex _, rfl⟩
        · exact ⟨Frame.refl, rfl⟩
  case building =>
    split_ifs
    · exact ⟨Frame.refl, rfl⟩
    · exact ⟨frame_setIndex _, rfl⟩
  case readBuilt => split <;> exact ⟨Frame.refl, rfl⟩
  case verifyBuilt => split <;> exact ⟨Frame.refl, rfl⟩
  case setReady =>
    split
    · exact ⟨Frame.refl, rfl⟩
    · exact ⟨frame_setState ‹_›, rfl⟩
  case cleanup => split <;> exact ⟨Frame.refl, rfl⟩
  case cleanupDrop => exact ⟨frame_setIndex _, rfl⟩

theorem exec_frame (fails : Bool) (c : IndexCall) :
    Frame boundary c.name cat (c.exec boundary deparse cat fails).1 ∧
      (c.exec boundary deparse cat fails).2.name = c.name := by
  rcases c with ⟨name, d, e, stage⟩ | name | name | ⟨name, result⟩
  · exact execCreate_frame fails stage
  · exact ⟨frame_setIndex _, rfl⟩
  · exact ⟨frame_setRow _, rfl⟩
  · exact ⟨Frame.refl, rfl⟩

theorem execCreate_finds (hfit : fitsRelname boundary name = true)
    (hd : boundaryIndexExpressions d = .ok e) (fails : Bool) (stage : CreateStage)
    (hfails : fails = true → ∀ reserved, stage = .build reserved → cat.index boundary name = none)
    (h : StageFinds deparse e (cat.rows name) (cat.index boundary name) stage) :
    CallFinds boundary deparse (execCreate boundary deparse cat fails name d e stage).1
      (execCreate boundary deparse cat fails name d e stage).2 := by
  cases stage <;> simp only [execCreate]
  case checkMetadata =>
    split
    · exact h
    · exact ⟨hfit, hd, h, (check_eq_ok ‹_›).2⟩
  case verify =>
    split
    · exact h.1
    · exact ⟨hfit, hd, h⟩
  case insertRow =>
    obtain ⟨hs, hsame⟩ := h
    refine ⟨hfit, hd, ?_⟩
    rcases hrow : cat.rows name with _ | r
    · rw [hrow] at hs
      have hi := hs.index_of_absent
      simp only [insertRow, hrow, setRow_rows, setRow_index, hi]
      exact ⟨.building d, _, rfl, hd⟩
    · simp only [insertRow, hrow]
      exact ⟨hrow ▸ hs, r, rfl, hsame r hrow⟩
  case recheck =>
    split
    · exact h.1
    · exact h.1
    · rename_i existing hfound
      obtain ⟨hs, -⟩ := h
      obtain ⟨hrow, hsame⟩ := check_eq_ok hfound
      exact ⟨hfit, hd, hs, existing, hrow.symm, rfl, hsame existing hrow.symm⟩
  case setBuilding reserved =>
    obtain ⟨hs, r, hrow, rfl, hr⟩ := h
    rw [setState_of_rows hrow]
    refine ⟨hfit, hd, ⟨by simp, hr⟩, ?_⟩
    simp only [setRow_index]
    rw [hrow] at hs
    cases hi : cat.index boundary name with
    | none => exact .inl rfl
    | some i =>
      rw [hi] at hs
      cases hs with
      | ready he hdef =>
        obtain rfl := Except.ok.inj (he.symm.trans hr)
        exact .inr ⟨_, hdef, rfl⟩
  case readValidity reserved =>
    split
    · rename_i hi
      obtain ⟨-, hnone | ⟨_, -, hsome⟩⟩ := h
      · simp [hi] at hnone
      · simp [hi] at hsome
    · exact ⟨hfit, hd, h⟩
  case dropInvalid => exact h.elim
  case build reserved =>
    obtain ⟨hr, hi⟩ := h
    split_ifs with hf
    · exact ⟨hfit, hd, ⟨reserved, hr.1⟩, by simp [hfails hf reserved rfl]⟩
    · split
      · rename_i hsome
        rcases hi with hnone | hbuilt
        · simp [hsome] at hnone
        · exact ⟨hfit, hd, hr, hbuilt⟩
      · rename_i hnone
        split
        · rename_i hdef
          refine ⟨hfit, hd, hr, _, hdef, ?_⟩
          simp
        · exact ⟨hfit, hd, ⟨reserved, hr.1⟩, by simp [hnone]⟩
  case building reserved =>
    obtain ⟨hr, definition, hdef, hi⟩ := h
    split_ifs
    · exact ⟨hfit, hd, ⟨reserved, hr.1⟩, by simp [hi]⟩
    · exact ⟨hfit, hd, hr, definition, hdef, by simp [hi]⟩
  case readBuilt reserved =>
    obtain ⟨definition, -, hi⟩ := h.2
    simp only [hi]
    exact ⟨hfit, hd, h⟩
  case verifyBuilt reserved =>
    rw [verify_of_built h.2]
    exact ⟨hfit, hd, h⟩
  case setReady reserved =>
    obtain ⟨⟨hrow, hr⟩, definition, hdef, hi⟩ := h
    rw [setState_of_rows hrow]
    simp only [CallFinds, setRow_rows, setRow_index, hi]
    exact .ready hr hdef
  case cleanup err =>
    obtain ⟨⟨d', hrow⟩, hinvalid⟩ := h
    split
    · exact ⟨hfit, hd, ⟨d', hrow⟩, hinvalid⟩
    · rename_i hnot
      rcases hi : cat.index boundary name with _ | ⟨definition, valid⟩
      · simp only [CallFinds, hrow, hi]
        exact .building d'
      · obtain rfl : valid = false := hinvalid _ hi
        exact absurd hi (hnot definition)
  case cleanupDrop err =>
    obtain ⟨⟨d', hrow⟩, -⟩ := h
    simp only [CallFinds, setIndex_rows, setIndex_index, hrow]
    exact .building d'

theorem exec_finds (fails : Bool) (c : IndexCall)
    (hfails : fails = true → ∀ name d e reserved, c = .creating name d e (.build reserved) →
      cat.index boundary name = none) (h : CallFinds boundary deparse cat c) :
    CallFinds boundary deparse (c.exec boundary deparse cat fails).1
      (c.exec boundary deparse cat fails).2 := by
  rcases c with ⟨name, d, e, stage⟩ | name | name | ⟨name, result⟩
  · refine execCreate_finds h.1 h.2.1 fails stage (fun hf reserved hstage => ?_) h.2.2
    exact hfails hf name d e reserved (by rw [hstage])
  · exact ⟨h.1, by simp [exec]⟩
  · simp only [exec, CallFinds, setRow_rows, setRow_index, h.2]
    exact .absent
  · exact h

end IndexCall

namespace IndexWorld

open IndexCall

variable {w w' : IndexWorld}

/-- Calls under way are on different names, each finds what it expects, and names without a call are
settled. -/
structure Inv (boundary : String) (deparse : String × String → Option String) (w : IndexWorld) :
    Prop where
  apart : ∀ (j k : ℕ) (c c' : IndexCall), w.calls[j]? = some c → w.calls[k]? = some c' →
    c.isReturned = false → c'.isReturned = false → c.name = c'.name → j = k
  finds : ∀ c ∈ w.calls, c.isReturned = false → CallFinds boundary deparse w.catalog c
  settled : ∀ n, fitsRelname boundary n = true → w.Idle n →
    Settled deparse (w.catalog.rows n) (w.catalog.index boundary n)
  long : ∀ n, fitsRelname boundary n = false → w.catalog.rows n = none

theorem inv_fresh : Inv boundary deparse fresh where
  apart := by simp [fresh]
  finds := by simp [fresh]
  settled := fun _ _ _ => .absent
  long := fun _ _ => rfl

variable {c : IndexCall}

theorem getElem?_begun {calls : List IndexCall} {c' : IndexCall} {j : ℕ}
    (h : (calls ++ [c])[j]? = some c') : calls[j]? = some c' ∨ j = calls.length ∧ c' = c := by
  rcases lt_or_ge j calls.length with hlt | hge
  · rw [List.getElem?_append_left hlt] at h
    exact .inl h
  · rw [List.getElem?_append_right hge, List.getElem?_singleton] at h
    split_ifs at h with hj
    exact .inr ⟨by omega, (Option.some.inj h).symm⟩

theorem Inv.begin (h : w.Inv boundary deparse) (hidle : w.Idle c.name)
    (hc : c.isReturned = false → CallFinds boundary deparse w.catalog c) :
    Inv boundary deparse { w with calls := w.calls ++ [c] } where
  apart := by
    have hnew : ∀ c' ∈ w.calls, c'.isReturned = false → c'.name ≠ c.name :=
      fun c' hc' hr he => by simp [hidle c' hc' he] at hr
    intro j k c₁ c₂ hj hk hr₁ hr₂ he
    rcases getElem?_begun hj with hold | ⟨rfl, rfl⟩ <;>
      rcases getElem?_begun hk with hold' | ⟨rfl, rfl⟩
    · exact h.apart j k c₁ c₂ hold hold' hr₁ hr₂ he
    · exact absurd he (hnew c₁ (List.mem_of_getElem? hold) hr₁)
    · exact absurd he.symm (hnew c₂ (List.mem_of_getElem? hold') hr₂)
    · rfl
  finds := by
    intro c' hc' hr
    rcases List.mem_append.1 hc' with hc' | hc'
    · exact h.finds c' hc' hr
    · obtain rfl := List.mem_singleton.1 hc'
      exact hc hr
  settled := fun n hfit hn => h.settled n hfit fun c' hc' => hn c' (List.mem_append_left _ hc')
  long := h.long

theorem CallFinds.fits (h : CallFinds boundary deparse cat c) (hc : c.isReturned = false) :
    fitsRelname boundary c.name = true := by
  rcases c with ⟨name, d, e, stage⟩ | name | name | ⟨name, result⟩
  · exact h.1
  · exact h.1
  · exact h.1
  · simp [isReturned] at hc

theorem CallFinds.congr {cat' : IndexCatalog} (h : CallFinds boundary deparse cat c)
    (hrows : cat'.rows c.name = cat.rows c.name)
    (hindex : cat'.index boundary c.name = cat.index boundary c.name) :
    CallFinds boundary deparse cat' c := by
  rcases c with ⟨name, d, e, stage⟩ | name | name | ⟨name, result⟩ <;>
    simp only [IndexCall.name] at hrows hindex <;> simp only [CallFinds, hrows, hindex] at h ⊢ <;>
    exact h

theorem Inv.exec (h : w.Inv boundary deparse) {k : ℕ} (hk : w.calls[k]? = some c)
    (hc : c.isReturned = false) (fails : Bool)
    (hfails : fails = true → ∀ name d e reserved, c = .creating name d e (.build reserved) →
      w.catalog.index boundary name = none) :
    Inv boundary deparse ⟨(c.exec boundary deparse w.catalog fails).1,
      w.calls.set k (c.exec boundary deparse w.catalog fails).2⟩ := by
  have hmem := List.mem_of_getElem? hk
  have hfinds := h.finds c hmem hc
  have hfit := CallFinds.fits hfinds hc
  obtain ⟨hframe, hname⟩ : IndexCatalog.Frame boundary c.name w.catalog
        (c.exec boundary deparse w.catalog fails).1 ∧
      (c.exec boundary deparse w.catalog fails).2.name = c.name := exec_frame fails c
  have hnext := exec_finds fails c hfails hfinds
  generalize (c.exec boundary deparse w.catalog fails).1 = cat' at hframe hnext ⊢
  generalize (c.exec boundary deparse w.catalog fails).2 = c' at hname hnext ⊢
  have hlen : k < w.calls.length := (List.getElem?_eq_some_iff.1 hk).1
  -- the other calls under way, and their names
  have hother : ∀ (j : ℕ) (c₁ : IndexCall), k ≠ j →
      (w.calls.set k c')[j]? = some c₁ → w.calls[j]? = some c₁ := by
    intro j c₁ hne hj
    rwa [List.getElem?_set_ne hne] at hj
  have hapart : ∀ (j : ℕ) (c₁ : IndexCall), k ≠ j → w.calls[j]? = some c₁ →
      c₁.isReturned = false → c₁.name ≠ c.name :=
    fun j c₁ hne hj hr he => hne (h.apart j k c₁ c hj hk hr hc he).symm
  have hself : (w.calls.set k c')[k]? = some c' := List.getElem?_set_self hlen
  refine ⟨?_, ?_, ?_, ?_⟩
  · intro j l c₁ c₂ hj hl hr₁ hr₂ he
    rcases eq_or_ne k j with rfl | hjk <;> rcases eq_or_ne k l with rfl | hlk
    · rfl
    · obtain rfl := Option.some.inj (hself.symm.trans hj)
      exact absurd (he.symm.trans hname) (hapart l c₂ hlk (hother l c₂ hlk hl) hr₂)
    · obtain rfl := Option.some.inj (hself.symm.trans hl)
      exact absurd (he.trans hname) (hapart j c₁ hjk (hother j c₁ hjk hj) hr₁)
    · exact h.apart j l c₁ c₂ (hother j c₁ hjk hj) (hother l c₂ hlk hl) hr₁ hr₂ he
  · intro c₁ hc₁ hr
    obtain ⟨j, hj⟩ := List.mem_iff_getElem?.1 hc₁
    rcases eq_or_ne k j with rfl | hjk
    · obtain rfl := Option.some.inj (hself.symm.trans hj)
      exact hnext
    · have hjo := hother j c₁ hjk hj
      have hf := h.finds c₁ (List.mem_of_getElem? hjo) hr
      have hne := hapart j c₁ hjk hjo hr
      exact CallFinds.congr hf (hframe.rows _ hne)
        (hframe.index hfit (CallFinds.fits hf hr) hne)
  · intro n hn hidle
    rcases eq_or_ne n c.name with rfl | hne
    · have hret := hidle c' (List.mem_of_getElem? hself) hname
      rcases c' with ⟨name, d, e, stage⟩ | name | name | ⟨name, result⟩ <;>
        simp [isReturned] at hret
      obtain rfl : name = c.name := hname
      exact hnext
    · rw [hframe.rows n hne, hframe.index hfit hn hne]
      refine h.settled n hn fun c₁ hc₁ he => ?_
      obtain ⟨j, hj⟩ := List.mem_iff_getElem?.1 hc₁
      rcases eq_or_ne k j with rfl | hjk
      · obtain rfl := Option.some.inj (hk.symm.trans hj)
        exact absurd he.symm hne
      · refine hidle c₁ (List.mem_of_getElem? (i := j) ?_) he
        rw [List.getElem?_set_ne hjk, hj]
  · intro n hn
    have hne : n ≠ c.name := by
      rintro rfl
      simp [hfit] at hn
    rw [hframe.rows n hne]
    exact h.long n hn

theorem Inv.step (h : w.Inv boundary deparse) {a : Action} (ha : Serial boundary w a)
    (hs : w.step boundary deparse a = some w') : w'.Inv boundary deparse := by
  rcases a with ⟨name, d⟩ | name | ⟨k, fails⟩ <;> simp only [IndexWorld.step] at hs
  · cases hs
    have hname : (IndexCall.create boundary name d).name = name := by
      unfold IndexCall.create
      split
      · rfl
      · dsimp only
        split
        · rfl
        · split_ifs <;> rfl
    refine h.begin (by rw [hname]; exact ha) fun hr => ?_
    unfold IndexCall.create at hr ⊢
    split at hr
    · simp [isReturned] at hr
    · dsimp only at hr ⊢
      split at hr
      · simp [isReturned] at hr
      · rename_i hexpr
        split_ifs at hr ⊢ with hfit
        · exact ⟨hfit, hexpr, h.settled name hfit ha⟩
        · simp [isReturned] at hr
  · cases hs
    have hname : (IndexCall.drop name).name = name := by
      unfold IndexCall.drop
      split <;> rfl
    refine h.begin (by rw [hname]; exact ha.1) fun hr => ?_
    unfold IndexCall.drop at hr ⊢
    split at hr
    · simp [isReturned] at hr
    · exact ⟨ha.2, h.settled name ha.2 ha.1⟩
  · split at hs
    · simp at hs
    · rename_i c hk
      split_ifs at hs with hr
      cases hs
      refine h.exec hk (by simpa using hr) fails fun hf name d e reserved hc => ?_
      exact ha hf name d e reserved (hc ▸ hk)

theorem Inv.tellsTruth (h : w.Inv boundary deparse) (hidle : w.Idle name) :
    w.catalog.TellsTruth boundary deparse name := by
  rcases hfit : fitsRelname boundary name with _ | _
  · have hrow := h.long name hfit
    simp [IndexCatalog.TellsTruth, hrow, hfit]
  · have hs := h.settled name hfit hidle
    generalize hrow : w.catalog.rows name = row at hs
    generalize hindex : w.catalog.index boundary name = index at hs
    cases hs with
    | absent => simp [IndexCatalog.TellsTruth, hrow, hindex]
    | building d => simp [IndexCatalog.TellsTruth, hrow, hindex]
    | ready he hdef =>
      refine ⟨⟨fun _ => ⟨_, _, _, hrow, he, hindex, rfl, hdef⟩, fun _ => ⟨_, hrow, rfl⟩⟩, ?_⟩
      simp [hrow]

/-- Where calls on one name do not overlap, only names that are not truncated are dropped, and
`CREATE INDEX` does not fail on an index that exists, the rows tell the truth of every name without
a call under way. -/
theorem indexRows_tell_truth (boundary : String) (deparse : String × String → Option String)
    (as : List Action) (w : IndexWorld)
    (hserial : Transition.Along (IndexWorld.step boundary deparse) (Serial boundary) fresh as)
    (hrun : Transition.run (IndexWorld.step boundary deparse) fresh as = some w) (name : String)
    (hidle : w.Idle name) : w.catalog.TellsTruth boundary deparse name := by
  have h : w.Inv boundary deparse := Transition.run_invariant_along
    (fun _ _ _ h ha hs => h.step ha hs) inv_fresh hserial hrun
  exact h.tellsTruth hidle

def textIndex (key : String) : IndexDefinition := ⟨[⟨key, "text"⟩], [], ""⟩

def shown (e : String × String) : Option String := some (e.1 ++ e.2)

def oneCreation : List Action :=
  .create "guard" (textIndex "value") :: List.replicate 11 (.exec 0 false)

/-- A creation is held before its last statement. The index is dropped, and another creation of it
fails to build. -/
def creationAcrossDrop : List Action :=
  .create "guard" (textIndex "value") :: List.replicate 10 (.exec 0 false) ++
    .drop "guard" :: List.replicate 2 (.exec 1 false) ++
    .create "guard" (textIndex "value") :: List.replicate 6 (.exec 2 false) ++
    [.exec 2 true, .exec 2 false, .exec 0 false]

def isReady (w : IndexWorld) (name : String) : Bool :=
  (w.catalog.rows name).any fun r => decide (r.state = .ready)

theorem exists_of_isReady (h : w.isReady name = true) :
    ∃ r, w.catalog.rows name = some r ∧ r.state = .ready := by
  obtain ⟨r, hr, hstate⟩ := (Option.any_eq_true _ _).1 h
  exact ⟨r, hr, of_decide_eq_true hstate⟩

/-- A check of `Serial` where no statement fails. -/
def serial (boundary : String) (w : IndexWorld) : Action → Bool
  | .create name _ => w.calls.all fun c => !decide (c.name = name) || c.isReturned
  | .drop name =>
    (w.calls.all fun c => !decide (c.name = name) || c.isReturned) && fitsRelname boundary name
  | .exec _ fails => !fails

theorem serial_of_check {a : Action} (h : serial boundary w a = true) : Serial boundary w a := by
  have hidle : ∀ name, (w.calls.all fun c => !decide (c.name = name) || c.isReturned) = true →
      w.Idle name := by
    intro name hall c hc hname
    have := List.all_eq_true.1 hall c hc
    simpa [hname] using this
  cases a with
  | create name d => exact hidle name h
  | drop name =>
    obtain ⟨hall, hfit⟩ := Bool.and_eq_true_iff.1 h
    exact ⟨hidle name hall, hfit⟩
  | exec k fails => exact fun hf => by simp [serial, hf] at h

theorem indexRows_tell_truth_guard : ∃ w,
    Transition.run (IndexWorld.step "orders" shown) fresh oneCreation = some w ∧
    (∃ r, w.catalog.rows "guard" = some r ∧ r.state = .ready) ∧
    w.catalog.TellsTruth "orders" shown "guard" := by
  obtain ⟨w, hw, hp⟩ := Transition.exists_run fresh oneCreation
    (fun w => w.isReady "guard" && w.calls.all IndexCall.isReturned)
    (by decide +kernel : (Transition.run (IndexWorld.step "orders" shown) _ _).any _ = true)
  obtain ⟨hready, hall⟩ := Bool.and_eq_true_iff.1 hp
  refine ⟨w, hw, exists_of_isReady hready, indexRows_tell_truth _ _ _ w ?_ hw "guard" ?_⟩
  · exact Transition.along_of_checkAlong (p := serial "orders") (fun _ _ => serial_of_check)
      (by decide +kernel)
  · exact fun c hc _ => List.all_eq_true.1 hall c hc

/-- A creation that has verified its index marks the row ready which another one of the same
definition has reserved after a drop, and whose index could not be built. -/
theorem readyRow_without_index : ∃ w,
    Transition.run (IndexWorld.step "orders" shown) fresh creationAcrossDrop = some w ∧
    (∀ c ∈ w.calls, c.isReturned = true) ∧
    (∃ r, w.catalog.rows "guard" = some r ∧ r.state = .ready) ∧
    w.catalog.index "orders" "guard" = none ∧ ¬w.catalog.TellsTruth "orders" shown "guard" := by
  obtain ⟨w, hw, hp⟩ := Transition.exists_run fresh creationAcrossDrop
    (fun w => w.isReady "guard" &&
      (w.calls.all IndexCall.isReturned && (w.catalog.index "orders" "guard").isNone))
    (by decide +kernel : (Transition.run (IndexWorld.step "orders" shown) _ _).any _ = true)
  obtain ⟨hready, hp⟩ := Bool.and_eq_true_iff.1 hp
  obtain ⟨hall, hnone⟩ := Bool.and_eq_true_iff.1 hp
  have hexists := exists_of_isReady hready
  have hindex := Option.isNone_iff_eq_none.1 hnone
  refine ⟨w, hw, fun c hc => List.all_eq_true.1 hall c hc, hexists, hindex, fun htruth => ?_⟩
  obtain ⟨r, e, i, -, -, hi, -⟩ := htruth.1.1 hexists
  simp [hindex] at hi

end IndexWorld

end Orisun.Postgres
