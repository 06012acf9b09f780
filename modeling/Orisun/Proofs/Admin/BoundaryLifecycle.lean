import Orisun.Proofs.Admin.BoundaryCatalog

/-!
# The lifecycle of a boundary in every run

A command's append is accepted only where the lifecycle it read is still the whole one, so a run
keeps the grammar: what a handler holds is the status some earlier log gave its boundary, and each
conflict of an activation has added an event to a lifecycle that has room for three.
-/

namespace Orisun.Admin

open OptimisticLog

variable {name : String} {log : List LogEntry} {T : String → Prop}

variable {e : AdminEvent}

theorem isLifecycle_unique {other : String} (h : isLifecycle name e = true)
    (hother : isLifecycle other e = true) : other = name := by
  cases e with
  | boundaryCreated d =>
    rw [isLifecycle_created, beq_iff_eq] at h hother
    exact hother.symm.trans h
  | boundaryActivated boundary =>
    rw [isLifecycle_activated, beq_iff_eq] at h hother
    exact hother.symm.trans h
  | boundaryProvisioningFailed boundary error =>
    rw [isLifecycle_failed, beq_iff_eq] at h hother
    exact hother.symm.trans h
  | undecodable => cases h
  | other => cases h

theorem lifecycle_select (log : List LogEntry) (name : String) :
    lifecycle (select (isLifecycle name) log) name = lifecycle log name := by
  rw [lifecycle, select_select fun _ h => h, lifecycle]

theorem Grammatical.select (h : Grammatical log) (name : String) :
    Grammatical (select (isLifecycle name) log) where
  lifecycles other := by
    by_cases hother : other = name
    · subst hother
      rw [lifecycle_select]
      exact h.lifecycles other
    · have hnil : OptimisticLog.select (isLifecycle other)
          (OptimisticLog.select (isLifecycle name) log) = [] := by
        refine List.filter_eq_nil_iff.2 fun e he hl => ?_
        exact hother (isLifecycle_unique (mem_select.1 he).2 hl)
      rw [lifecycle, hnil]
      exact .nothing
  written e he := h.written e (mem_select.1 he).1

theorem latest?_select {q : AdminEvent → Bool} (h : ∀ e, q e = true → isLifecycle name e = true)
    (log : List LogEntry) : latest? q (select (isLifecycle name) log) = latest? q log := by
  rw [latest?, select_select h, latest?]

theorem isLifecycle_of_isCreated (h : isCreated name e = true) :
    isLifecycle name e = true := by
  simp [isLifecycle, h]

theorem isLifecycle_of_isActivated (h : isActivated name e = true) :
    isLifecycle name e = true := by
  simp [isLifecycle, h]

theorem isLifecycle_of_isFailed (h : isFailed name e = true) :
    isLifecycle name e = true := by
  simp [isLifecycle, h]

theorem loadContext_select (log : List LogEntry) (name : String) :
    loadContext (select (isLifecycle name) log) name = loadContext log name := by
  have hposition : lifecyclePosition (select (isLifecycle name) log) name
      = lifecyclePosition log name := by
    rw [lifecyclePosition, standsAt, latest?_select (fun _ h => h), lifecyclePosition, standsAt]
  simp only [loadContext, contextEvents, hposition,
    latest?_select fun _ => isLifecycle_of_isCreated,
    latest?_select fun _ => isLifecycle_of_isActivated,
    latest?_select fun _ => isLifecycle_of_isFailed]

theorem contextEvents_eq {entries : List LogEntry} (hl : Lifecycle name (entries.map Entry.event))
    (hp : entries.Pairwise fun e f => e.position < f.position) {definition : LogEntry}
    (hd : latest? (isCreated name) entries = some definition) :
    contextEvents entries name definition = entries := by
  refine insertionSort_eq_of_perm ?_ hp
  generalize hevents : entries.map Entry.event = events at hl
  cases hl with
  | nothing =>
    rw [List.map_eq_nil_iff.1 hevents] at hd
    cases hd
  | created d hname =>
    obtain ⟨⟨p, _⟩, rfl, rfl⟩ := List.map_eq_singleton_iff.1 hevents
    simp [latest?, select, isCreated, isActivated, isFailed, hname] at hd ⊢
    exact hd.symm
  | failed d error hname =>
    obtain ⟨e, rest, rfl, he, hrest⟩ := List.map_eq_cons_iff.1 hevents
    obtain ⟨f, rfl, hf⟩ := List.map_eq_singleton_iff.1 hrest
    simp [latest?, select, isCreated, isActivated, isFailed, hname, he, hf] at hd hp ⊢
    subst hd
    simp [hp]
  | activated d hname =>
    obtain ⟨e, rest, rfl, he, hrest⟩ := List.map_eq_cons_iff.1 hevents
    obtain ⟨f, rfl, hf⟩ := List.map_eq_singleton_iff.1 hrest
    simp [latest?, select, isCreated, isActivated, isFailed, hname, he, hf] at hd hp ⊢
    subst hd
    simp [hp]
  | recovered d error hname =>
    obtain ⟨e, rest, rfl, he, hrest⟩ := List.map_eq_cons_iff.1 hevents
    obtain ⟨f, rest, rfl, hf, hrest⟩ := List.map_eq_cons_iff.1 hrest
    obtain ⟨g, rfl, hg⟩ := List.map_eq_singleton_iff.1 hrest
    simp [latest?, select, isCreated, isActivated, isFailed, hname, he, hf, hg] at hd hp ⊢
    subst hd
    simp [hp, List.Perm.swap]

theorem loadContext_spec (h : Grammatical log) (hlog : Increasing notExistsPosition log)
    {model : CommandContext} (hm : loadContext log name = .ok model) :
    model.position = lifecyclePosition log name ∧
      statusOf (lifecycle log name) = some model.boundary.status := by
  rw [← loadContext_select] at hm
  have hpairwise : (select (isLifecycle name) log).Pairwise fun e f => e.position < f.position :=
    hlog.pairwise.sublist List.filter_sublist
  have hposition : lifecyclePosition (select (isLifecycle name) log) name
      = lifecyclePosition log name := by
    rw [lifecyclePosition, standsAt, latest?_select (fun _ h => h), lifecyclePosition, standsAt]
  simp only [loadContext] at hm
  split at hm
  · cases hm
  · rename_i definition hd
    rw [contextEvents_eq (h.lifecycles name) hpairwise hd] at hm
    rcases Catalog.replay_of_grammatical (h.select name) with
      ⟨c, hc, hshows, -⟩ | ⟨⟨e, he⟩, -⟩
    · rw [hc] at hm
      have hstatus := hshows name
      rw [lifecycle_select] at hstatus
      rcases hb : c.get name with _ | b
      · simp [hb] at hm
      · simp only [hb, Except.ok.injEq] at hm
        subst hm
        rw [← hstatus, hb, hposition]
        exact ⟨rfl, rfl⟩
    · simp [he] at hm

/-- A handler has read the context from some log before, in which the lifecycle had room for the
conflicts that came after. -/
structure Read (log : List LogEntry) (name : String) (model : CommandContext) (conflicts : ℕ) :
    Prop where
  before : ∃ before, before <+: log ∧ loadContext before name = .ok model ∧
    conflicts < (lifecycle before name).length

/-- What a handler knows in a run whose provisioner fails with the texts `T`. -/
def Handler.Sound (T : String → Prop) (log : List LogEntry) : Handler → Prop
  | .defining definition => definition.Complete
  | .appendingDefinition definition position =>
    definition.Complete ∧ position = notExistsPosition
  | .loading _ => True
  | .provisioning definition model =>
    Read log definition.name model 0 ∧ model.boundary.status ≠ .active
  | .activating definition model attempts =>
    Read log definition.name model attempts ∧ model.boundary.status ≠ .active
  | .reloading definition attempts => attempts < (lifecycle log definition.name).length
  | .failing definition model error =>
    (Read log definition.name model 0 ∧ model.boundary.status = .provisioning) ∧ T error
  | .finished _ attempts => attempts ≤ 2

theorem Read.mono {model : CommandContext} {n : ℕ} (h : Read log name model n)
    (more : List LogEntry) : Read (log ++ more) name model n := by
  obtain ⟨before, hp, hrest⟩ := h.before
  exact ⟨before, hp.trans (List.prefix_append log more), hrest⟩

variable {h : Handler}

theorem Handler.Sound.mono (hs : h.Sound T log) (more : List LogEntry) :
    h.Sound T (log ++ more) := by
  cases h with
  | provisioning => exact ⟨hs.1.mono more, hs.2⟩
  | activating => exact ⟨hs.1.mono more, hs.2⟩
  | failing => exact ⟨⟨hs.1.1.mono more, hs.1.2⟩, hs.2⟩
  | reloading definition attempts =>
    have hlength : attempts < (lifecycle log definition.name).length := hs
    show attempts < (lifecycle (log ++ more) definition.name).length
    rw [lifecycle_append, List.length_append]
    omega
  | _ => exact hs

section Observation

variable {model : CommandContext} {n : ℕ} (hlog : Increasing notExistsPosition log)
  (hg : Grammatical log)

include hlog hg

theorem Read.lifecycle_of_stands (h : Read log name model n)
    (hstands : lifecyclePosition log name = model.position) :
    statusOf (lifecycle log name) = some model.boundary.status := by
  obtain ⟨before, hp, hm, -⟩ := h.before
  obtain ⟨hposition, hstatus⟩ := loadContext_spec (hg.of_isPrefix hp) (hlog.of_isPrefix hp) hm
  rw [lifecycle, hlog.select_of_standsAt hp (hstands.trans hposition)]
  exact hstatus

theorem Read.lt_of_conflict (h : Read log name model n)
    (hconflict : lifecyclePosition log name ≠ model.position) :
    n + 1 < (lifecycle log name).length := by
  obtain ⟨before, hp, hm, hn⟩ := h.before
  have hposition := (loadContext_spec (hg.of_isPrefix hp) (hlog.of_isPrefix hp) hm).1
  have hlt := length_select_lt hp fun heq => hconflict (heq.trans hposition.symm)
  simp only [lifecycle, List.length_map] at hn ⊢
  omega

theorem Read.conflicts_le (h : Read log name model n) (hactive : model.boundary.status ≠ .active) :
    n ≤ 1 := by
  obtain ⟨before, hp, hm, hn⟩ := h.before
  have hbefore := hg.of_isPrefix hp
  have hstatus := (loadContext_spec hbefore (hlog.of_isPrefix hp) hm).2
  have hlength := (hbefore.lifecycles name).length_le_of_not_active (by simpa [hstatus])
  omega

end Observation

theorem requireName_ok (h : requireName name = .ok ()) : name ≠ "" := by
  rintro rfl
  cases h

theorem requirePlacement_ok {p : Placement} (h : requirePlacement p = .ok ()) :
    p.backend ≠ "" ∧ p.namespace ≠ "" := by
  unfold requirePlacement at h
  split_ifs at h with hp
  simpa [not_or] using hp

theorem normalize_complete {command d : Definition} (h : normalize command = .ok d) :
    d.Complete := by
  obtain ⟨⟨⟩, hname, h⟩ := Attempt.bind_eq_ok.1 h
  obtain ⟨⟨⟩, hplacement, h⟩ := Attempt.bind_eq_ok.1 h
  cases h
  exact ⟨requireName_ok hname, (requirePlacement_ok hplacement).1,
    (requirePlacement_ok hplacement).2⟩

theorem Handler.createBoundary_sound (log : List LogEntry) (command : Definition) :
    (Handler.createBoundary command).Sound T log := by
  unfold Handler.createBoundary
  split
  · exact Nat.zero_le 2
  · exact normalize_complete ‹_›

theorem Handler.provisionBoundary_sound (log : List LogEntry) (definition : Definition) :
    (Handler.provisionBoundary definition).Sound T log := by
  unfold Handler.provisionBoundary
  split
  · exact Nat.zero_le 2
  · trivial

theorem Read.of_loadContext {model : CommandContext} {n : ℕ}
    (hm : loadContext log name = .ok model) (hn : n < (lifecycle log name).length) :
    Read log name model n :=
  ⟨log, List.prefix_refl log, hm, hn⟩

theorem lifecycle_pos_of_loadContext {model : CommandContext} (h : Grammatical log)
    (hlog : Increasing notExistsPosition log) (hm : loadContext log name = .ok model) :
    0 < (lifecycle log name).length := by
  have hstatus := (loadContext_spec h hlog hm).2
  refine List.length_pos_of_ne_nil fun hnil => ?_
  rw [hnil] at hstatus
  cases hstatus

theorem definitionPosition_of_loadDefinition {p : Position}
    (h : loadDefinition log name = .ok p) : p = notExistsPosition := by
  unfold loadDefinition at h
  split at h
  · cases h
  · rename_i hnone
    cases h
    exact standsAt_of_select_eq_nil (latest?_eq_none.1 hnone)

theorem Handler.Sound.attempts_le (hs : h.Sound T log) (hlog : Increasing notExistsPosition log)
    (hg : Grammatical log) : h.attempts ≤ 2 := by
  cases h with
  | activating => exact (hs.1.conflicts_le hlog hg hs.2).trans (by decide)
  | reloading definition attempts =>
    have hlt : attempts < (lifecycle log definition.name).length := hs
    have hle := (hg.lifecycles definition.name).length_le
    show attempts ≤ 2
    omega
  | finished => exact hs
  | _ => exact Nat.zero_le 2

theorem Handler.load_sound {h' : Handler} (hlog : Increasing notExistsPosition log)
    (hg : Grammatical log) (hs : h.Sound T log) (hl : h.load log = some h') : h'.Sound T log := by
  cases h with
  | defining definition =>
    cases hl
    split
    · exact Nat.zero_le 2
    · exact ⟨hs, definitionPosition_of_loadDefinition ‹_›⟩
  | loading definition =>
    cases hl
    split
    · exact Nat.zero_le 2
    · rename_i model hm
      split_ifs with hactive
      · exact Nat.zero_le 2
      · exact ⟨.of_loadContext hm (lifecycle_pos_of_loadContext hg hlog hm), hactive⟩
  | reloading definition attempts =>
    have hlt : attempts < (lifecycle log definition.name).length := hs
    have hattempts := hs.attempts_le hlog hg
    cases hl
    split
    · exact hattempts
    · rename_i model hm
      split_ifs with hactive
      · exact hattempts
      · exact ⟨.of_loadContext hm hlt, hactive⟩
  | _ => cases hl

theorem Handler.provisioned_sound {h' : Handler} {error : Option String} (hs : h.Sound T log)
    (ht : ∀ text, error = some text → T text) (hp : h.provisioned error = some h') :
    h'.Sound T log := by
  cases h with
  | provisioning definition model =>
    cases hp
    cases error with
    | none => exact hs
    | some error =>
      dsimp only
      split_ifs with hfailed
      · exact Nat.zero_le 2
      · refine ⟨⟨hs.1, ?_⟩, ht error rfl⟩
        have hactive := hs.2
        rcases hstatus : model.boundary.status with _ | _ | _
        · rfl
        · exact absurd hstatus hactive
        · exact absurd hstatus hfailed
  | _ => cases hp

variable {event : AdminEvent} {holds : Bool}

theorem Handler.appended_sound {result : Except CommandError Unit}
    (hlog : Increasing notExistsPosition log) (hg : Grammatical log) (hs : h.Sound T log)
    (hp : h.pending log = some (event, holds))
    (hresult : ∀ e, result = .error e → e.isAlreadyExists = true → holds = false)
    (more : List LogEntry) : (h.appended result).Sound T (log ++ more) := by
  cases h with
  | activating definition model attempts =>
    cases hp
    have hattempts : attempts + 1 ≤ 2 := Nat.succ_le_succ (hs.1.conflicts_le hlog hg hs.2)
    rcases result with e | ⟨⟩
    · show Handler.Sound _ _ (if _ then _ else _)
      split_ifs with he
      · have hconflict := hresult e rfl he
        refine Handler.Sound.mono ?_ more
        exact hs.1.lt_of_conflict hlog hg (by simpa using hconflict)
      · exact hattempts
    · exact hattempts
  | failing definition model error =>
    rcases result with e | ⟨⟩
    · show Handler.Sound _ _ (if _ then _ else _)
      split_ifs <;> exact Nat.zero_le 2
    · exact Nat.zero_le 2
  | _ => exact Nat.zero_le 2

theorem lifecycle_eq_nil (hlog : Increasing notExistsPosition log) (hg : Grammatical log)
    (hstands : definitionPosition log name = notExistsPosition) : lifecycle log name = [] := by
  by_contra hne
  obtain ⟨event, hmem, hcreated⟩ := (hg.lifecycles name).exists_created hne
  obtain ⟨e, he, rfl⟩ := List.mem_map.1 hmem
  have hselect := hlog.select_of_standsAt List.nil_prefix hstands
  have hin : e ∈ select (isCreated name) log := mem_select.2 ⟨(mem_select.1 he).1, hcreated⟩
  rw [hselect] at hin
  cases hin

theorem Handler.pending_continues (hlog : Increasing notExistsPosition log) (hg : Grammatical log)
    (hs : h.Sound T log) (hp : h.pending log = some (event, true)) :
    event.Written ∧ ∀ name, isLifecycle name event = true →
      Lifecycle name (lifecycle log name ++ [event]) := by
  cases h with
  | appendingDefinition definition position =>
    simp only [Handler.pending, Option.some.injEq, Prod.mk.injEq, beq_iff_eq] at hp
    obtain ⟨rfl, hstands⟩ := hp
    refine ⟨⟨fun d hd => ?_, by simp⟩, fun name hname => ?_⟩
    · cases hd
      exact hs.1
    · rw [isLifecycle_created, beq_iff_eq] at hname
      subst hname
      rw [lifecycle_eq_nil hlog hg (hstands.trans hs.2)]
      exact .created definition rfl
  | activating definition model attempts =>
    simp only [Handler.pending, Option.some.injEq, Prod.mk.injEq, beq_iff_eq] at hp
    obtain ⟨rfl, hstands⟩ := hp
    refine ⟨⟨by simp, by simp⟩, fun name hname => ?_⟩
    rw [isLifecycle_activated, beq_iff_eq] at hname
    subst hname
    exact (hg.lifecycles _).concat_activated (hs.1.lifecycle_of_stands hlog hg hstands) hs.2
  | failing definition model error =>
    simp only [Handler.pending, Option.some.injEq, Prod.mk.injEq, beq_iff_eq] at hp
    obtain ⟨rfl, hstands⟩ := hp
    refine ⟨⟨by simp, by simp⟩, fun name hname => ?_⟩
    rw [isLifecycle_failed, beq_iff_eq] at hname
    subst hname
    have hstatus := hs.1.1.lifecycle_of_stands hlog hg hstands
    rw [hs.1.2] at hstatus
    exact (hg.lifecycles _).concat_failed hstatus error
  | _ => cases hp

theorem appendEvent_cases {position : Position} {fault : Fault} {log' : List LogEntry}
    {result : Except CommandError Unit}
    (h : appendEvent log event holds position fault = (log', result)) :
    (log' = log ∨ holds = true ∧ log' = log ++ [⟨position, event⟩]) ∧
      ∀ e, result = .error e → e.isAlreadyExists = true → holds = false := by
  cases fault <;> cases holds <;> cases h <;> simp [CommandError.isAlreadyExists]

theorem Handler.pending_text {boundary error : String} (hs : h.Sound T log)
    (hp : h.pending log = some (.boundaryProvisioningFailed boundary error, holds)) : T error := by
  cases h with
  | failing =>
    simp only [Handler.pending, Option.some.injEq, Prod.mk.injEq,
      AdminEvent.boundaryProvisioningFailed.injEq] at hp
    exact hp.1.2 ▸ hs.2
  | _ => cases hp

def Action.Fails (T : String → Prop) : Action → Prop
  | .provision _ error => ∀ text, error = some text → T text
  | _ => True

structure World.Inv (T : String → Prop) (w : World) : Prop where
  increasing : Increasing notExistsPosition w.log
  grammatical : Grammatical w.log
  texts : ∀ e ∈ w.log, ∀ boundary error, e.event = .boundaryProvisioningFailed boundary error →
    T error
  handlers : ∀ h ∈ w.handlers, h.Sound T w.log

theorem World.inv_initial (T : String → Prop) : World.initial.Inv T where
  increasing := increasing_nil
  grammatical := ⟨fun _ => .nothing, by simp [initial]⟩
  texts := by simp [initial]
  handlers := by simp [initial]

variable {w : World}

theorem World.Inv.setHandler (hw : w.Inv T) (hs : h.Sound T w.log) (i : ℕ) :
    (w.setHandler i h).Inv T where
  increasing := hw.increasing
  grammatical := hw.grammatical
  texts := hw.texts
  handlers k hk := by
    rcases List.mem_or_eq_of_mem_set hk with hk | rfl
    · exact hw.handlers k hk
    · exact hs

theorem World.Inv.addHandler (hw : w.Inv T) (hs : h.Sound T w.log) :
    World.Inv T { w with handlers := w.handlers ++ [h] } where
  increasing := hw.increasing
  grammatical := hw.grammatical
  texts := hw.texts
  handlers k hk := by
    rcases List.mem_append.1 hk with hk | hk
    · exact hw.handlers k hk
    · rw [List.mem_singleton.1 hk]
      exact hs

theorem World.Inv.concat (hw : w.Inv T) {position : Position} (hfresh : fresh w.log position = true)
    (he : event.Written) (hl : ∀ name, isLifecycle name event = true →
      Lifecycle name (lifecycle w.log name ++ [event]))
    (ht : ∀ boundary error, event = .boundaryProvisioningFailed boundary error → T error) :
    World.Inv T { w with log := w.log ++ [⟨position, event⟩] } where
  increasing := by
    simp only [fresh, Bool.and_eq_true, decide_eq_true_eq, List.all_eq_true] at hfresh
    exact hw.increasing.append_singleton hfresh.1 hfresh.2
  grammatical := hw.grammatical.concat he hl
  texts e hmem := by
    rcases List.mem_append.1 hmem with hmem | hmem
    · exact hw.texts e hmem
    · rw [List.mem_singleton.1 hmem]
      exact ht
  handlers h hh := (hw.handlers h hh).mono _

theorem World.inv_step {w' : World} {a : Action} (hw : w.Inv T) (ha : a.Fails T)
    (h : w.step a = some w') : w'.Inv T := by
  cases a with
  | createBoundary command =>
    cases h
    exact hw.addHandler (Handler.createBoundary_sound _ command)
  | provisionBoundary definition =>
    cases h
    exact hw.addHandler (Handler.provisionBoundary_sound _ definition)
  | load i =>
    obtain ⟨k, hk, h⟩ := Option.bind_eq_some_iff.1 h
    obtain ⟨k', hk', h⟩ := Option.bind_eq_some_iff.1 h
    cases h
    have hs := hw.handlers k (List.mem_of_getElem? hk)
    exact hw.setHandler (Handler.load_sound hw.increasing hw.grammatical hs hk') i
  | provision i error =>
    obtain ⟨k, hk, h⟩ := Option.bind_eq_some_iff.1 h
    obtain ⟨k', hk', h⟩ := Option.bind_eq_some_iff.1 h
    cases h
    have hs := hw.handlers k (List.mem_of_getElem? hk)
    exact hw.setHandler (Handler.provisioned_sound hs ha hk') i
  | append i position fault =>
    obtain ⟨k, hk, h⟩ := Option.bind_eq_some_iff.1 h
    obtain ⟨⟨event, holds⟩, hp, h⟩ := Option.bind_eq_some_iff.1 h
    have hs := hw.handlers k (List.mem_of_getElem? hk)
    dsimp only at h
    split_ifs at h with hfresh
    rcases happend : appendEvent w.log event holds position fault with ⟨log', result⟩
    rw [happend] at h
    cases h
    obtain ⟨hlog', hresult⟩ := appendEvent_cases happend
    have hsound := Handler.appended_sound hw.increasing hw.grammatical hs hp hresult
    rcases hlog' with rfl | ⟨rfl, rfl⟩
    · have hsame := hsound []
      rw [List.append_nil] at hsame
      exact hw.setHandler hsame i
    · obtain ⟨he, hl⟩ := Handler.pending_continues hw.increasing hw.grammatical hs hp
      have ht : ∀ boundary error, event = .boundaryProvisioningFailed boundary error → T error := by
        rintro boundary error rfl
        exact Handler.pending_text hs hp
      exact (hw.concat hfresh he hl ht).setHandler (hsound _) i
  | crash i =>
    obtain ⟨k, hk, h⟩ := Option.bind_eq_some_iff.1 h
    cases h
    have hs := hw.handlers k (List.mem_of_getElem? hk)
    have hfinished : (Handler.finished (.error .appendFailed) k.attempts).Sound T w.log :=
      hs.attempts_le hw.increasing hw.grammatical
    exact hw.setHandler hfinished i
  | other position eventType =>
    simp only [World.step] at h
    split_ifs at h with hfresh
    cases h
    exact hw.concat hfresh ⟨by simp, by simp⟩ (fun name hname => by cases hname) (by simp)

theorem World.inv_run {as : List Action} (ha : ∀ a ∈ as, a.Fails T)
    (h : Transition.run World.step World.initial as = some w) : w.Inv T :=
  Transition.run_invariant_along (fun _ _ _ => World.inv_step) (World.inv_initial T)
    (Transition.along_of_mem _ fun a hmem _ => ha a hmem) h

theorem World.Inv.not_lacksText (h : w.Inv (· ≠ "")) : ¬ LacksText w.log := by
  rintro ⟨e, he, boundary, hb⟩
  exact h.texts e he boundary "" hb rfl

/-- In every run the lifecycles follow the grammar, an activation is attempted twice at most and no
boundary leaves the active status; the log is replayed unless a failure in it is without a text,
and none is where the provisioner fails with texts. -/
theorem lifecycles_of_run {as : List Action} {w : World}
    (h : Transition.run World.step World.initial as = some w) :
    (∀ name, Lifecycle name (lifecycle w.log name)) ∧
      (∀ k ∈ w.handlers, k.attempts ≤ 2) ∧
      (∀ before c c' name, before <+: w.log → Catalog.replay before = .ok c →
        Catalog.replay w.log = .ok c' → c.IsActive name → c'.IsActive name) ∧
      ((∃ c, Catalog.replay w.log = .ok c) ↔ ¬ LacksText w.log) ∧
      ((∀ a ∈ as, a.Fails (· ≠ "")) → ∃ c, Catalog.replay w.log = .ok c) := by
  have hw : w.Inv fun _ => True := World.inv_run (fun a _ => by cases a <;> simp [Action.Fails]) h
  have hreplay := Catalog.exists_replay_iff hw.grammatical
  refine ⟨hw.grammatical.lifecycles, fun k hk => ?_, ?_, hreplay, fun ha => ?_⟩
  · exact (hw.handlers k hk).attempts_le hw.increasing hw.grammatical
  · rintro before c c' name ⟨more, hmore⟩ hc hc' hactive
    rw [← hmore] at hc'
    exact hactive.replay hc hc'
  · exact hreplay.2 (World.inv_run ha h).not_lacksText

/-- A boundary is defined and provisioned by two handlers at once: one records a failure, and the
activation of the other is tried again. -/
def recoveredRun : List Action :=
  [.createBoundary ⟨"orders", "", ⟨"postgres", "orders"⟩⟩, .load 0, .append 0 ⟨1, 1⟩ .none,
    .provisionBoundary ⟨"orders", "", ⟨"postgres", "orders"⟩⟩,
    .provisionBoundary ⟨"orders", "", ⟨"postgres", "orders"⟩⟩,
    .load 1, .load 2, .provision 1 (some "timeout"), .provision 2 none, .append 1 ⟨2, 2⟩ .none,
    .append 2 ⟨3, 3⟩ .none, .load 2, .append 2 ⟨4, 4⟩ .none]

theorem recoveredRun_lifecycles : ∃ w,
    Transition.run World.step World.initial recoveredRun = some w ∧
      (∀ name, Lifecycle name (lifecycle w.log name)) ∧
      (∀ k ∈ w.handlers, k.attempts ≤ 2) ∧ ∃ c, Catalog.replay w.log = .ok c := by
  have hsome : (Transition.run World.step World.initial recoveredRun).isSome = true := by
    decide +kernel
  obtain ⟨w, hw⟩ := Option.isSome_iff_exists.1 hsome
  obtain ⟨hl, hk, -, -, hreplay⟩ := lifecycles_of_run hw
  refine ⟨w, hw, hl, hk, hreplay fun a ha => ?_⟩
  simp only [recoveredRun, List.mem_cons, List.not_mem_nil, or_false] at ha
  rcases ha with rfl | rfl | rfl | rfl | rfl | rfl | rfl | rfl | rfl | rfl | rfl | rfl | rfl <;>
    simp [Action.Fails]

/-- The provisioner fails with an empty text, and the log that records it is not replayed. -/
theorem emptyText_not_replayed :
    (Transition.run World.step World.initial
      [.createBoundary ⟨"orders", "", ⟨"postgres", "orders"⟩⟩, .load 0, .append 0 ⟨1, 1⟩ .none,
        .provisionBoundary ⟨"orders", "", ⟨"postgres", "orders"⟩⟩, .load 1, .provision 1 (some ""),
        .append 1 ⟨2, 2⟩ .none]).map (fun w => Catalog.replay w.log)
      = some (.error (.emptyError "$BoundaryProvisioningFailed")) := by
  rfl

end Orisun.Admin
