import Orisun.Admin.BoundaryLifecycle
import Orisun.Lib.Attempt

/-!
# Replaying a lifecycle

Where the events of every boundary follow the grammar, the catalog holds for each boundary the
status its last event gives it, and no event is refused but a failure without a text.
-/

namespace Orisun.Admin

open OptimisticLog

theorem lifecycle_append (log more : List LogEntry) (name : String) :
    lifecycle (log ++ more) name = lifecycle log name ++ lifecycle more name := by
  simp [lifecycle, select_append]

theorem lifecycle_singleton (e : LogEntry) (name : String) :
    lifecycle [e] name = if isLifecycle name e.event then [e.event] else [] := by
  rw [lifecycle, select_singleton]
  split_ifs <;> rfl

theorem isLifecycle_created (d : Definition) (name : String) :
    isLifecycle name (.boundaryCreated d) = (d.name == name) := by
  simp [isLifecycle, isCreated, isActivated, isFailed]

theorem isLifecycle_activated (boundary name : String) :
    isLifecycle name (.boundaryActivated boundary) = (boundary == name) := by
  simp [isLifecycle, isCreated, isActivated, isFailed]

theorem isLifecycle_failed (boundary error name : String) :
    isLifecycle name (.boundaryProvisioningFailed boundary error) = (boundary == name) := by
  simp [isLifecycle, isCreated, isActivated, isFailed]

def eventStatus : AdminEvent → Option Status
  | .boundaryCreated _ => some .provisioning
  | .boundaryActivated _ => some .active
  | .boundaryProvisioningFailed _ _ => some .failed
  | _ => none

def statusOf (events : List AdminEvent) : Option Status := events.getLast?.bind eventStatus

theorem statusOf_concat (events : List AdminEvent) (e : AdminEvent) :
    statusOf (events ++ [e]) = eventStatus e := by
  simp [statusOf]

variable {name : String} {events : List AdminEvent}

theorem Lifecycle.concat_cases {e : AdminEvent} (h : Lifecycle name (events ++ [e])) :
    (events = [] ∧ ∃ d, d.name = name ∧ e = .boundaryCreated d) ∨
    (∃ d, d.name = name ∧ events = [.boundaryCreated d] ∧
      ((∃ error, e = .boundaryProvisioningFailed name error) ∨ e = .boundaryActivated name)) ∨
    (∃ d error, d.name = name ∧
      events = [.boundaryCreated d, .boundaryProvisioningFailed name error] ∧
      e = .boundaryActivated name) := by
  generalize hl : events ++ [e] = l at h
  have hsplit : ∀ (init : List AdminEvent) (last : AdminEvent), events ++ [e] = init ++ [last] →
      events = init ∧ e = last := fun init last hl => by
    obtain ⟨h1, h2⟩ := List.append_inj' hl rfl
    exact ⟨h1, List.singleton_inj.1 h2⟩
  cases h with
  | nothing => simp at hl
  | created d hd =>
    obtain ⟨rfl, rfl⟩ := hsplit [] _ hl
    exact .inl ⟨rfl, d, hd, rfl⟩
  | failed d error hd =>
    obtain ⟨rfl, rfl⟩ := hsplit [_] _ hl
    exact .inr (.inl ⟨d, hd, rfl, .inl ⟨error, rfl⟩⟩)
  | activated d hd =>
    obtain ⟨rfl, rfl⟩ := hsplit [_] _ hl
    exact .inr (.inl ⟨d, hd, rfl, .inr rfl⟩)
  | recovered d error hd =>
    obtain ⟨rfl, rfl⟩ := hsplit [_, _] _ hl
    exact .inr (.inr ⟨d, error, hd, rfl, rfl⟩)

theorem Lifecycle.of_concat {e : AdminEvent} (h : Lifecycle name (events ++ [e])) :
    Lifecycle name events := by
  rcases h.concat_cases with ⟨rfl, -⟩ | ⟨d, hd, rfl, -⟩ | ⟨d, error, hd, rfl, -⟩
  · exact .nothing
  · exact .created d hd
  · exact .failed d error hd

theorem Lifecycle.length_le (h : Lifecycle name events) : events.length ≤ 3 := by
  cases h <;> simp

theorem Lifecycle.length_le_of_not_active (h : Lifecycle name events)
    (hs : statusOf events ≠ some .active) : events.length ≤ 2 := by
  cases h with
  | recovered => exact absurd rfl hs
  | _ => simp

theorem Lifecycle.concat_activated (h : Lifecycle name events) {s : Status}
    (hs : statusOf events = some s) (hactive : s ≠ .active) :
    Lifecycle name (events ++ [.boundaryActivated name]) := by
  cases h with
  | nothing => cases hs
  | created d hd => exact .activated d hd
  | failed d error hd => exact .recovered d error hd
  | activated => exact absurd (Option.some.inj hs).symm hactive
  | recovered => exact absurd (Option.some.inj hs).symm hactive

theorem Lifecycle.concat_failed (h : Lifecycle name events)
    (hs : statusOf events = some .provisioning) (error : String) :
    Lifecycle name (events ++ [.boundaryProvisioningFailed name error]) := by
  cases h with
  | created d hd => exact .failed d error hd
  | _ => cases hs

theorem Lifecycle.exists_created (h : Lifecycle name events) (hne : events ≠ []) :
    ∃ e ∈ events, isCreated name e = true := by
  cases h with
  | nothing => exact absurd rfl hne
  | _ d => exact ⟨.boundaryCreated d, by simp, by simpa [isCreated]⟩

namespace Catalog

theorem replay_concat (log : List LogEntry) (e : LogEntry) :
    replay (log ++ [e]) = replay log >>= fun c => (c.apply e).map Prod.fst := by
  simp [replay, List.foldlM_append]

def Shows (c : Catalog) (log : List LogEntry) : Prop :=
  ∀ name, (c.get name).map Boundary.status = statusOf (lifecycle log name)

theorem get_insert_self (c : Catalog) (b : Boundary) (name : String) :
    Catalog.get (Fields.insert name b c) name = some b :=
  Fields.lookup_insert_self name b c

theorem get_insert_of_ne (c : Catalog) (b : Boundary) {other : String} (h : other ≠ name) :
    Catalog.get (Fields.insert name b c) other = c.get other :=
  Fields.lookup_insert_of_ne b h c

theorem Shows.insert {c : Catalog} {log : List LogEntry} (h : c.Shows log) {e : LogEntry}
    {b : Boundary} (hself : isLifecycle name e.event = true)
    (hother : ∀ other, other ≠ name → isLifecycle other e.event = false)
    (hstatus : eventStatus e.event = some b.status) :
    Shows (Fields.insert name b c) (log ++ [e]) := by
  intro other
  rw [lifecycle_append, lifecycle_singleton]
  by_cases hne : other = name
  · subst hne
    rw [get_insert_self, if_pos hself, statusOf_concat, hstatus]
    rfl
  · rw [get_insert_of_ne c b hne, hother other hne, if_neg (by simp), List.append_nil, h other]

theorem Shows.of_ignored {c : Catalog} {log : List LogEntry} (h : c.Shows log) {e : LogEntry}
    (hignored : ∀ name, isLifecycle name e.event = false) : c.Shows (log ++ [e]) := by
  intro name
  rw [lifecycle_append, lifecycle_singleton, hignored, if_neg (by simp), List.append_nil, h name]

end Catalog

/-- A definition that can be cataloged. -/
structure Definition.Complete (d : Definition) : Prop where
  name : d.name ≠ ""
  backend : d.placement.backend ≠ ""
  «namespace» : d.placement.namespace ≠ ""

/-- An event the handlers write. -/
structure AdminEvent.Written (e : AdminEvent) : Prop where
  complete : ∀ d, e = .boundaryCreated d → d.Complete
  decodes : ∀ eventType, e ≠ .undecodable eventType

/-- The log follows the grammar. -/
structure Grammatical (log : List LogEntry) : Prop where
  lifecycles : ∀ name, Lifecycle name (lifecycle log name)
  written : ∀ e ∈ log, e.event.Written

variable {e : LogEntry} {log : List LogEntry}

theorem Grammatical.of_concat (h : Grammatical (log ++ [e])) :
    Grammatical log where
  lifecycles name := by
    have hname := h.lifecycles name
    rw [lifecycle_append, lifecycle_singleton] at hname
    split_ifs at hname with hl
    · exact hname.of_concat
    · rwa [List.append_nil] at hname
  written f hf := h.written f (List.mem_append_left _ hf)

theorem Grammatical.of_isPrefix {before : List LogEntry} (h : Grammatical log) (hp : before <+: log) :
    Grammatical before := by
  obtain ⟨more, rfl⟩ := hp
  induction more using List.reverseRecOn with
  | nil => rwa [List.append_nil] at h
  | append_singleton more e ih =>
    rw [← List.append_assoc] at h
    exact ih h.of_concat

theorem Grammatical.concat (h : Grammatical log) (he : e.event.Written)
    (hl : ∀ name, isLifecycle name e.event = true →
      Lifecycle name (lifecycle log name ++ [e.event])) : Grammatical (log ++ [e]) where
  lifecycles name := by
    rw [lifecycle_append, lifecycle_singleton]
    split_ifs with hlife
    · exact hl name hlife
    · rw [List.append_nil]
      exact h.lifecycles name
  written f hf := by
    rcases List.mem_append.1 hf with hf | hf
    · exact h.written f hf
    · rw [List.mem_singleton.1 hf]
      exact he

theorem Grammatical.lifecycle_concat (h : Grammatical (log ++ [e]))
    (he : isLifecycle name e.event = true) :
    Lifecycle name (lifecycle log name ++ [e.event]) := by
  have hname := h.lifecycles name
  rwa [lifecycle_append, lifecycle_singleton, if_pos he] at hname

theorem Grammatical.name_ne (h : Grammatical log) {d : Definition} (hd : d.name = name)
    (hmem : AdminEvent.boundaryCreated d ∈ lifecycle log name) :
    name ≠ "" := by
  obtain ⟨e, he, hevent⟩ := List.mem_map.1 hmem
  exact hd ▸ ((h.written e (mem_select.1 he).1).complete d hevent).name

namespace Catalog

section Apply

variable {c : Catalog} {position : Position} {b : Boundary}

theorem apply_created {d : Definition} (hd : d.Complete) (hnone : c.get d.name = none) :
    c.apply ⟨position, .boundaryCreated d⟩
      = .ok (Fields.insert d.name (d.boundary position) c, true) := by
  have hlookup : c.lookup d.name = none := hnone
  simp only [apply, define, hd.name, hd.backend, hd.namespace, hlookup, if_false,
    Option.isSome_none, Bool.false_eq_true]
  rfl

theorem apply_activated (hname : name ≠ "") (hget : c.get name = some b) :
    c.apply ⟨position, .boundaryActivated name⟩ = .ok (Fields.insert name
      { b with status := .active, lastError := "", statusPosition := position } c, true) := by
  have hlookup : c.lookup name = some b := hget
  simp only [apply, hname, hlookup, if_false]

theorem apply_failed {error : String} (hname : name ≠ "") (hget : c.get name = some b)
    (herror : error ≠ "") (hactive : b.status ≠ .active) :
    c.apply ⟨position, .boundaryProvisioningFailed name error⟩ = .ok (Fields.insert name
      { b with status := .failed, lastError := error, statusPosition := position } c, true) := by
  have hlookup : c.lookup name = some b := hget
  simp only [apply, hname, hlookup, herror, hactive, if_false]

theorem apply_failed_empty (hname : name ≠ "") (hget : c.get name = some b) :
    c.apply ⟨position, .boundaryProvisioningFailed name ""⟩
      = .error (.emptyError "$BoundaryProvisioningFailed") := by
  have hlookup : c.lookup name = some b := hget
  simp only [apply, hname, hlookup, if_false, if_true]

end Apply

variable {c : Catalog} {log : List LogEntry}

theorem Shows.exists_get (hc : c.Shows log) {s : Status}
    (hs : statusOf (lifecycle log name) = some s) : ∃ b, c.get name = some b ∧ b.status = s :=
  Option.map_eq_some_iff.1 ((hc name).trans hs)

theorem apply_of_grammatical {e : LogEntry} (h : Grammatical (log ++ [e])) (hc : c.Shows log) :
    (∃ boundary, e.event = .boundaryProvisioningFailed boundary "" ∧
      c.apply e = .error (.emptyError "$BoundaryProvisioningFailed")) ∨
    (∀ boundary, e.event ≠ .boundaryProvisioningFailed boundary "") ∧
      ∃ c' applied, c.apply e = .ok (c', applied) ∧ c'.Shows (log ++ [e]) := by
  have hlog := h.of_concat
  have hwritten := h.written e (List.mem_append_right _ (List.mem_singleton_self e))
  obtain ⟨position, event⟩ := e
  cases event with
  | boundaryCreated d =>
    have hself : isLifecycle d.name (.boundaryCreated d) = true := by simp [isLifecycle_created]
    have hnone : c.get d.name = none := by
      rcases (h.lifecycle_concat hself).concat_cases with
        ⟨hnil, -⟩ | ⟨d', -, -, ⟨e, he⟩ | he⟩ | ⟨d', e, -, -, he⟩
      · have hstatus := hc d.name
        rw [hnil] at hstatus
        exact Option.map_eq_none_iff.1 hstatus
      all_goals cases he
    have hother : ∀ other, other ≠ d.name → isLifecycle other (.boundaryCreated d) = false :=
      fun other hne => by simp [isLifecycle_created, hne.symm]
    exact .inr ⟨by simp, _, _, apply_created (hwritten.complete d rfl) hnone,
      hc.insert hself hother rfl⟩
  | boundaryActivated boundary =>
    have hself : isLifecycle boundary (.boundaryActivated boundary) = true := by
      simp [isLifecycle_activated]
    have hother : ∀ other, other ≠ boundary →
        isLifecycle other (.boundaryActivated boundary) = false :=
      fun other hne => by simp [isLifecycle_activated, hne.symm]
    have hdefined : ∃ d s, d.name = boundary ∧
        AdminEvent.boundaryCreated d ∈ lifecycle log boundary ∧
        statusOf (lifecycle log boundary) = some s := by
      rcases (h.lifecycle_concat hself).concat_cases with
        ⟨-, d, -, he⟩ | ⟨d, hd, hl, -⟩ | ⟨d, error, hd, hl, -⟩
      · cases he
      · exact ⟨d, .provisioning, hd, by simp [hl], by rw [hl]; rfl⟩
      · exact ⟨d, .failed, hd, by simp [hl], by rw [hl]; rfl⟩
    obtain ⟨d, s, hd, hmem, hs⟩ := hdefined
    obtain ⟨b, hb, -⟩ := hc.exists_get hs
    exact .inr ⟨by simp, _, _, apply_activated (hlog.name_ne hd hmem) hb, hc.insert hself hother rfl⟩
  | boundaryProvisioningFailed boundary error =>
    have hself : isLifecycle boundary (.boundaryProvisioningFailed boundary error) = true := by
      simp [isLifecycle_failed]
    have hother : ∀ other, other ≠ boundary →
        isLifecycle other (.boundaryProvisioningFailed boundary error) = false :=
      fun other hne => by simp [isLifecycle_failed, hne.symm]
    obtain ⟨d, hd, hl⟩ : ∃ d, d.name = boundary ∧ lifecycle log boundary = [.boundaryCreated d] := by
      rcases (h.lifecycle_concat hself).concat_cases with
        ⟨-, d, -, he⟩ | ⟨d, hd, hl, -⟩ | ⟨d, error, hd, hl, he⟩
      · cases he
      · exact ⟨d, hd, hl⟩
      · cases he
    obtain ⟨b, hb, hstatus⟩ := hc.exists_get (s := .provisioning) (by rw [hl]; rfl)
    have hname := hlog.name_ne hd (by simp [hl])
    by_cases herror : error = ""
    · subst herror
      exact .inl ⟨boundary, rfl, apply_failed_empty hname hb⟩
    · exact .inr ⟨by simp [herror], _, _, apply_failed hname hb herror (by simp [hstatus]),
        hc.insert hself hother rfl⟩
  | undecodable eventType => exact absurd rfl (hwritten.decodes eventType)
  | other eventType =>
    exact .inr ⟨by simp, c, false, rfl, hc.of_ignored fun name => rfl⟩

theorem replay_of_grammatical (h : Grammatical log) :
    (∃ c, replay log = .ok c ∧ c.Shows log ∧ ¬ LacksText log) ∨
      (∃ e, replay log = .error e) ∧ LacksText log := by
  induction log using List.reverseRecOn with
  | nil => exact .inl ⟨[], rfl, fun _ => rfl, fun ⟨e, he, _⟩ => by cases he⟩
  | append_singleton log e ih =>
    have hlast : e ∈ log ++ [e] := List.mem_append_right _ (List.mem_singleton_self e)
    rw [replay_concat]
    rcases ih h.of_concat with ⟨c, hc, hshows, hlacks⟩ | ⟨⟨error, herror⟩, f, hf, boundary, hb⟩
    · rw [hc]
      rcases apply_of_grammatical h hshows with ⟨boundary, hb, herror⟩ | ⟨hb, c', _, hc', hshows'⟩
      · exact .inr ⟨⟨_, congrArg (Except.map Prod.fst) herror⟩, e, hlast, boundary, hb⟩
      · refine .inl ⟨c', congrArg (Except.map Prod.fst) hc', hshows', ?_⟩
        rintro ⟨f, hf, boundary, hboundary⟩
        rcases List.mem_append.1 hf with hf | hf
        · exact hlacks ⟨f, hf, boundary, hboundary⟩
        · rw [List.mem_singleton.1 hf] at hboundary
          exact hb boundary hboundary
    · rw [herror]
      exact .inr ⟨⟨error, rfl⟩, f, List.mem_append_left _ hf, boundary, hb⟩

theorem exists_replay_iff (h : Grammatical log) :
    (∃ c, replay log = .ok c) ↔ ¬ LacksText log := by
  rcases replay_of_grammatical h with ⟨c, hc, -, hlacks⟩ | ⟨⟨e, he⟩, hlacks⟩
  · exact ⟨fun _ => hlacks, fun _ => ⟨c, hc⟩⟩
  · constructor
    · rintro ⟨c, hc⟩
      rw [he] at hc
      cases hc
    · exact fun hnot => absurd hlacks hnot

def IsActive (c : Catalog) (name : String) : Prop :=
  ∃ b, c.get name = some b ∧ b.status = .active

theorem IsActive.insert (h : c.IsActive name) {other : String} {b : Boundary}
    (hb : other = name → b.status = .active) : IsActive (Fields.insert other b c) name := by
  by_cases hne : name = other
  · subst hne
    exact ⟨b, get_insert_self c b name, hb rfl⟩
  · obtain ⟨b', hb', hactive⟩ := h
    exact ⟨b', (get_insert_of_ne c b hne).trans hb', hactive⟩

theorem IsActive.apply {c' : Catalog} {e : LogEntry} {applied : Bool} (h : c.IsActive name)
    (he : c.apply e = .ok (c', applied)) : c'.IsActive name := by
  have hactive := h
  obtain ⟨b, hb, hstatus⟩ := hactive
  obtain ⟨position, event⟩ := e
  cases event with
  | boundaryCreated d =>
    obtain ⟨defined, hdefine, hc⟩ := Attempt.map_eq_ok.1 he
    cases hc
    unfold define at hdefine
    split_ifs at hdefine with _ _ _ hdefined
    cases hdefine
    refine h.insert fun hname => ?_
    -- a second definition of an active boundary is refused
    subst hname
    exact absurd (Option.isSome_of_eq_some hb) hdefined
  | boundaryActivated boundary =>
    simp only [Catalog.apply] at he
    split_ifs at he
    split at he <;> cases he
    · exact h
    · exact h.insert fun _ => rfl
  | boundaryProvisioningFailed boundary error =>
    simp only [Catalog.apply] at he
    split at he
    · cases he
    split at he
    · cases he
      exact h
    · rename_i b' hb'
      split_ifs at he with _ hnot <;> cases he
      · exact h
      · refine h.insert fun hname => ?_
        subst hname
        exact absurd (Option.some.inj (hb'.symm.trans hb) ▸ hstatus) hnot
  | undecodable => cases he
  | other =>
    cases he
    exact h

theorem IsActive.replay {before more : List LogEntry} {c' : Catalog} (h : c.IsActive name)
    (hc : replay before = .ok c) (hc' : replay (before ++ more) = .ok c') : c'.IsActive name := by
  induction more using List.reverseRecOn generalizing c' with
  | nil =>
    rw [List.append_nil, hc] at hc'
    cases hc'
    exact h
  | append_singleton more e ih =>
    rw [← List.append_assoc, replay_concat] at hc'
    obtain ⟨middle, hmiddle, happly⟩ := Attempt.bind_eq_ok.1 hc'
    obtain ⟨⟨last, applied⟩, hlast, heq⟩ := Attempt.map_eq_ok.1 happly
    subst heq
    exact (ih hmiddle).apply hlast

end Catalog

end Orisun.Admin
