import Orisun.Admin.BoundaryRuntime
import Orisun.Proofs.Admin.BoundaryCatalog
import Orisun.Proofs.Admin.BoundarySubscriber

/-!
# A boundary is exposed after it is installed

Each entry of a catalog that is being rebuilt stands for a definition in the log, and an active one
for an activation after it.
-/

namespace Orisun.Admin

open GrowingLog

variable {decode : Event → AdminEvent} {log : List Event} {cursor : Position}

/-- What the log has for an entry of the catalog. -/
structure Backed (decode : Event → AdminEvent) (log : List Event) (cursor : Position)
    (name : String) (b : Boundary) : Prop where
  named : b.name = name
  created : ∃ created ∈ log, decode created = .boundaryCreated ⟨b.name, b.description, b.placement⟩ ∧
    created.position = b.definitionPosition
  before : b.definitionPosition ≤ cursor
  activated : b.status = .active → ∃ activated ∈ log, decode activated = .boundaryActivated name ∧
    b.definitionPosition < activated.position

def Catalog.Backed (decode : Event → AdminEvent) (log : List Event) (cursor : Position)
    (c : Catalog) : Prop :=
  ∀ name b, c.get name = some b → Admin.Backed decode log cursor name b

variable {name : String}

theorem Backed.mono {b : Boundary} (h : Backed decode log cursor name b) {cursor' : Position}
    (hc : cursor ≤ cursor') (more : List Event) :
    Backed decode (log ++ more) cursor' name b where
  named := h.named
  created := by
    obtain ⟨e, he, hd, hp⟩ := h.created
    exact ⟨e, List.mem_append_left more he, hd, hp⟩
  before := h.before.trans hc
  activated ha := by
    obtain ⟨e, he, hd, hp⟩ := h.activated ha
    exact ⟨e, List.mem_append_left more he, hd, hp⟩

namespace Catalog

variable {c : Catalog}

theorem Backed.mono (h : c.Backed decode log cursor) {cursor' : Position} (hc : cursor ≤ cursor')
    (more : List Event) : c.Backed decode (log ++ more) cursor' :=
  fun name b hb => (h name b hb).mono hc more

theorem Backed.insert (h : c.Backed decode log cursor) {name : String} {b : Boundary}
    (hb : Admin.Backed decode log cursor name b) :
    Backed decode log cursor (Fields.insert name b c) := by
  intro other b' hget
  by_cases hne : other = name
  · subst hne
    rw [get_insert_self] at hget
    exact Option.some.inj hget ▸ hb
  · rw [get_insert_of_ne c b hne] at hget
    exact h other b' hget

theorem Backed.apply {c' : Catalog} {applied : Bool} (h : c.Backed decode log cursor) {e : Event}
    (he : e ∈ log) (hlt : cursor < e.position)
    (hc : c.apply (logEntry decode e) = .ok (c', applied)) : c'.Backed decode log e.position := by
  have hmono : c.Backed decode log e.position := by
    have := h.mono hlt.le []
    rwa [List.append_nil] at this
  rcases hd : decode e with d | boundary | ⟨boundary, error⟩ | eventType | eventType
  · simp only [Catalog.apply, logEntry, hd] at hc
    obtain ⟨defined, hdefine, hpair⟩ := Attempt.map_eq_ok.1 hc
    cases hpair
    unfold define at hdefine
    split_ifs at hdefine
    cases hdefine
    exact hmono.insert ⟨rfl, ⟨e, he, hd, rfl⟩, le_rfl, fun hactive => by cases hactive⟩
  · simp only [Catalog.apply, logEntry, hd] at hc
    split_ifs at hc
    split at hc
    · cases hc
      exact hmono
    · rename_i b hb
      cases hc
      have hold := hmono boundary b hb
      have hbefore := (h boundary b hb).before
      exact hmono.insert ⟨hold.named, hold.created, hold.before,
        fun _ => ⟨e, he, hd, hbefore.trans_lt hlt⟩⟩
  · simp only [Catalog.apply, logEntry, hd] at hc
    split at hc
    · cases hc
    split at hc
    · cases hc
      exact hmono
    · rename_i b hb
      split_ifs at hc <;> cases hc
      · exact hmono
      · have hold := hmono boundary b hb
        exact hmono.insert ⟨hold.named, hold.created, hold.before, fun hactive => by cases hactive⟩
  · simp only [Catalog.apply, logEntry, hd] at hc
    cases hc
  · simp only [Catalog.apply, logEntry, hd] at hc
    cases hc
    exact hmono

end Catalog

theorem backed_applyPage : ∀ {batch : List Event} {c c' : Catalog} {cursor cursor' : Position}
    {advanced advanced' : Bool}, c.Backed decode log cursor → (∀ e ∈ batch, e ∈ log) →
    Sorted Event.position batch → (∀ e ∈ batch, cursor ≤ e.position) →
    applyPage decode c cursor advanced batch = .ok (c', cursor', advanced') →
    c'.Backed decode log cursor'
  | [], _, _, _, _, _, _, h, _, _, _, ha => by
    cases ha
    exact h
  | e :: batch, c, _, cursor, _, _, _, h, hlog, hs, hc, ha => by
    obtain ⟨hhead, hs⟩ := sorted_cons.1 hs
    have hlog' : ∀ f ∈ batch, f ∈ log := fun f hf => hlog f (List.mem_cons_of_mem e hf)
    simp only [applyPage] at ha
    split_ifs at ha with heq
    · exact backed_applyPage h hlog' hs (fun f hf => hc f (List.mem_cons_of_mem e hf)) ha
    · have hlt : cursor < e.position :=
        lt_of_le_of_ne (hc e (List.mem_cons_self ..)) (Ne.symm heq)
      split at ha
      · cases ha
      · rename_i catalog applied happly
        split_ifs at ha
        exact backed_applyPage (h.apply (hlog e (List.mem_cons_self ..)) hlt happly) hlog' hs
          (fun f hf => (hhead f hf).le) ha

theorem mem_catalogPage {q : Event → Bool} (hs : Sorted Event.position log) (snapshot count : ℕ)
    (cursor : Position) : (∀ e ∈ getBatch q (log.take snapshot) ⟨.asc, count, some cursor⟩,
        e ∈ log ∧ cursor ≤ e.position) ∧
      Sorted Event.position (getBatch q (log.take snapshot) ⟨.asc, count, some cursor⟩) := by
  have hsub : (getBatch q (log.take snapshot) ⟨.asc, count, some cursor⟩).Sublist log :=
    (List.take_sublist ..).trans (List.filter_sublist.trans
      (List.filter_sublist.trans (List.take_sublist ..)))
  refine ⟨fun e he => ⟨hsub.subset he, ?_⟩, hs.sublist hsub⟩
  simpa using (List.mem_filter.1 (List.mem_of_mem_take he)).2

variable {lifecycleQuery : String → Event → Bool} {installed : List Definition}

theorem Recorded.mono {d : Definition} (h : Recorded decode log d) (more : List Event) :
    Recorded decode (log ++ more) d := by
  obtain ⟨created, hc, activated, ha, hrest⟩ := h
  exact ⟨created, List.mem_append_left more hc, activated, List.mem_append_left more ha, hrest⟩

def RuntimeRun.Sound (decode : Event → AdminEvent) (log : List Event)
    (installed : List Definition) : RuntimeRun → Prop
  | .reading _ _ catalog cursor => catalog.Backed decode log cursor
  | .installing definition => Recorded decode log definition
  | .activating name => ∃ d ∈ installed, d.name = name ∧ Recorded decode log d
  | .finished _ => True

theorem RuntimeRun.sound_start (event : Event) :
    (RuntimeRun.start decode event).Sound decode log installed := by
  unfold RuntimeRun.start
  repeat' split
  · trivial
  · exact fun name b hb => by cases hb
  · trivial

theorem RuntimeRun.Sound.mono {run : RuntimeRun} (h : run.Sound decode log installed)
    (more : List Event) {installed' : List Definition} (hi : ∀ d ∈ installed, d ∈ installed') :
    run.Sound decode (log ++ more) installed' := by
  cases run with
  | reading event name catalog cursor => exact Catalog.Backed.mono h le_rfl more
  | installing definition => exact Recorded.mono h more
  | activating name =>
    obtain ⟨d, hd, hname, hrecorded⟩ := h
    exact ⟨d, hi d hd, hname, hrecorded.mono more⟩
  | finished ok => trivial

theorem RuntimeRun.sound_replayed {event : Event} {c : Catalog} (h : c.Backed decode log cursor) :
    (RuntimeRun.replayed event name c).Sound decode log installed := by
  unfold RuntimeRun.replayed
  split
  · trivial
  · rename_i b hb
    split_ifs with hafter hactive
    · trivial
    · obtain ⟨hname, ⟨created, hcreated, hd, hp⟩, -, hactivated⟩ := h name b hb
      obtain ⟨activated, ha, hda, hlt⟩ := hactivated (not_not.1 hactive)
      exact ⟨created, hcreated, activated, ha, hd, hname ▸ hda, hp ▸ hlt⟩
    · trivial

theorem RuntimeRun.sound_read {run run' : RuntimeRun} {snapshot : ℕ}
    (hs : Sorted Event.position log) (h : run.Sound decode log installed)
    (hr : run.read decode lifecycleQuery log snapshot = some run') :
    run'.Sound decode log installed := by
  cases run with
  | reading event name catalog cursor =>
    obtain ⟨hpage, hsorted⟩ := mem_catalogPage (q := lifecycleQuery name) hs snapshot
      catalogReadBatchSize cursor
    cases hr
    split
    · trivial
    · rename_i catalog' cursor' advanced happly
      have hbacked := backed_applyPage h (fun e he => (hpage e he).1) hsorted
        (fun e he => (hpage e he).2) happly
      split_ifs
      · exact sound_replayed hbacked
      · exact hbacked
  | _ => cases hr

section Runs

variable {R : Type} {handler : EventHandler R} {p : Event → Bool} {exclusive : Bool}
  {s s' : Subscriber R} {run : R}

def Subscriber.Runs (s : Subscriber R) (run : R) : Prop :=
  (∃ source event, s.main = .handling source event run) ∨
    ∃ event, ⟨event, .handling run⟩ ∈ s.loops

theorem Subscriber.runs_of_run? {slot : Slot} (h : s.run? slot = some run) : s.Runs run := by
  cases slot with
  | main => exact .inl (Following.run?_main h)
  | loop i =>
    obtain ⟨event, hi⟩ := Following.run?_loop h
    exact .inr ⟨event, List.mem_of_getElem? hi⟩

theorem Subscriber.runs_setLoop {i : ℕ} {l : RetryLoop R} (h : (s.setLoop i l).Runs run) :
    s.Runs run ∨ l.state = .handling run := by
  rcases h with h | ⟨event, hmem⟩
  · exact .inl (.inl h)
  · rcases List.mem_or_eq_of_mem_set hmem with hmem | rfl
    · exact .inl (.inr ⟨event, hmem⟩)
    · exact .inr rfl

theorem Subscriber.runs_setRun {slot : Slot} {run' : R} (h : (s.setRun run' slot).Runs run) :
    s.Runs run ∨ run = run' := by
  cases slot with
  | main =>
    simp only [Subscriber.setRun] at h
    split at h
    · rcases h with ⟨source, event, hm⟩ | hloop
      · cases hm
        exact .inr rfl
      · exact .inl (.inr hloop)
    · exact .inl h
  | loop i =>
    simp only [Subscriber.setRun] at h
    split at h
    · rcases Subscriber.runs_setLoop h with h | h
      · exact .inl h
      · cases h
        exact .inr rfl
    · exact .inl h

theorem MainState.handling_of_step {m : MainState R} {a : SourceAction} {source : Source}
    {event : Event} (h : m.step p exclusive log cursor a = some (.handling source event run)) :
    ∃ source', m = .handling source' event run := by
  unfold MainState.step at h
  split at h
  case h_1 => split_ifs at h; cases h
  case h_2 => split_ifs at h; cases h
  case h_6 => split_ifs at h <;> cases h
  case h_10 =>
    simp only [Option.some.injEq, MainState.handling.injEq] at h
    obtain ⟨-, rfl, rfl⟩ := h
    exact ⟨_, rfl⟩
  all_goals simp at h

theorem Subscriber.runs_step {a : SubscriberAction R}
    (hs : s.step handler p exclusive log a = some s') (ha : ∀ slot run, a ≠ .advance slot run)
    (hr : s'.Runs run) : s.Runs run ∨ ∃ event, run = handler.start event := by
  cases a with
  | source a =>
    obtain ⟨m, hm, rfl⟩ := Option.map_eq_some_iff.1 hs
    rcases hr with ⟨source, event, rfl⟩ | hloop
    · obtain ⟨source', hm'⟩ := MainState.handling_of_step hm
      exact .inl (.inl ⟨source', event, hm'⟩)
    · exact .inl (.inr hloop)
  | hand =>
    simp only [Subscriber.step] at hs
    split at hs
    · obtain ⟨event, -, rfl⟩ := Option.map_eq_some_iff.1 hs
      rcases hr with ⟨source, event', hm⟩ | hloop
      · cases hm
        exact .inr ⟨event, rfl⟩
      · exact .inl (.inr hloop)
    · cases hs
  | advance slot run => exact absurd rfl (ha slot run)
  | returned =>
    simp only [Subscriber.step] at hs
    split at hs
    · obtain ⟨ok, -, rfl⟩ := Option.map_eq_some_iff.1 hs
      cases ok <;> rcases hr with ⟨source, event, hm⟩ | hloop
      · cases hm
      · exact .inl (.inr hloop)
      · cases hm
      · exact .inl (.inr hloop)
    · cases hs
  | schedule =>
    simp only [Subscriber.step] at hs
    split at hs
    · cases hs
      rcases hr with ⟨source, event, hm⟩ | ⟨event, hloop⟩
      · cases hm
      · refine .inl (.inr ⟨event, ?_⟩)
        simp only [Subscriber.scheduleRetry] at hloop
        split_ifs at hloop
        · exact hloop
        · rcases List.mem_append.1 hloop with hloop | hloop
          · exact hloop
          · cases List.mem_singleton.1 hloop
    · cases hs
  | setPosition =>
    simp only [Subscriber.step] at hs
    split at hs
    · obtain ⟨source', -, rfl⟩ := Option.map_eq_some_iff.1 hs
      rcases hr with ⟨source, event, hm⟩ | ⟨event, hloop⟩
      · cases hm
      · refine .inl (.inr ⟨event, ?_⟩)
        simp only [Subscriber.setCursor] at hloop
        split_ifs at hloop <;> exact hloop
    · cases hs
  | fire i =>
    simp only [Subscriber.step] at hs
    split at hs
    · rename_i event hi
      cases hs
      rcases Subscriber.runs_setLoop hr with h | h
      · exact .inl h
      · cases h
        exact .inr ⟨event, rfl⟩
    · cases hs
  | loopReturned i =>
    simp only [Subscriber.step] at hs
    split at hs
    · rename_i event run' hi
      obtain ⟨ok, -, rfl⟩ := Option.map_eq_some_iff.1 hs
      have hset : (s.setLoop i ⟨event, if ok then .leaving else .waiting⟩).Runs run := by
        cases ok <;> exact hr
      rcases Subscriber.runs_setLoop hset with h | h
      · exact .inl h
      · cases ok <;> cases h
    · cases hs
  | leave i =>
    simp only [Subscriber.step] at hs
    split at hs
    · cases hs
      rcases hr with hmain | ⟨event, hloop⟩
      · exact .inl (.inl hmain)
      · exact .inl (.inr ⟨event, (List.eraseIdx_sublist ..).subset hloop⟩)
    · cases hs

end Runs

structure Process.Inv (decode : Event → AdminEvent) (initiallyActive : List String) (w : Process) :
    Prop where
  sorted : Sorted Event.position w.log
  runs : ∀ run, w.subscriber.Runs run → run.Sound decode w.log w.installed
  active : ∀ name ∈ w.activeBoundaries, name ∈ initiallyActive ∨
    ∃ d ∈ w.installed, d.name = name ∧ Recorded decode w.log d

variable {initiallyActive : List String} {w w' : Process}

theorem Process.Inv.setRun (h : w.Inv decode initiallyActive) {slot : Slot} {run : RuntimeRun}
    (hr : run.Sound decode w.log w.installed) : (w.setRun slot run).Inv decode initiallyActive where
  sorted := h.sorted
  runs run' hrun := by
    rcases Subscriber.runs_setRun hrun with hold | rfl
    · exact h.runs run' hold
    · exact hr
  active := h.active

theorem Process.Inv.mono (h : w.Inv decode initiallyActive) {more : List Event}
    (hs : Sorted Event.position (w.log ++ more)) (hi : ∀ d ∈ w.installed, d ∈ installed) :
    Process.Inv decode initiallyActive { w with log := w.log ++ more, installed } where
  sorted := hs
  runs run hrun := (h.runs run hrun).mono more hi
  active name hname := (h.active name hname).imp id fun ⟨d, hd, heq, hrecorded⟩ =>
    ⟨d, hi d hd, heq, hrecorded.mono more⟩

theorem Process.Inv.install (h : w.Inv decode initiallyActive) (d : Definition) :
    Process.Inv decode initiallyActive { w with installed := d :: w.installed } := by
  have hsorted : Sorted Event.position (w.log ++ []) := by
    rw [List.append_nil]
    exact h.sorted
  have hmono := h.mono hsorted fun _ => List.mem_cons_of_mem d
  rwa [List.append_nil] at hmono

variable {active : List String}

theorem activateBoundary_eq_ok {active' : List String}
    (h : activateBoundary active name = .ok active') : active' = name :: active := by
  unfold activateBoundary at h
  split at h
  · cases h
  · exact (Except.ok.inj h).symm

theorem Process.Inv.expose (h : w.Inv decode initiallyActive)
    (ha : active = name :: w.activeBoundaries)
    (hname : ∃ d ∈ w.installed, d.name = name ∧ Recorded decode w.log d) :
    Process.Inv decode initiallyActive { w with activeBoundaries := active } where
  sorted := h.sorted
  runs := h.runs
  active other hother := by
    subst ha
    rcases List.mem_cons.1 hother with rfl | hother
    · exact .inr hname
    · exact h.active other hother

theorem Process.step_subscriber {a : SubscriberAction RuntimeRun}
    (hs : w.step decode lifecycleQuery (.subscriber a) = some w') :
    ∃ s, (∀ slot run, a ≠ .advance slot run) ∧
      w.subscriber.step (runtimeHandler decode) boundaryActivationQuery false w.log a = some s ∧
      w' = { w with subscriber := s } := by
  have hne : ∀ slot run, a ≠ .advance slot run := by
    rintro slot run rfl
    cases hs
  have hstep : (w.subscriber.step (runtimeHandler decode) boundaryActivationQuery false w.log
      a).map (fun subscriber => { w with subscriber }) = some w' := by
    cases a <;> first | exact hs | cases hs
  obtain ⟨s, hs', rfl⟩ := Option.map_eq_some_iff.1 hstep
  exact ⟨s, hne, hs', rfl⟩

theorem Process.inv_step {a : ProcessAction} (h : w.Inv decode initiallyActive)
    (hs : w.step decode lifecycleQuery a = some w') : w'.Inv decode initiallyActive := by
  cases a with
  | append event =>
    obtain ⟨log', hlog, rfl⟩ := Option.map_eq_some_iff.1 hs
    obtain ⟨rfl, -, habove⟩ := appendEventTo_eq_some hlog
    exact h.mono (h.sorted.append (List.pairwise_singleton ..) habove) fun _ hd => hd
  | subscriber a =>
    obtain ⟨s, hne, hstep, rfl⟩ := Process.step_subscriber hs
    refine ⟨h.sorted, fun run hrun => ?_, h.active⟩
    rcases Subscriber.runs_step hstep hne hrun with hold | ⟨event, rfl⟩
    · exact h.runs run hold
    · exact RuntimeRun.sound_start event
  | read slot snapshot =>
    obtain ⟨run, hrun, hs⟩ := Option.bind_eq_some_iff.1 hs
    obtain ⟨run', hread, hs⟩ := Option.bind_eq_some_iff.1 hs
    cases hs
    have hsound := h.runs run (Subscriber.runs_of_run? hrun)
    exact h.setRun (RuntimeRun.sound_read h.sorted hsound hread)
  | failRead slot =>
    simp only [Process.step, Process.failRead] at hs
    split at hs <;> cases hs
    exact h.setRun trivial
  | install slot ok =>
    simp only [Process.step, Process.install] at hs
    split at hs
    · rename_i definition hrun
      have hrecorded := h.runs _ (Subscriber.runs_of_run? hrun)
      cases hs
      cases ok with
      | false => exact h.setRun trivial
      | true => exact (h.install definition).setRun ⟨definition, List.mem_cons_self .., rfl, hrecorded⟩
    · cases hs
  | activate slot =>
    simp only [Process.step, Process.activate] at hs
    split at hs
    · rename_i name hrun
      have hknown := h.runs _ (Subscriber.runs_of_run? hrun)
      cases hs
      split
      · exact h.setRun trivial
      · rename_i active hactive
        exact (h.expose (activateBoundary_eq_ok hactive) hknown).setRun trivial
    · cases hs

theorem Process.active_step {a : ProcessAction} (hs : w.step decode lifecycleQuery a = some w')
    (hn : name ∈ w.activeBoundaries) :
    name ∈ w'.activeBoundaries := by
  cases a with
  | append event =>
    obtain ⟨log', -, rfl⟩ := Option.map_eq_some_iff.1 hs
    exact hn
  | subscriber a =>
    obtain ⟨s, -, -, rfl⟩ := Process.step_subscriber hs
    exact hn
  | read slot snapshot =>
    obtain ⟨run, -, hs⟩ := Option.bind_eq_some_iff.1 hs
    obtain ⟨run', -, hs⟩ := Option.bind_eq_some_iff.1 hs
    cases hs
    exact hn
  | failRead slot =>
    simp only [Process.step, Process.failRead] at hs
    split at hs <;> cases hs
    exact hn
  | install slot ok =>
    simp only [Process.step, Process.install] at hs
    split at hs <;> cases hs
    split_ifs <;> exact hn
  | activate slot =>
    simp only [Process.step, Process.activate] at hs
    split at hs <;> cases hs
    split
    · exact hn
    · rename_i active hactive
      rw [activateBoundary_eq_ok hactive]
      exact List.mem_cons_of_mem _ hn

theorem requireBoundaryActive_eq_ok :
    requireBoundaryActive active name = .ok () ↔
      validateName name = .ok () ∧ name ∈ active := by
  unfold requireBoundaryActive
  rcases hv : validateName name with e | ⟨⟩
  · simp
  · simp

theorem Process.start_eq_ok (h : Process.start initiallyActive = .ok w) :
    w = ⟨[], initiallyActive, [], .initial⟩ := by
  obtain ⟨active, ha, rfl⟩ := Attempt.map_eq_ok.1 h
  obtain ⟨⟨⟩, -, ha⟩ := Attempt.bind_eq_ok.1 ha
  cases ha
  rfl

theorem Process.inv_start (h : Process.start initiallyActive = .ok w) :
    w.Inv decode initiallyActive := by
  obtain rfl := Process.start_eq_ok h
  refine ⟨.nil, ?_, fun name hname => .inl hname⟩
  rintro run (⟨source, event, hm⟩ | ⟨event, hmem⟩)
  · cases hm
  · cases hmem

/-- A request passes the gate only for a boundary that was active from the start, or whose recorded
definition has been installed and is followed by its activation in the log; and then every later
request does. -/
theorem activationGate_safe (decode : Event → AdminEvent) (lifecycleQuery : String → Event → Bool)
    {initiallyActive : List String} {w w' : Process} {as : List ProcessAction}
    (hstart : Process.start initiallyActive = .ok w)
    (hrun : Transition.run (Process.step decode lifecycleQuery) w as = some w') {b : String}
    (hb : requireBoundaryActive w'.activeBoundaries b = .ok ()) :
    (b ∈ initiallyActive ∨ ∃ d ∈ w'.installed, d.name = b ∧ Recorded decode w'.log d) ∧
      ∀ bs w'', Transition.run (Process.step decode lifecycleQuery) w' bs = some w'' →
        requireBoundaryActive w''.activeBoundaries b = .ok () := by
  have hinv : w'.Inv decode initiallyActive :=
    Transition.run_invariant (fun _ _ _ => Process.inv_step) (Process.inv_start hstart) hrun
  obtain ⟨hvalid, hactive⟩ := requireBoundaryActive_eq_ok.1 hb
  refine ⟨hinv.active b hactive, fun bs w'' hrun' => requireBoundaryActive_eq_ok.2 ⟨hvalid, ?_⟩⟩
  exact Transition.run_invariant (I := fun w => b ∈ w.activeBoundaries)
    (fun _ _ _ hmem hs => Process.active_step hs hmem) hactive hrun'

def lifecycleEvent (eventType boundary : String) (position : Position) : Event :=
  ⟨position, .object [("__eventType", .string eventType), ("boundary", .string boundary)]⟩

def sampleDecode (e : Event) : AdminEvent :=
  let boundary := (e.data.getText? "boundary").getD ""
  if eventType e = "$BoundaryCreated" then .boundaryCreated ⟨boundary, "", ⟨"sqlite", "shared"⟩⟩
  else if eventType e = "$BoundaryActivated" then .boundaryActivated boundary
  else if eventType e = "$BoundaryProvisioningFailed" then
    .boundaryProvisioningFailed boundary "timeout"
  else .other (eventType e)

/-- A boundary is defined and activated; the replay of a process installs and exposes it. -/
def exposingRun : List ProcessAction :=
  [.append (lifecycleEvent "$BoundaryCreated" "orders" ⟨1, 0⟩),
    .append (lifecycleEvent "$BoundaryActivated" "orders" ⟨2, 1⟩),
    .subscriber (.source .replay), .subscriber (.source (.readReplay 2)), .subscriber .hand,
    .read .main 2, .install .main true, .activate .main, .subscriber .returned,
    .subscriber .setPosition]

theorem exposingRun_safe : ∃ w w', Process.start ["admin"] = .ok w ∧
    Transition.run (Process.step sampleDecode fun _ _ => true) w exposingRun = some w' ∧
    requireBoundaryActive w'.activeBoundaries "orders" = .ok () ∧
    ∃ d ∈ w'.installed, d.name = "orders" ∧ Recorded sampleDecode w'.log d := by
  have hrun : (Transition.run (Process.step sampleDecode fun _ _ => true)
      ⟨[], ["admin"], [], .initial⟩ exposingRun).any
        (fun w => decide ("orders" ∈ w.activeBoundaries)) = true := by
    decide +kernel
  obtain ⟨w', hw', hmem⟩ := (Option.any_eq_true _ _).1 hrun
  have hb : requireBoundaryActive w'.activeBoundaries "orders" = .ok () :=
    requireBoundaryActive_eq_ok.2 ⟨by decide +kernel, of_decide_eq_true hmem⟩
  have hstart : Process.start ["admin"] = .ok ⟨[], ["admin"], [], .initial⟩ := rfl
  refine ⟨_, w', hstart, hw', hb, ?_⟩
  rcases (activationGate_safe sampleDecode (fun _ _ => true) hstart hw' hb).1 with h | h
  · simp at h
  · exact h

end Orisun.Admin
