import Orisun.Clients
import Orisun.Lib.GrowingLog
import Orisun.Proofs.Observations

/-!
# Clients of a lawful backend are consistent

A backend is lawful if its reads return where their query stands, and a batch it executes answers
each save by what stands before it and adds events above those.
-/

namespace Orisun

variable {tag : Meaning.TagHolds} {B : Backend}

/-- Every event is above the position of a query without matches. -/
def EventsPlaced (events : List Event) : Prop := ∀ e ∈ events, notExistsPosition < e.position

/-- The log has grown. -/
abbrev Grows (events events' : List Event) : Prop :=
  GrowingLog.Grows Event.position events events'

theorem standing_eq {events : List Event} (h : EventsPlaced events)
    (criteria : List ReadCriterion) :
    standing tag events criteria = GrowingLog.standing Event.position notExistsPosition
      (fun e => queryMatches tag criteria e.data) events := by
  refine latestPosition_eq_latest fun p hp => ?_
  obtain ⟨e, he, rfl⟩ := List.mem_map.1 hp
  exact h e (List.mem_filter.1 he).1

theorem standing_append_iff (tag : Meaning.TagHolds) {events new : List Event}
    (criteria : List ReadCriterion)
    (hp : EventsPlaced (events ++ new)) (h : GrowingLog.Above Event.position events new) :
    standing tag (events ++ new) criteria = standing tag events criteria ↔
      ∀ e ∈ new, queryMatches tag criteria e.data = false := by
  obtain ⟨h1, h2⟩ := List.forall_mem_append.1 hp
  rw [standing_eq hp, standing_eq h1, GrowingLog.standing_append_eq_iff h2 h]

def ConsistencyCheck.WellFormed (check : ConsistencyCheck) : Prop :=
  check.criteria ≠ [] ∧ ∀ c ∈ check.criteria, c.tags ≠ [] ∧ ∀ t ∈ c.tags, validateTag t = .ok ()

theorem NormalForm.wellFormed {q : Query} {criteria : List ReadCriterion}
    (h : NormalForm q criteria) (p : Position) :
    ConsistencyCheck.WellFormed ⟨criteria, p⟩ := by
  refine ⟨h.ne_nil, fun c hc => ?_⟩
  obtain ⟨d, -, hd⟩ := h.from_given c hc
  exact ⟨hd.ne_nil, hd.valid⟩

@[simp] theorem added_conflict (final : List Event) : Answer.conflict.added final = [] := rfl

theorem added_accepted {before es rest : List Event} {p : Position}
    (h1 : ∀ e ∈ before, e.position.commitPosition < p.commitPosition)
    (h2 : ∀ e ∈ es, e.position.commitPosition = p.commitPosition)
    (h3 : ∀ e ∈ rest, p.commitPosition < e.position.commitPosition) :
    (Answer.accepted p).added (before ++ es ++ rest) = es := by
  change List.filter _ (before ++ es ++ rest) = es
  rw [List.filter_append, List.filter_append, List.filter_eq_nil_iff.2, List.filter_eq_self.2,
    List.filter_eq_nil_iff.2]
  · simp
  · intro e he
    have := h3 e he
    simp only [decide_eq_true_eq]
    omega
  · intro e he
    simpa using h2 e he
  · intro e he
    have := h1 e he
    simp only [decide_eq_true_eq]
    omega

def Prepared (save : B.Save) : Prop := ∃ checks payload, B.prepare checks payload = some save

/-- Each save is answered by what stands after the accepted ones before it. -/
def Serves {σ : Type} (stands : List Event → σ → Prop) (final : List Event) :
    List Event → List (σ × Answer) → Prop
  | before, [] => before = final
  | before, (save, answer) :: rest =>
    (answer.isAccepted = true → stands before save) ∧ (answer = .conflict → ¬stands before save) ∧
      GrowingLog.Above Event.position before (answer.added final) ∧
      Serves stands final (before ++ answer.added final) rest

/-- What a backend keeps to. -/
structure Lawful (B : Backend) (tag : Meaning.TagHolds) where
  Sound : B.State → Prop
  /-- Everything the save observed stands where it was observed. -/
  Stands : List Event → B.Save → Prop
  placed : ∀ {s}, Sound s → EventsPlaced (B.events s)
  read : ∀ {s criteria p}, Sound s → B.getLatestByCriteria s criteria = some p →
    p = standing tag (B.events s) criteria
  prepare : ∀ {checks payload save events}, B.prepare checks payload = some save →
    (∀ check ∈ checks, check.WellFormed) → EventsPlaced events →
      (Stands events save ↔ ∀ check ∈ checks, standing tag events check.criteria = check.position)
  execute : ∀ {env s saves s' answers}, Sound s → (∀ save ∈ saves, Prepared save) →
    B.execute env s saves = some (s', answers) →
      Sound s' ∧ answers.length = saves.length ∧
        Serves Stands (B.events s') (B.events s) (saves.zip answers)
  rollback : ∀ {s n}, Sound s → Sound (B.rollback n s) ∧ B.events (B.rollback n s) = B.events s

namespace World

variable {w w' : World B} {p : ℕ}

theorem read_eq_some {criteria : List ReadCriterion} (h : w.read criteria = some w') :
    ∃ position, B.getLatestByCriteria w.store criteria = some position ∧
      w' = { w with reads := w.reads ++ [⟨criteria, position, B.events w.store⟩] } := by
  obtain ⟨position, hp, rfl⟩ := Option.map_eq_some_iff.1 h
  exact ⟨position, hp, rfl⟩

theorem submit_eq_some {calls : List (Call B)} (h : w.submit p calls = some w') :
    ∃ batch, (∀ c ∈ batch, c.1.save = some c.2 ∧ c.1.basedOn w.reads = true) ∧
      w.process p = .idle ∧ w' = w.setProcess p (.waiting batch) := by
  unfold submit at h
  split at h
  · split_ifs at h with hall
    obtain ⟨batch, hb, rfl⟩ := Option.map_eq_some_iff.1 h
    refine ⟨batch, fun c hc => ?_, by assumption, rfl⟩
    obtain ⟨call, hcall, hsave⟩ := Attempt.exists_of_mem_mapM hb c hc
    obtain ⟨save, hs, rfl⟩ := Option.map_eq_some_iff.1 hsave
    exact ⟨hs, List.all_eq_true.1 hall call hcall⟩
  · cases h

theorem acquire_eq_some (h : w.acquire p = some w') :
    ∃ batch, w.process p = .waiting batch ∧ w.lock = none ∧
      w' = { w.setProcess p (.holding batch) with lock := some p } := by
  unfold acquire at h
  split at h
  · exact ⟨_, by assumption, by assumption, (Option.some.inj h).symm⟩
  · cases h

theorem execute_eq_some {env : B.Env} (h : w.execute p env = some w') :
    ∃ batch result answers, w.process p = .holding batch ∧
      B.execute env w.store (batch.map Prod.snd) = some (result, answers) ∧
      w' = w.setProcess p (.executed batch result answers) := by
  unfold execute at h
  split at h
  · obtain ⟨⟨result, answers⟩, hr, rfl⟩ := Option.map_eq_some_iff.1 h
    exact ⟨_, result, answers, by assumption, hr, rfl⟩
  · cases h

theorem commit_eq_some (h : w.commit p = some w') :
    ∃ batch result answers, w.process p = .executed batch result answers ∧
      w' = { w.setProcess p .committed with
        store := result
        saved := w.saved ++ record (B.events result) (B.events w.store)
          ((batch.map Prod.fst).zip answers) } := by
  unfold commit at h
  split at h
  · exact ⟨_, _, _, by assumption, (Option.some.inj h).symm⟩
  · cases h

theorem release_eq_some (h : w.release p = some w') :
    w.process p = .committed ∧ w' = { w.setProcess p .idle with lock := none } := by
  unfold release at h
  split at h
  · exact ⟨by assumption, (Option.some.inj h).symm⟩
  · cases h

theorem rollback_eq_some {n : ℕ} (h : w.rollback p n = some w') :
    (∃ batch, w.process p = .waiting batch) ∧ w' = w.setProcess p .idle ∨
      (∃ batch, w.process p = .holding batch ∨
        ∃ result answers, w.process p = .executed batch result answers) ∧
      w' = { w.setProcess p .idle with lock := none, store := B.rollback n w.store } := by
  unfold rollback at h
  split at h
  · exact .inl ⟨⟨_, by assumption⟩, (Option.some.inj h).symm⟩
  · exact .inr ⟨⟨_, .inl (by assumption)⟩, (Option.some.inj h).symm⟩
  · exact .inr ⟨⟨_, .inr ⟨_, _, by assumption⟩⟩, (Option.some.inj h).symm⟩
  · cases h

end World

def Process.batch : Process B → List (Call B × B.Save)
  | idle => []
  | waiting batch => batch
  | holding batch => batch
  | executed batch _ _ => batch
  | committed => []

def Process.hasLock : Process B → Bool
  | idle => false
  | waiting _ => false
  | _ => true

/-- A save was answered by what stood before it. -/
structure Answered (L : Lawful B tag) (reads : List Read) (s : Saved B) : Prop where
  save : ∃ save, s.call.save = some save ∧ (s.answer.isAccepted = true → L.Stands s.before save) ∧
    (s.answer = .conflict → ¬L.Stands s.before save)
  basis : s.call.basedOn reads = true
  above : GrowingLog.Above Event.position s.before s.added

structure Inv (L : Lawful B tag) (w : World B) : Prop where
  sound : L.Sound w.store
  lock : ∀ p, (w.process p).hasLock = true ↔ w.lock = some p
  batch : ∀ p, ∀ c ∈ (w.process p).batch, c.1.save = some c.2 ∧ c.1.basedOn w.reads = true
  executed : ∀ p batch result answers, w.process p = .executed batch result answers →
    L.Sound result ∧ answers.length = batch.length ∧
      Serves L.Stands (B.events result) (B.events w.store) ((batch.map Prod.snd).zip answers)
  reads : ∀ r ∈ w.reads, Grows r.snapshot (B.events w.store) ∧
    r.position = standing tag r.snapshot r.criteria
  answered : ∀ s ∈ w.saved, Answered L w.reads s
  since : ∀ s ∈ w.saved, ∀ i r, s.call.basis = some i → w.reads[i]? = some r →
    Grows r.snapshot s.before
  kept : ∀ s ∈ w.saved, Grows (s.before ++ s.added) (B.events w.store)
  order : w.saved.Pairwise fun s s' => Grows (s.before ++ s.added) s'.before

theorem inv_initial (L : Lawful B tag) {s : B.State} (h : L.Sound s) : Inv L (World.initial s) where
  sound := h
  lock := fun p => by simp [World.initial, Process.hasLock]
  batch := fun p => by simp [World.initial, Process.batch]
  executed := fun p => by simp [World.initial]
  reads := by simp [World.initial]
  answered := by simp [World.initial]
  since := by simp [World.initial]
  kept := by simp [World.initial]
  order := .nil

theorem Call.basedOn_append {reads : List Read} {call : Call B} (h : call.basedOn reads = true)
    (r : Read) : call.basedOn (reads ++ [r]) = true := by
  unfold Call.basedOn at h ⊢
  split at h
  · rfl
  · rename_i i hi
    rcases hr : reads[i]? with _ | r'
    · simp [hr] at h
    · rw [List.getElem?_append_left (List.getElem?_eq_some_iff.1 hr).1]
      exact h

theorem Call.save_eq_some {call : Call B} {save : B.Save} (h : call.save = some save) :
    ∃ checks, consistencyChecksFromObservations call.consistency = .ok checks ∧
      B.prepare checks call.payload = some save := by
  obtain ⟨checks, hc, hp⟩ := Option.bind_eq_some_iff.1 h
  exact ⟨checks, Attempt.toOption_eq_some.1 hc, hp⟩

theorem Inv.unique {L : Lawful B tag} {w : World B} (h : Inv L w) {p q : ℕ}
    (hp : (w.process p).hasLock = true) (hq : (w.process q).hasLock = true) : p = q :=
  Option.some.inj (((h.lock p).1 hp).symm.trans ((h.lock q).1 hq))

section Steps

variable {L : Lawful B tag} {w : World B} {p : ℕ}

def LockOf (process : ℕ → Process B) (lock : Option ℕ) : Prop :=
  ∀ q, (process q).hasLock = true ↔ lock = some q

variable {process : ℕ → Process B} {lock : Option ℕ} {s : Process B}

theorem LockOf.update (h : LockOf process lock) (hs : s.hasLock = (process p).hasLock) :
    LockOf (Function.update process p s) lock := by
  intro q
  rcases eq_or_ne q p with rfl | hq
  · rw [Function.update_self, hs]
    exact h q
  · rw [Function.update_of_ne hq]
    exact h q

theorem LockOf.take (h : LockOf process none) (hs : s.hasLock = true) :
    LockOf (Function.update process p s) (some p) := by
  intro q
  rcases eq_or_ne q p with rfl | hq
  · simp [hs]
  · rw [Function.update_of_ne hq, h q]
    simp [hq.symm]

theorem LockOf.give (h : LockOf process lock) (hp : (process p).hasLock = true)
    (hs : s.hasLock = false) :
    LockOf (Function.update process p s) none := by
  intro q
  rcases eq_or_ne q p with rfl | hq
  · simp [hs]
  · rw [Function.update_of_ne hq, h q, (h p).1 hp]
    simp [hq.symm]

theorem Inv.move (h : Inv L w) (hlock : LockOf (Function.update w.process p s) lock)
    (hbatch : ∀ c ∈ s.batch, c ∈ (w.process p).batch ∨
      c.1.save = some c.2 ∧ c.1.basedOn w.reads = true)
    (hexec : ∀ batch result answers, s = .executed batch result answers →
      L.Sound result ∧ answers.length = batch.length ∧
        Serves L.Stands (B.events result) (B.events w.store) ((batch.map Prod.snd).zip answers)) :
    Inv L { w.setProcess p s with lock := lock } where
  sound := h.sound
  lock := hlock
  batch := by
    intro q c hc
    simp only [World.setProcess] at hc ⊢
    rcases eq_or_ne q p with rfl | hq
    · rw [Function.update_self] at hc
      exact (hbatch c hc).elim (h.batch q c) id
    · rw [Function.update_of_ne hq] at hc
      exact h.batch q c hc
  executed := by
    intro q batch result answers hq
    simp only [World.setProcess] at hq
    rcases eq_or_ne q p with rfl | hne
    · rw [Function.update_self] at hq
      exact hexec batch result answers hq
    · rw [Function.update_of_ne hne] at hq
      exact h.executed q batch result answers hq
  reads := h.reads
  answered := h.answered
  since := h.since
  kept := h.kept
  order := h.order

variable {criteria : List ReadCriterion}

theorem Inv.read (h : Inv L w) {position : Position}
    (hr : B.getLatestByCriteria w.store criteria = some position) :
    Inv L { w with reads := w.reads ++ [⟨criteria, position, B.events w.store⟩] } where
  sound := h.sound
  lock := h.lock
  batch := fun q c hc => ⟨(h.batch q c hc).1, Call.basedOn_append (h.batch q c hc).2 _⟩
  executed := h.executed
  reads := by
    refine List.forall_mem_append.2 ⟨h.reads, ?_⟩
    simp only [List.mem_singleton, forall_eq]
    exact ⟨GrowingLog.Grows.refl _, L.read h.sound hr⟩
  answered := fun s hs =>
    ⟨(h.answered s hs).save, Call.basedOn_append (h.answered s hs).basis _, (h.answered s hs).above⟩
  since := by
    intro s hs i r hi hr
    have hb := (h.answered s hs).basis
    unfold Call.basedOn at hb
    rw [hi] at hb
    rcases hr' : w.reads[i]? with _ | r'
    · simp [hr'] at hb
    · rw [List.getElem?_append_left (List.getElem?_eq_some_iff.1 hr').1] at hr
      exact h.since s hs i r hi hr
  kept := h.kept
  order := h.order

theorem record_spec {stands : List Event → B.Save → Prop} {final : List Event} :
    ∀ {batch : List (Call B × B.Save)} {answers : List Answer} {before : List Event},
      answers.length = batch.length →
      Serves stands final before ((batch.map Prod.snd).zip answers) →
      (∀ s ∈ record final before ((batch.map Prod.fst).zip answers),
        (∃ c ∈ batch, s.call = c.1 ∧ (s.answer.isAccepted = true → stands s.before c.2) ∧
          (s.answer = .conflict → ¬stands s.before c.2)) ∧
        GrowingLog.Above Event.position s.before s.added ∧ Grows before s.before ∧
        Grows (s.before ++ s.added) final) ∧
      (record final before ((batch.map Prod.fst).zip answers)).Pairwise
        (fun s s' => Grows (s.before ++ s.added) s'.before) ∧
      Grows before final
  | [], [], before, _, h => by
    obtain rfl : before = final := h
    exact ⟨by simp [record], by simp [record], GrowingLog.Grows.refl _⟩
  | c :: batch, a :: answers, before, hl, h => by
    obtain ⟨hacc, hconf, habove, hrest⟩ := h
    obtain ⟨hall, hpair, hgrow⟩ := record_spec (Nat.succ.inj hl) hrest
    have hstep : Grows before (before ++ a.added final) := ⟨_, rfl, habove⟩
    refine ⟨List.forall_mem_cons.2 ⟨⟨⟨c, List.mem_cons_self .., rfl, hacc, hconf⟩, habove,
      GrowingLog.Grows.refl _, hgrow⟩, fun s hs => ?_⟩, List.pairwise_cons.2 ⟨fun s hs => ?_, hpair⟩,
      hstep.trans hgrow⟩
    · obtain ⟨⟨d, hd, hcall⟩, h1, h2, h3⟩ := hall s hs
      exact ⟨⟨d, List.mem_cons_of_mem c hd, hcall⟩, h1, hstep.trans h2, h3⟩
    · exact (hall s hs).2.2.1

theorem Inv.commit (h : Inv L w) {batch : List (Call B × B.Save)} {result : B.State}
    {answers : List Answer} (hp : w.process p = .executed batch result answers) :
    Inv L { w.setProcess p .committed with
      store := result
      saved := w.saved ++ record (B.events result) (B.events w.store)
        ((batch.map Prod.fst).zip answers) } := by
  obtain ⟨hsound, hlen, hserves⟩ := h.executed p batch result answers hp
  obtain ⟨hall, hpair, hgrow⟩ := record_spec hlen hserves
  have hbatch := h.batch p
  have hheld : (w.process p).hasLock = true := by
    rw [hp]
    rfl
  have hmoved : Inv L { w.setProcess p .committed with lock := w.lock } :=
    h.move (LockOf.update h.lock (hheld ▸ rfl)) (by simp [Process.batch]) (by simp)
  refine ⟨hsound, hmoved.lock, hmoved.batch, ?_, ?_, ?_, ?_, ?_, ?_⟩
  · intro q batch' result' answers' hq
    simp only [World.setProcess] at hq
    rcases eq_or_ne q p with rfl | hne
    · rw [Function.update_self] at hq
      cases hq
    · rw [Function.update_of_ne hne] at hq
      exact absurd (h.unique (by rw [hq]; rfl) hheld) hne
  · exact fun r hr => ⟨(h.reads r hr).1.trans hgrow, (h.reads r hr).2⟩
  · refine List.forall_mem_append.2 ⟨h.answered, fun s hs => ?_⟩
    obtain ⟨⟨c, hc, hcall, hacc, hconf⟩, habove, -, -⟩ := hall s hs
    obtain ⟨hsave, hbased⟩ := hbatch c (by rw [hp]; exact hc)
    exact ⟨⟨c.2, hcall ▸ hsave, hacc, hconf⟩, hcall ▸ hbased, habove⟩
  · intro s hs i r hi hr
    rcases List.mem_append.1 hs with hs | hs
    · exact h.since s hs i r hi hr
    · exact (h.reads r (List.mem_of_getElem? hr)).1.trans (hall s hs).2.2.1
  · refine List.forall_mem_append.2 ⟨fun s hs => (h.kept s hs).trans hgrow, fun s hs => ?_⟩
    exact (hall s hs).2.2.2
  · refine List.pairwise_append.2 ⟨h.order, hpair, fun s hs s' hs' => ?_⟩
    exact (h.kept s hs).trans (hall s' hs').2.2.1

theorem Inv.rollback (h : Inv L w) (hp : (w.process p).hasLock = true) (n : ℕ) :
    Inv L { w.setProcess p .idle with lock := none, store := B.rollback n w.store } := by
  have hmoved : Inv L { w.setProcess p .idle with lock := none } :=
    h.move (LockOf.give h.lock hp rfl) (by simp [Process.batch]) (by simp)
  obtain ⟨hsound, hevents⟩ := L.rollback (n := n) h.sound
  refine ⟨hsound, hmoved.lock, hmoved.batch, fun q batch result answers hq => ?_, ?_, h.answered,
    h.since, ?_, h.order⟩
  · rw [hevents]
    exact hmoved.executed q batch result answers hq
  · rw [hevents]
    exact h.reads
  · rw [hevents]
    exact h.kept

theorem inv_step {w' : World B} {a : Action B} (h : Inv L w) (hs : w.step a = some w') :
    Inv L w' := by
  cases a with
  | read criteria =>
    obtain ⟨position, hr, rfl⟩ := World.read_eq_some hs
    exact h.read hr
  | submit p calls =>
    obtain ⟨batch, hbatch, hp, rfl⟩ := World.submit_eq_some hs
    exact h.move (LockOf.update h.lock (by rw [hp]; rfl)) (fun c hc => .inr (hbatch c hc)) (by simp)
  | acquire p =>
    obtain ⟨batch, hp, hfree, rfl⟩ := World.acquire_eq_some hs
    exact h.move (LockOf.take (hfree ▸ h.lock) rfl) (fun c hc => .inl (hp ▸ hc)) (by simp)
  | execute p env =>
    obtain ⟨batch, result, answers, hp, hex, rfl⟩ := World.execute_eq_some hs
    have hprepared : ∀ save ∈ batch.map Prod.snd, Prepared save := by
      refine List.forall_mem_map.2 fun c hc => ?_
      obtain ⟨checks, -, hc⟩ := Call.save_eq_some (h.batch p c (by rw [hp]; exact hc)).1
      exact ⟨checks, _, hc⟩
    obtain ⟨hsound, hlen, hserves⟩ := L.execute h.sound hprepared hex
    refine h.move (LockOf.update h.lock (by rw [hp]; rfl)) (fun c hc => .inl (hp ▸ hc)) ?_
    intro batch' result' answers' he
    obtain ⟨rfl, rfl, rfl⟩ := Process.executed.inj he
    exact ⟨hsound, hlen.trans (List.length_map ..), hserves⟩
  | commit p =>
    obtain ⟨batch, result, answers, hp, rfl⟩ := World.commit_eq_some hs
    exact h.commit hp
  | release p =>
    obtain ⟨hp, rfl⟩ := World.release_eq_some hs
    exact h.move (LockOf.give h.lock (by rw [hp]; rfl) rfl) (by simp [Process.batch]) (by simp)
  | rollback p n =>
    obtain ⟨⟨batch, hp⟩, rfl⟩ | ⟨⟨batch, hp⟩, rfl⟩ := World.rollback_eq_some hs
    · exact h.move (LockOf.update h.lock (by rw [hp]; rfl)) (by simp [Process.batch]) (by simp)
    · refine h.rollback ?_ n
      obtain hp | ⟨result, answers, hp⟩ := hp <;> rw [hp] <;> rfl

theorem queryMatches_normalForm {normal : List ReadCriterion}
    (h : NormalForm (.ofCriteria criteria) normal) :
    queryMatches tag normal = queryMatches tag criteria := by
  funext data
  exact (h.meaning tag data).trans (by rw [given_ofCriteria]; rfl)

theorem stands_iff {call : Call B} {save : B.Save} {q : Position} {events : List Event}
    (hs : call.save = some save) (hc : call.consistency = [some (.of criteria q)])
    (hp : EventsPlaced events) :
    L.Stands events save ↔ standing tag events criteria = q := by
  obtain ⟨checks, hchecks, hprep⟩ := Call.save_eq_some hs
  rw [hc] at hchecks
  obtain ⟨normal, hform, rfl⟩ := consistencyChecks_of_one hchecks
  rw [L.prepare hprep (by simpa using hform.wellFormed q) hp]
  simp only [List.mem_singleton, forall_eq, standing, queryMatches_normalForm hform]

theorem Inv.before_placed (h : Inv L w) {s : Saved B} (hs : s ∈ w.saved) :
    EventsPlaced (s.before ++ s.added) :=
  fun e he => L.placed h.sound e ((h.kept s hs).mem he)

theorem Inv.accepted_iff (h : Inv L w) {s : Saved B} (hs : s ∈ w.saved) {i : ℕ} {r : Read}
    (hi : s.call.basis = some i) (hr : w.reads[i]? = some r) :
    ∃ between, s.before = r.snapshot ++ between ∧
      (s.answer ≠ .failed → (s.answer.isAccepted = true ↔
        ∀ e ∈ between, queryMatches tag r.criteria e.data = false)) := by
  obtain ⟨between, hbefore, habove⟩ := h.since s hs i r hi hr
  obtain ⟨⟨save, hsave, hacc, hconf⟩, hbasis, -⟩ := h.answered s hs
  have hplaced : EventsPlaced s.before := fun e he =>
    h.before_placed hs e (List.mem_append_left _ he)
  have hc : s.call.consistency = [some (.of r.criteria r.position)] := by
    simpa [Call.basedOn, hi, hr] using hbasis
  have hstands := stands_iff (L := L) hsave hc hplaced
  have hmoved := standing_append_iff tag r.criteria (hbefore ▸ hplaced) habove
  rw [(h.reads r (List.mem_of_getElem? hr)).2, hbefore, hmoved] at hstands
  refine ⟨between, hbefore, fun hne => ?_⟩
  rw [← hstands, ← hbefore]
  refine ⟨hacc, fun hst => ?_⟩
  rcases ha : s.answer with q | _ | _
  · rfl
  · exact absurd hst (hconf ha)
  · exact absurd ha hne

theorem Inv.at_most_one (h : Inv L w) (criteria : List ReadCriterion) (q : Position) :
    (w.winners tag criteria q).length ≤ 1 := by
  have hpair := h.order.filter (p := fun s : Saved B =>
    s.call.consistency = [some (.of criteria q)] && s.answer.isAccepted &&
      s.added.any fun e => queryMatches tag criteria e.data)
  have hmem : ∀ s ∈ w.winners tag criteria q, s ∈ w.saved ∧
      standing tag s.before criteria = q ∧
      ∃ e ∈ s.added, queryMatches tag criteria e.data = true := by
    intro s hs
    simp only [World.winners, List.mem_filter, Bool.and_eq_true, decide_eq_true_eq,
      List.any_eq_true] at hs
    obtain ⟨hs, ⟨hc, hacc⟩, he⟩ := hs
    obtain ⟨⟨save, hsave, hst, -⟩, -, -⟩ := h.answered s hs
    refine ⟨hs, (stands_iff hsave hc fun e he => ?_).1 (hst hacc), he⟩
    exact h.before_placed hs e (List.mem_append_left _ he)
  rw [← World.winners] at hpair
  rcases hw : w.winners tag criteria q with _ | ⟨s, _ | ⟨s', rest⟩⟩
  · simp
  · simp
  · exfalso
    rw [hw] at hpair hmem
    obtain ⟨hs, hst, e, he, hm⟩ := hmem s (List.mem_cons_self ..)
    obtain ⟨hs', hst', -⟩ := hmem s' (List.mem_cons_of_mem s (List.mem_cons_self ..))
    obtain ⟨new, hnew, habove⟩ := (List.pairwise_cons.1 hpair).1 s' (List.mem_cons_self ..)
    have hplaced : EventsPlaced (s.before ++ (s.added ++ new)) := fun e he =>
      h.before_placed hs' e (List.mem_append_left _ (by rw [hnew, List.append_assoc]; exact he))
    have hmoved := standing_append_iff tag criteria hplaced
      ((h.answered s hs).above.append habove)
    rw [← List.append_assoc, ← hnew, hst, hst'] at hmoved
    rw [hmoved.1 rfl e (List.mem_append_left new he)] at hm
    cases hm

/-- On the queries of the scope, whose matches the backend's lookups and `tag'` agree on, the clients
of a lawful backend are consistent. -/
theorem commandContextConsistency_of_lawful (L : Lawful B tag) {s : B.State} (h : L.Sound s)
    {tag' : Meaning.TagHolds} {scope : List ReadCriterion → Prop}
    (hscope : ∀ criteria, scope criteria → queryMatches tag criteria = queryMatches tag' criteria)
    {actions : List (Action B)}
    (hrun : Transition.run World.step (World.initial s) actions = some w) :
    CommandContextConsistency tag' scope w := by
  have hinv : Inv L w :=
    Transition.run_invariant (fun _ _ _ h hs => inv_step h hs) (inv_initial L h) hrun
  constructor
  · intro s hs i r hi hr hin
    rw [← hscope r.criteria hin]
    exact hinv.accepted_iff hs hi hr
  · intro criteria position hin
    rw [World.winners, ← hscope criteria hin]
    exact hinv.at_most_one criteria position

end Steps

end Orisun
