import Orisun.Proofs.Clients
import Orisun.Proofs.Ledger
import Orisun.Proofs.WriteContext
import Orisun.Provenance

/-!
# The contexts of a recording backend

Every accepted save leaves one write row, and the last of its events lies at the id of it. So the
join of the two tables gives the context of a position exactly if a save was accepted there.
-/

namespace Orisun

/-- An accepted save in the ledger, with the observations it was checked against. -/
structure RecordedSave where
  entry : LedgerEntry
  consistency : List Observation

/-- The rows and the writes are those of the saves. -/
structure Recorded (rows : List LedgerRow) (writes : List WriteRow) (saves : List RecordedSave) :
    Prop where
  ledger : Ledger rows (writes.map WriteRow.writeId) (saves.map RecordedSave.entry)
  writes : writes = saves.map fun s => ⟨s.entry.position.preparePosition, s.consistency⟩
  ids : (rows.map fun row => row.position.preparePosition).Nodup
  fits : ∀ s ∈ saves, s.entry.position.commitPosition < 2 ^ 63 ∧
    0 ≤ s.entry.position.preparePosition ∧ s.entry.position.preparePosition < 2 ^ 63

namespace Recorded

variable {rows : List LedgerRow} {writes : List WriteRow} {saves : List RecordedSave}

variable {s : RecordedSave}

theorem exists_row (h : Recorded rows writes saves) (hs : s ∈ saves) :
    ∃ row ∈ rows, row ∈ s.entry.rows ∧ row.position = s.entry.position := by
  have hplaced := h.ledger.placed s.entry (List.mem_map_of_mem hs)
  obtain ⟨row, hrow, hpos⟩ := Option.map_eq_some_iff.1 hplaced.last
  have hmem := List.mem_of_getLast? hrow
  refine ⟨row, ?_, hmem, hpos⟩
  rw [h.ledger.stored]
  exact List.mem_flatMap.2 ⟨s.entry, List.mem_map_of_mem hs, hmem⟩

theorem nodup_writes (h : Recorded rows writes saves) : (writes.map WriteRow.writeId).Nodup := by
  refine List.nodup_iff_count_le_one.2 fun id => ?_
  by_cases hid : id ∈ writes.map WriteRow.writeId
  · rw [h.ledger.written, List.mem_map] at hid
    obtain ⟨entry, hentry, rfl⟩ := hid
    obtain ⟨s, hs, rfl⟩ := List.mem_map.1 hentry
    obtain ⟨row, hrow, hmem, -⟩ := h.exists_row hs
    rw [← ((h.ledger.placed s.entry hentry).writeId row hmem).1]
    exact (h.ledger.oneWrite row hrow).le
  · rw [List.count_eq_zero_of_not_mem hid]
    exact Nat.zero_le 1

theorem contextRows_append (writes writes' : List WriteRow) (positions : List Position)
    (id : Position) : contextRows (writes ++ writes') positions id
      = contextRows writes positions id ++ contextRows writes' positions id :=
  List.flatMap_append

theorem contextRows_of_ne {id : Position} (h : ∀ w ∈ writes, w.writeId ≠ id.preparePosition)
    (positions : List Position) :
    contextRows writes positions id = [] := by
  refine List.flatMap_eq_nil_iff.2 fun w hw => ?_
  rw [List.map_eq_nil_iff, List.filter_eq_nil_iff]
  intro p _ hjoin
  exact h w hw (of_decide_eq_true hjoin).2.1

theorem contextRows_singleton (h : Recorded rows writes saves) (hs : s ∈ saves) :
    contextRows [⟨s.entry.position.preparePosition, s.consistency⟩] (rows.map LedgerRow.position)
      s.entry.position = [s.consistency] := by
  have hnodup : (rows.map LedgerRow.position).Nodup :=
    List.pairwise_map.2 (h.ledger.ordered.imp fun hlt => hlt.ne)
  obtain ⟨row, hrow, -, hpos⟩ := h.exists_row hs
  have hcount : (rows.map LedgerRow.position).count s.entry.position = 1 :=
    List.count_eq_one_of_mem hnodup (hpos ▸ List.mem_map_of_mem hrow)
  have hat : (rows.map LedgerRow.position).filter (fun p =>
      p.preparePosition = s.entry.position.preparePosition ∧
        s.entry.position.preparePosition = s.entry.position.preparePosition ∧
        p.commitPosition = s.entry.position.commitPosition) = [s.entry.position] := by
    have hfilter := List.filter_eq (l := rows.map LedgerRow.position) s.entry.position
    rw [hcount] at hfilter
    refine Eq.trans (List.filter_congr fun p _ => decide_eq_decide.2 ?_) hfilter
    exact ⟨fun hp => congrArg₂ Position.mk hp.2.2 hp.1, fun hp => by simp [hp]⟩
  unfold contextRows
  rw [List.flatMap_singleton, hat]
  rfl

theorem contextRows_of_mem (h : Recorded rows writes saves) (hs : s ∈ saves) :
    contextRows writes (rows.map LedgerRow.position) s.entry.position = [s.consistency] := by
  have hone := h.contextRows_singleton hs
  have hnodup := h.nodup_writes
  rw [h.writes] at hnodup ⊢
  obtain ⟨before, after, rfl⟩ := List.append_of_mem hs
  rw [List.map_map, List.map_append, List.map_cons, List.nodup_middle, List.nodup_cons,
    ← List.map_append] at hnodup
  have hother : ∀ s' ∈ before ++ after,
      s'.entry.position.preparePosition ≠ s.entry.position.preparePosition :=
    fun s' hs' he => hnodup.1 (List.mem_map.2 ⟨s', hs', he⟩)
  obtain ⟨hbefore, hafter⟩ := List.forall_mem_append.1 hother
  rw [List.map_append, List.map_cons, List.append_cons, contextRows_append, contextRows_append,
    contextRows_of_ne (List.forall_mem_map.2 hbefore), hone,
    contextRows_of_ne (List.forall_mem_map.2 hafter)]
  rfl

theorem contextRows_eq_nil (h : Recorded rows writes saves) {id : Position}
    (hid : ∀ s ∈ saves, s.entry.position ≠ id) :
    contextRows writes (rows.map LedgerRow.position) id = [] := by
  refine List.flatMap_eq_nil_iff.2 fun w hw => ?_
  rw [List.map_eq_nil_iff, List.filter_eq_nil_iff]
  refine List.forall_mem_map.2 fun row hrow hjoin => ?_
  obtain ⟨hrow', hw', hcommit⟩ := of_decide_eq_true hjoin
  rw [h.writes] at hw
  obtain ⟨s, hs, rfl⟩ := List.mem_map.1 hw
  obtain ⟨last, hlast, -, hpos⟩ := h.exists_row hs
  have hsame : last = row := List.inj_on_of_nodup_map h.ids hlast hrow (by rw [hpos, hrow'])
  refine hid s hs ?_
  rw [← hpos, hsame]
  exact congrArg₂ Position.mk hcommit (hrow'.trans hw')

theorem mem_of_commit (h : Recorded rows writes saves) (hs : s ∈ saves) {row : LedgerRow}
    (hrow : row ∈ rows) (hcommit : row.position.commitPosition = s.entry.position.commitPosition) :
    row ∈ s.entry.rows := by
  have hnodup : ((saves.map RecordedSave.entry).map fun e => e.position.commitPosition).Nodup :=
    List.pairwise_map.2 (h.ledger.commits.imp fun hlt => hlt.ne)
  rw [h.ledger.stored] at hrow
  obtain ⟨entry, hentry, hrow⟩ := List.mem_flatMap.1 hrow
  have hsame : entry = s.entry := List.inj_on_of_nodup_map hnodup hentry (List.mem_map_of_mem hs)
    (by rw [← hcommit, (h.ledger.placed entry hentry).commit row hrow])
  exact hsame ▸ hrow

end Recorded

def Answer.position : Answer → Option Position
  | accepted p => some p
  | _ => none

/-- The saves that were accepted, with their positions. -/
def acceptedSaves {σ : Type} (saves : List (σ × Answer)) : List (σ × Position) :=
  saves.filterMap fun s => s.2.position.map fun p => (s.1, p)

def RecordedSave.answer (s : RecordedSave) : List Observation × Position :=
  (s.consistency, s.entry.position)

/-- What a backend keeps of its saves. `query` is the one of `GetWriteContext`. -/
structure Recording (B : Backend) (query : B.State → Position → Option (List Observation)) where
  rows : B.State → List LedgerRow
  writes : B.State → List WriteRow
  observations : B.Save → List Observation
  Keeps : B.State → List RecordedSave → Prop
  recorded : ∀ {s saves}, Keeps s saves → Recorded (rows s) (writes s) saves
  events : ∀ s, B.events s = (rows s).map fun row => ⟨row.position, row.data⟩
  one : ∀ {s id c}, contextRows (writes s) ((rows s).map LedgerRow.position) id = [c] →
    query s id = some c
  none : ∀ {s id}, contextRows (writes s) ((rows s).map LedgerRow.position) id = [] →
    query s id = none
  prepare : ∀ {checks payload save}, B.prepare checks payload = some save →
    observations save = checks.map storedObservation
  execute : ∀ {env s saves s' answers recorded}, Keeps s recorded →
    (∀ save ∈ saves, Prepared save) → B.execute env s saves = some (s', answers) →
      ∃ new, Keeps s' (recorded ++ new) ∧
        acceptedSaves ((saves.map observations).zip answers) = new.map RecordedSave.answer
  rollback : ∀ {s n saves}, Keeps s saves → Keeps (B.rollback n s) saves

variable {B : Backend} {query : B.State → Position → Option (List Observation)}
  {tag : Meaning.TagHolds}

def Call.stored (call : Call B) : List Observation :=
  ((consistencyChecksFromObservations call.consistency).toOption.getD []).map storedObservation

theorem Call.stored_eq {call : Call B} {checks : List ConsistencyCheck}
    (h : consistencyChecksFromObservations call.consistency = .ok checks) :
    call.stored = checks.map storedObservation := by
  unfold Call.stored
  rw [h]
  rfl

theorem Recording.observations_eq (R : Recording B query) {call : Call B} {save : B.Save}
    (h : call.save = some save) : R.observations save = call.stored := by
  obtain ⟨checks, hchecks, hprep⟩ := Call.save_eq_some h
  rw [R.prepare hprep, Call.stored_eq hchecks]

theorem record_calls {final : List Event} : ∀ {batch : List (Call B × Answer)}
    {before : List Event}, (record final before batch).map (fun s => (s.call, s.answer)) = batch
  | [], _ => rfl
  | _ :: _, _ => congrArg _ record_calls

/-- The store is the record of the accepted saves, and so is what a process has executed. -/
structure Kept (R : Recording B query) (w : World B) (saves : List RecordedSave) : Prop where
  store : R.Keeps w.store saves
  saved : acceptedSaves (w.saved.map fun s => (s.call.stored, s.answer))
    = saves.map RecordedSave.answer
  executed : ∀ p batch result answers, w.process p = .executed batch result answers →
    ∃ new, R.Keeps result (saves ++ new) ∧
      acceptedSaves ((batch.map fun c => c.1.stored).zip answers) = new.map RecordedSave.answer

theorem Kept.move {R : Recording B query} {w : World B} {saves : List RecordedSave}
    (h : Kept R w saves) {p : ℕ} {s : Process B}
    (hs : ∀ batch result answers, s ≠ .executed batch result answers) {store : B.State}
    (hstore : R.Keeps store saves) {lock : Option ℕ} {reads : List Read} :
    Kept R { w.setProcess p s with store := store, lock := lock, reads := reads } saves where
  store := hstore
  saved := h.saved
  executed := by
    intro q batch result answers hq
    simp only [World.setProcess] at hq
    rcases eq_or_ne q p with rfl | hne
    · rw [Function.update_self] at hq
      exact absurd hq (hs batch result answers)
    · rw [Function.update_of_ne hne] at hq
      exact h.executed q batch result answers hq

section Steps

variable {L : Lawful B tag} {R : Recording B query} {w : World B} {saves : List RecordedSave}

theorem Kept.execute (h : Kept R w saves) (hinv : Inv L w) {p : ℕ} {env : B.Env}
    {batch : List (Call B × B.Save)} {result : B.State} {answers : List Answer}
    (hp : w.process p = .holding batch)
    (hex : B.execute env w.store (batch.map Prod.snd) = some (result, answers)) :
    Kept R (w.setProcess p (.executed batch result answers)) saves where
  store := h.store
  saved := h.saved
  executed := by
    intro q batch' result' answers' hq
    simp only [World.setProcess] at hq
    rcases eq_or_ne q p with rfl | hne
    · rw [Function.update_self] at hq
      obtain ⟨rfl, rfl, rfl⟩ := Process.executed.inj hq
      have hbatch : ∀ c ∈ batch, c.1.save = some c.2 := fun c hc =>
        (hinv.batch q c (by rw [hp]; exact hc)).1
      have hprepared : ∀ save ∈ batch.map Prod.snd, Prepared save := by
        refine List.forall_mem_map.2 fun c hc => ?_
        obtain ⟨checks, -, hprep⟩ := Call.save_eq_some (hbatch c hc)
        exact ⟨checks, _, hprep⟩
      obtain ⟨new, hkeeps, haccepted⟩ := R.execute h.store hprepared hex
      refine ⟨new, hkeeps, ?_⟩
      have hobs : (batch.map Prod.snd).map R.observations = batch.map fun c => c.1.stored := by
        rw [List.map_map]
        exact List.map_congr_left fun c hc => R.observations_eq (hbatch c hc)
      rwa [hobs] at haccepted
    · rw [Function.update_of_ne hne] at hq
      exact h.executed q batch' result' answers' hq

theorem Kept.commit (h : Kept R w saves) (hinv : Inv L w) {p : ℕ} {batch : List (Call B × B.Save)}
    {result : B.State} {answers : List Answer}
    (hp : w.process p = .executed batch result answers) :
    ∃ new, Kept R { w.setProcess p .committed with
      store := result
      saved := w.saved ++ record (B.events result) (B.events w.store)
        ((batch.map Prod.fst).zip answers) } (saves ++ new) := by
  obtain ⟨new, hkeeps, haccepted⟩ := h.executed p batch result answers hp
  refine ⟨new, hkeeps, ?_, fun q batch' result' answers' hq => ?_⟩
  · have hrecord : (record (B.events result) (B.events w.store)
        ((batch.map Prod.fst).zip answers)).map (fun s => (s.call.stored, s.answer))
        = (batch.map fun c => c.1.stored).zip answers := by
      have hcalls := congrArg (List.map fun x : Call B × Answer => (x.1.stored, x.2))
        (@record_calls B (B.events result) ((batch.map Prod.fst).zip answers) (B.events w.store))
      rw [List.map_map] at hcalls
      refine Eq.trans hcalls ?_
      rw [List.zip_map_left, List.zip_map_left, List.map_map]
      rfl
    have hsaved := h.saved
    unfold acceptedSaves at hsaved haccepted ⊢
    rw [List.map_append, List.filterMap_append, List.map_append, hsaved, hrecord, haccepted]
  · simp only [World.setProcess] at hq
    have hheld : (w.process p).hasLock = true := by
      rw [hp]
      rfl
    rcases eq_or_ne q p with rfl | hne
    · rw [Function.update_self] at hq
      cases hq
    · rw [Function.update_of_ne hne] at hq
      exact absurd (hinv.unique (by rw [hq]; rfl) hheld) hne

theorem kept_step {w' : World B} {a : Action B} (h : Kept R w saves) (hinv : Inv L w)
    (hs : w.step a = some w') : ∃ new, Kept R w' (saves ++ new) := by
  have hsame : ∀ {w' : World B}, Kept R w' saves → ∃ new, Kept R w' (saves ++ new) :=
    fun h => ⟨[], by rwa [List.append_nil]⟩
  cases a with
  | read criteria =>
    obtain ⟨position, -, rfl⟩ := World.read_eq_some hs
    exact hsame ⟨h.store, h.saved, h.executed⟩
  | submit p calls =>
    obtain ⟨batch, -, -, rfl⟩ := World.submit_eq_some hs
    exact hsame (h.move (by simp) h.store)
  | acquire p =>
    obtain ⟨batch, -, -, rfl⟩ := World.acquire_eq_some hs
    exact hsame (h.move (by simp) h.store)
  | execute p env =>
    obtain ⟨batch, result, answers, hp, hex, rfl⟩ := World.execute_eq_some hs
    exact hsame (h.execute hinv hp hex)
  | commit p =>
    obtain ⟨batch, result, answers, hp, rfl⟩ := World.commit_eq_some hs
    exact h.commit hinv hp
  | release p =>
    obtain ⟨-, rfl⟩ := World.release_eq_some hs
    exact hsame (h.move (by simp) h.store)
  | rollback p n =>
    obtain ⟨-, rfl⟩ | ⟨-, rfl⟩ := World.rollback_eq_some hs
    · exact hsame (h.move (by simp) h.store)
    · exact hsame (h.move (by simp) (R.rollback h.store))

theorem kept_of_run {s : B.State} (hsound : L.Sound s) (hstore : R.Keeps s [])
    {actions : List (Action B)}
    (hrun : Transition.run World.step (World.initial s) actions = some w) :
    Inv L w ∧ ∃ saves, Kept R w saves := by
  have hinit : Kept R (World.initial s) [] :=
    ⟨hstore, rfl, fun p batch result answers hp => by simp [World.initial] at hp⟩
  refine Transition.run_invariant (I := fun w => Inv L w ∧ ∃ saves, Kept R w saves)
    (fun w a w' hw hs => ?_) ⟨inv_initial L hsound, [], hinit⟩ hrun
  obtain ⟨hinv, saves, hkept⟩ := hw
  obtain ⟨new, hkept'⟩ := kept_step hkept hinv hs
  exact ⟨inv_step hinv hs, _, hkept'⟩

theorem mem_acceptedSaves {σ : Type} {saves : List (σ × Answer)} {x : σ} {p : Position} :
    (x, p) ∈ acceptedSaves saves ↔ (x, .accepted p) ∈ saves := by
  unfold acceptedSaves
  rw [List.mem_filterMap]
  constructor
  · rintro ⟨⟨y, a⟩, hmem, he⟩
    cases a with
    | accepted q =>
      cases he
      exact hmem
    | conflict => cases he
    | failed => cases he
  · exact fun hmem => ⟨_, hmem, rfl⟩

theorem Kept.exists_recorded (h : Kept R w saves) {s : Saved B} (hs : s ∈ w.saved) {p : Position}
    (hp : s.answer = .accepted p) :
    ∃ r ∈ saves, r.consistency = s.call.stored ∧ r.entry.position = p := by
  have hmem : (s.call.stored, p) ∈ saves.map RecordedSave.answer := by
    rw [← h.saved, mem_acceptedSaves, ← hp]
    exact List.mem_map_of_mem hs
  obtain ⟨r, hr, he⟩ := List.mem_map.1 hmem
  exact ⟨r, hr, congrArg Prod.fst he, congrArg Prod.snd he⟩

variable {r : RecordedSave}

theorem Kept.exists_saved (h : Kept R w saves) (hr : r ∈ saves) :
    ∃ s ∈ w.saved, s.answer = .accepted r.entry.position := by
  have hmem : r.answer ∈ saves.map RecordedSave.answer := List.mem_map_of_mem hr
  rw [← h.saved] at hmem
  obtain ⟨s, hs, he⟩ := List.mem_map.1 (mem_acceptedSaves.1 hmem)
  exact ⟨s, hs, congrArg Prod.snd he⟩

theorem Kept.writeId (h : Kept R w saves) (hr : r ∈ saves) {e : Event}
    (he : e ∈ (Answer.accepted r.entry.position).added (B.events w.store)) :
    e.writeId
      = some (writeIdText r.entry.position.commitPosition r.entry.position.preparePosition) := by
  have hrec := R.recorded h.store
  obtain ⟨hmem, hcommit⟩ := List.mem_filter.1 he
  rw [R.events] at hmem
  obtain ⟨row, hrow, rfl⟩ := List.mem_map.1 hmem
  have hrow' := hrec.mem_of_commit hr hrow (of_decide_eq_true hcommit)
  have hid := ((hrec.ledger.placed r.entry (List.mem_map_of_mem hr)).writeId row hrow').2
  unfold Event.writeId Json.getText?
  rw [hid]

theorem Kept.exists_event (h : Kept R w saves) (hr : r ∈ saves) :
    ∃ e, e ∈ (Answer.accepted r.entry.position).added (B.events w.store) := by
  obtain ⟨row, hrow, -, hpos⟩ := (R.recorded h.store).exists_row hr
  refine ⟨⟨row.position, row.data⟩, List.mem_filter.2 ⟨?_, by simp [hpos]⟩⟩
  rw [R.events]
  exact List.mem_map_of_mem hrow

theorem Kept.getWriteContext_of_mem (h : Kept R w saves) (hr : r ∈ saves)
    {checks : List ConsistencyCheck} (hstored : r.consistency = checks.map storedObservation)
    (hnormal : ∀ check ∈ checks, ∀ c ∈ check.criteria, NormalTags c.tags)
    {registry : String → Option B.State} {boundary : String} (hb : boundary ≠ "")
    (hreg : registry boundary = some w.store) {writeId : String} (hid : writeId
      = writeIdText r.entry.position.commitPosition r.entry.position.preparePosition) :
    getWriteContext registry query ⟨boundary, writeId⟩
      = .ok ⟨writeId, checks.map fun check => .of check.criteria check.position⟩ := by
  have hrec := R.recorded h.store
  obtain ⟨hcommit, hprepare, hprepare'⟩ := hrec.fits r hr
  have hpositive := (hrec.ledger.placed r.entry (List.mem_map_of_mem hr)).positive
  have hvalid : validateWriteContextRequest ⟨boundary, writeId⟩ = .ok r.entry.position := by
    rw [hid]
    exact validateWriteContextRequest_writeIdText hb hpositive.le hcommit hprepare hprepare'
  have hquery := R.one (hrec.contextRows_of_mem hr)
  unfold getWriteContext
  refine Attempt.bind_eq_ok.2 ⟨_, hvalid, ?_⟩
  simp only [hreg, hquery, hstored, decodeWriteContext_stored hnormal]

theorem Kept.getWriteContext_of_forall (h : Kept R w saves) {writeId : String}
    (hid : ∀ r ∈ saves, writeId
      ≠ writeIdText r.entry.position.commitPosition r.entry.position.preparePosition)
    {registry : String → Option B.State} {boundary : String}
    (hreg : registry boundary = some w.store) :
    ∃ e, getWriteContext registry query ⟨boundary, writeId⟩ = .error e ∧ e.isRefusal = true := by
  unfold getWriteContext
  rcases hvalid : validateWriteContextRequest ⟨boundary, writeId⟩ with e | id
  · refine ⟨e, rfl, ?_⟩
    rw [validateWriteContextRequest_error hvalid]
    rfl
  · have hwriteId := validateWriteContextRequest_eq_ok hvalid
    have hne : ∀ r ∈ saves, r.entry.position ≠ id := by
      rintro r hr rfl
      exact hid r hr hwriteId
    have hquery := R.none ((R.recorded h.store).contextRows_eq_nil hne)
    refine ⟨.notFound, ?_, rfl⟩
    simp only [bind, Except.bind, hreg, hquery]

end Steps

theorem writeProvenance_of_recording (L : Lawful B tag) (R : Recording B query) {s : B.State}
    (hsound : L.Sound s) (hstore : R.Keeps s []) {actions : List (Action B)} {w : World B}
    (hrun : Transition.run World.step (World.initial s) actions = some w) :
    WriteProvenance query w := by
  obtain ⟨hinv, saves, hkept⟩ := kept_of_run (L := L) (R := R) hsound hstore hrun
  constructor
  · intro s hs haccepted e he
    rcases hanswer : s.answer with p | _ | _
    · obtain ⟨r, hr, hcons, rfl⟩ := hkept.exists_recorded hs hanswer
      obtain ⟨⟨save, hsave, -⟩, -, -⟩ := hinv.answered s hs
      obtain ⟨checks, hchecks, -⟩ := Call.save_eq_some hsave
      rw [hanswer] at he
      refine ⟨_, checks, hkept.writeId hr he, hchecks, fun registry boundary hb hreg => ?_⟩
      exact hkept.getWriteContext_of_mem hr (hcons.trans (Call.stored_eq hchecks))
        (normalTags_consistencyChecks hchecks) hb hreg rfl
    · simp [hanswer, Answer.isAccepted] at haccepted
    · simp [hanswer, Answer.isAccepted] at haccepted
  · intro writeId hother registry boundary hreg
    refine hkept.getWriteContext_of_forall (fun r hr hid => ?_) hreg
    obtain ⟨s, hs, hanswer⟩ := hkept.exists_saved hr
    obtain ⟨e, he⟩ := hkept.exists_event hr
    refine hother s hs (by rw [hanswer]; rfl) e (by rw [hanswer]; exact he) ?_
    rw [hid]
    exact hkept.writeId hr he

end Orisun
