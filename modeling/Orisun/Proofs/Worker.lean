import Mathlib.Algebra.Order.BigOperators.Group.List
import Orisun.Scheduling

/-!
# One worker and its queue

A worker hands requests on in the order they came in: what it has passed to the executor, what it
holds and what its queue holds is what has arrived, in that order and without what was dropped.
-/

namespace Orisun.GroupCommit

variable {P R : Type}

section History

variable (b : String) (h h' : List (Entry P R))

@[simp] theorem arrivals_append : arrivals b (h ++ h') = arrivals b h ++ arrivals b h' :=
  List.filterMap_append

@[simp] theorem batches_append : batches b (h ++ h') = batches b h ++ batches b h' :=
  List.filterMap_append

@[simp] theorem completed_append : completed (h ++ h') = completed h ++ completed h' :=
  List.filterMap_append

theorem mem_completed {req : ℕ} : req ∈ completed h ↔ ∃ result, .completed req result ∈ h := by
  unfold completed
  rw [List.mem_filterMap]
  constructor
  · rintro ⟨e, he, heq⟩
    rcases e with _ | _ | _ | ⟨req', result⟩
    · cases heq
    · cases heq
    · cases heq
    · cases heq
      exact ⟨result, he⟩
  · rintro ⟨result, he⟩
    exact ⟨_, he, rfl⟩

end History

def withCompletion (history : List (Entry P R)) (req : ℕ) (result : Completion R) :
    List (Entry P R) :=
  if req ∈ completed history then history else history ++ [.completed req result]

section Completion

variable (b : String) (h : List (Entry P R)) (req : ℕ) (result : Completion R)

@[simp] theorem arrivals_withCompletion :
    arrivals b (withCompletion h req result) = arrivals b h := by
  unfold withCompletion
  split_ifs <;> simp [arrivals]

@[simp] theorem batches_withCompletion :
    batches b (withCompletion h req result) = batches b h := by
  unfold withCompletion
  split_ifs <;> simp [batches]

@[simp] theorem endedBatches_withCompletion :
    endedBatches b (withCompletion h req result) = endedBatches b h := by
  unfold withCompletion
  split_ifs <;> simp [endedBatches]

@[simp] theorem allBatches_withCompletion :
    allBatches (withCompletion h req result) = allBatches h := by
  unfold withCompletion
  split_ifs <;> simp [allBatches]

@[simp] theorem mem_completed_withCompletion {i : ℕ} :
    i ∈ completed (withCompletion h req result) ↔ i ∈ completed h ∨ i = req := by
  unfold withCompletion
  split_ifs with hmem
  · refine ⟨.inl, ?_⟩
    rintro (hi | rfl)
    · exact hi
    · exact hmem
  · simp [completed]

theorem subset_withCompletion : ∀ e ∈ h, e ∈ withCompletion h req result := by
  intro e he
  unfold withCompletion
  split_ifs
  · exact he
  · exact List.mem_append_left _ he

end Completion

def Effect.record (boundary : String) (history : List (Entry P R)) :
    Effect P R → List (Entry P R)
  | quiet => history
  | deliver req result => withCompletion history req result
  | call batch prepared => history ++ [.started boundary batch prepared]
  | ended batch outcome => history ++ [.ended boundary batch outcome]

def After.carry : After → List ℕ
  | flushed carry => carry.toList
  | failFast => []

/-- The requests a worker has in hand and has not passed to the executor, in their order. -/
def Worker.held : Worker P R → List ℕ
  | absent => []
  | top carry => carry.toList
  | got req => [req]
  | draining batch => batch
  | drained batch carry => batch ++ carry.toList
  | filtering _ rest live _ carry => live ++ rest ++ carry.toList
  | executing _ _ carry => carry.toList
  | completing _ after => after.carry
  | flushed carry => carry.toList
  | failFast => []
  | exited => []

/-- The requests that are with the executor or about to be sent a completion. -/
def Worker.inFlight : Worker P R → List ℕ
  | executing _ live _ => live
  | completing todo _ => todo.map Prod.fst
  | _ => []

def Worker.running : Worker P R → Option (List ℕ)
  | executing _ live _ => some live
  | _ => none

def Bounded (cfg : Config) (calls : ℕ → Submission P) (batch : List ℕ) : Prop :=
  batch.length ≤ cfg.maxBatchRequests ∧
    (eventCount calls batch ≤ cfg.maxBatchEvents ∨ batch.length = 1)

/-- The requests of a batch have arrived, and are completed apart from those that are left. -/
structure Filtered (b : String) (history : List (Entry P R)) (batch left : List ℕ) : Prop where
  arrived : ∀ i ∈ batch, i ∈ arrivals b history
  sub : ∀ i ∈ left, i ∈ batch
  done : ∀ i ∈ batch, i ∈ completed history ∨ i ∈ left

def Queue.Consistent (cfg : Config) (calls : ℕ → Submission P) (b : String)
    (history : List (Entry P R)) (q : Queue P R) : Prop :=
  match q.worker with
  | .draining batch => Bounded cfg calls batch
  | .drained batch _ => Bounded cfg calls batch
  | .filtering batch rest live prepared _ =>
    Bounded cfg calls (live ++ rest) ∧
      prepared = live.map (fun i => (calls i).prepared) ∧ Filtered b history batch (live ++ rest)
  | .executing batch live _ => Filtered b history batch live
  | .completing todo after =>
    (∀ r ∈ todo, r.1 ∉ after.carry ++ q.buf) ∧
      (∀ i, (i, .error .closed) ∈ todo → i ∉ (batches b history).flatten) ∧
      ∀ i v, (i, .ok v) ∈ todo → Ran history i v
  | _ => True

/-- What holds of a boundary's queue and worker. -/
structure Line (cfg : Config) (calls : ℕ → Submission P) (b : String)
    (history : List (Entry P R)) (q : Queue P R) : Prop where
  order : ((batches b history).flatten ++ (q.worker.held ++ q.buf)).Sublist (arrivals b history)
  nodup : (arrivals b history).Nodup
  positive : ∀ i ∈ arrivals b history, 0 < (calls i).events
  owed : ∀ i ∈ arrivals b history,
    i ∈ completed history ∨ i ∈ q.worker.inFlight ∨ i ∈ q.worker.held ++ q.buf
  inFlight : ∀ i ∈ q.worker.inFlight, i ∈ arrivals b history
  fresh : ∀ i ∈ q.worker.held ++ q.buf, i ∉ completed history
  settled : ∀ batch ∈ batches b history, ∀ i ∈ batch,
    i ∈ completed history ∨ i ∈ q.worker.inFlight
  running : endedBatches b history ++ q.worker.running.toList = batches b history
  consistent : q.Consistent cfg calls b history
  exited : q.worker.isExited = true → q.closed = true ∧ q.buf = []

variable {cfg : Config} {calls : ℕ → Submission P} {b : String} {history : List (Entry P R)}
  {q q' : Queue P R}

variable {history' : List (Entry P R)} {req : ℕ}

theorem Ran.mono {v : R} (h : Ran history req v) (hsub : ∀ e ∈ history, e ∈ history') :
    Ran history' req v := by
  obtain ⟨boundary, batch, outcomes, k, he, hrest⟩ := h
  exact ⟨boundary, batch, outcomes, k, hsub _ he, hrest⟩

variable {i : ℕ}

theorem Line.disjoint (h : Line cfg calls b history q) (hi : i ∈ q.worker.held ++ q.buf) :
    i ∉ (batches b history).flatten := by
  have hnodup := h.order.nodup h.nodup
  exact fun hmem => (List.nodup_append.1 hnodup).2.2 i hmem i hi rfl

theorem Line.mem_arrivals (h : Line cfg calls b history q) (hi : i ∈ q.worker.held ++ q.buf) :
    i ∈ arrivals b history :=
  h.order.subset (List.mem_append_right _ hi)

theorem Line.quiet (h : Line cfg calls b history q) (hidle : q.worker.inFlight = [])
    (heq : q'.worker.inFlight ++ (q'.worker.held ++ q'.buf) = q.worker.held ++ q.buf)
    (hrun : q.worker.running = none) (hrun' : q'.worker.running = none)
    (hcons : q'.Consistent cfg calls b history)
    (hexit : q'.worker.isExited = true → q'.closed = true ∧ q'.buf = []) :
    Line cfg calls b history q' where
  order := by
    refine List.Sublist.trans (List.Sublist.append_left ?_ _) h.order
    rw [← heq]
    exact List.sublist_append_right ..
  nodup := h.nodup
  positive := h.positive
  owed := fun i hi => by
    have hold := h.owed i hi
    rw [hidle, ← heq] at hold
    rcases hold with hi | hi | hi
    · exact .inl hi
    · cases hi
    · exact .inr (List.mem_append.1 hi)
  inFlight := fun i hi => h.mem_arrivals (heq ▸ List.mem_append_left _ hi)
  fresh := fun i hi => h.fresh i (heq ▸ List.mem_append_right _ hi)
  settled := fun batch hbatch i hi => by
    have hold := h.settled batch hbatch i hi
    rw [hidle] at hold
    rcases hold with hi | hi
    · exact .inl hi
    · cases hi
  running := by
    rw [hrun', ← hrun]
    exact h.running
  consistent := hcons
  exited := hexit

theorem Line.deliver (h : Line cfg calls b history q) {result : Completion R}
    (hheld : (q'.worker.held ++ q'.buf).Sublist (q.worker.held ++ q.buf))
    (howed : ∀ i, i ∈ q.worker.inFlight ∨ i ∈ q.worker.held ++ q.buf →
      i = req ∨ i ∈ q'.worker.inFlight ∨ i ∈ q'.worker.held ++ q'.buf)
    (hflight : ∀ i ∈ q.worker.inFlight, i = req ∨ i ∈ q'.worker.inFlight)
    (hsub : ∀ i ∈ q'.worker.inFlight, i ∈ q.worker.inFlight) (hreq : req ∉ q'.worker.held ++ q'.buf)
    (hrun : q'.worker.running = q.worker.running)
    (hcons : q'.Consistent cfg calls b (withCompletion history req result))
    (hexit : q'.worker.isExited = false) :
    Line cfg calls b (withCompletion history req result) q' := by
  refine ⟨?_, by simpa using h.nodup, by simpa using h.positive, ?_, ?_, ?_, ?_, ?_, hcons, ?_⟩
  · rw [arrivals_withCompletion, batches_withCompletion]
    exact List.Sublist.trans (List.Sublist.append_left hheld _) h.order
  · intro i hi
    rw [arrivals_withCompletion] at hi
    rw [mem_completed_withCompletion]
    rcases h.owed i hi with hi | hi
    · exact .inl (.inl hi)
    · rcases howed i hi with rfl | hi
      · exact .inl (.inr rfl)
      · exact .inr hi
  · rw [arrivals_withCompletion]
    exact fun i hi => h.inFlight i (hsub i hi)
  · intro i hi
    rw [mem_completed_withCompletion]
    rintro (hdone | rfl)
    · exact h.fresh i (hheld.subset hi) hdone
    · exact hreq hi
  · rw [batches_withCompletion]
    intro batch hbatch i hi
    rw [mem_completed_withCompletion]
    rcases h.settled batch hbatch i hi with hi | hi
    · exact .inl (.inl hi)
    · rcases hflight i hi with rfl | hi
      · exact .inl (.inr rfl)
      · exact .inr hi
  · rw [endedBatches_withCompletion, batches_withCompletion, hrun]
    exact h.running
  · rw [hexit]
    intro hfalse
    cases hfalse

theorem eventCount_le {live batch : List ℕ} (hsub : live.Sublist batch)
    (hpos : ∀ i ∈ batch, 0 < (calls i).events) : eventCount calls live ≤ eventCount calls batch := by
  unfold eventCount
  refine (hsub.map _).sum_le_sum fun x hx => ?_
  obtain ⟨i, hi, rfl⟩ := List.mem_map.1 hx
  exact (hpos i hi).le

theorem Bounded.sublist {live batch : List ℕ} (h : Bounded cfg calls batch)
    (hsub : live.Sublist batch) (hpos : ∀ i ∈ batch, 0 < (calls i).events) :
    Bounded cfg calls live := by
  refine ⟨hsub.length_le.trans h.1, ?_⟩
  rcases h.2 with hle | hone
  · exact .inl ((eventCount_le hsub hpos).trans hle)
  · rcases live with _ | ⟨i, live⟩
    · exact .inl (by simp [eventCount])
    · have hle := hsub.length_le
      rw [List.length_cons] at hle ⊢
      exact .inr (by omega)

section Call

variable {batch live : List ℕ} {prepared : List P} {carry : Option ℕ}

theorem Line.call (h : Line cfg calls b history q)
    (hw : q.worker = .filtering batch [] live prepared carry) :
    Line cfg calls b (history ++ [.started b live prepared])
      { q with worker := .executing batch live carry } := by
  have hcons := h.consistent
  unfold Queue.Consistent at hcons
  rw [hw] at hcons
  obtain ⟨-, -, hall⟩ := hcons
  have hheld : q.worker.held = live ++ carry.toList := by simp [hw, Worker.held]
  have hflight : q.worker.inFlight = [] := by simp [hw, Worker.inFlight]
  have harr : arrivals b (history ++ [.started b live prepared]) = arrivals b history := by
    simp [arrivals]
  have hbat : batches b (history ++ [.started b live prepared]) = batches b history ++ [live] := by
    simp [batches]
  have hcomp : completed (history ++ [.started b live prepared]) = completed history := by
    simp [completed]
  refine ⟨?_, harr ▸ h.nodup, harr ▸ h.positive, ?_, ?_, ?_, ?_, ?_, ?_, by simp [Worker.isExited]⟩
  · have horder := h.order
    rw [hheld] at horder
    rw [harr, hbat]
    simpa [Worker.held, List.append_assoc] using horder
  · intro i hi
    rw [harr] at hi
    have howed := h.owed i hi
    rw [hflight, hheld] at howed
    rw [hcomp]
    simp only [Worker.inFlight, Worker.held, List.mem_append] at howed ⊢
    tauto
  · intro i hi
    rw [harr]
    refine h.mem_arrivals (List.mem_append_left _ ?_)
    rw [hheld]
    exact List.mem_append_left _ hi
  · intro i hi
    rw [hcomp]
    refine h.fresh i ?_
    rw [hheld, List.append_assoc]
    exact List.mem_append_right _ hi
  · intro batch' hbatch' i hi
    rw [hcomp]
    rw [hbat] at hbatch'
    rcases List.mem_append.1 hbatch' with hold | hnew
    · have hset := h.settled batch' hold i hi
      rw [hflight] at hset
      exact .inl (hset.resolve_right (by simp))
    · rw [List.mem_singleton.1 hnew] at hi
      exact .inr hi
  · have hrun := h.running
    rw [hw] at hrun
    rw [hbat, ← hrun]
    simp [endedBatches, Worker.running]
  · rw [List.append_nil] at hall
    exact ⟨harr.symm ▸ hall.arrived, hall.sub, hcomp.symm ▸ hall.done⟩

theorem Line.call_orderly (h : Line cfg calls b history q)
    (hw : q.worker = .filtering batch [] live prepared carry) :
    Orderly cfg calls history (.started b live prepared) := by
  have hcons := h.consistent
  unfold Queue.Consistent at hcons
  rw [hw] at hcons
  obtain ⟨hbound, hprep, -⟩ := hcons
  rw [List.append_nil] at hbound
  refine ⟨hbound.1, hbound.2, hprep, ?_, fun earlier hearlier req hreq => ?_⟩
  · have hrun := h.running
    rw [hw] at hrun
    simpa [Worker.running] using hrun
  · have hset := h.settled earlier hearlier req hreq
    rw [hw] at hset
    exact hset.resolve_right (by simp [Worker.inFlight])

variable {outcome : Outcome R}

theorem mem_completions {r : ℕ × Completion R} (h : r ∈ completions batch live outcome) :
    r.1 ∈ batch ∨ r.1 ∈ live := by
  unfold completions failAll at h
  split at h
  · obtain ⟨i, hi, rfl⟩ := List.mem_map.1 h
    exact .inl hi
  · obtain ⟨i, hi, rfl⟩ := List.mem_map.1 h
    exact .inr hi
  · split_ifs at h
    · obtain ⟨i, hi, rfl⟩ := List.mem_map.1 h
      exact .inr hi
    · exact .inr (List.of_mem_zip h).1

variable {i : ℕ}

theorem completions_complete (hsub : ∀ i ∈ live, i ∈ batch) (outcome : Outcome R) (hi : i ∈ live) :
    i ∈ (completions batch live outcome).map Prod.fst := by
  have hfail : ∀ (ids : List ℕ) (e : SubmitError), i ∈ ids →
      i ∈ (failAll ids e : List (ℕ × Completion R)).map Prod.fst := by
    intro ids e hmem
    simpa [failAll] using hmem
  unfold completions
  split
  · exact hfail _ _ (hsub i hi)
  · exact hfail _ _ hi
  · split_ifs with hlen
    · exact hfail _ _ hi
    · rw [List.map_fst_zip (by rw [List.length_map]; omega)]
      exact hi

theorem completions_ne_closed :
    (i, .error .closed) ∉ completions batch live outcome := by
  unfold completions failAll
  split
  · simp
  · simp
  · split_ifs
    · simp
    · intro h
      obtain ⟨v, -, hv⟩ := List.mem_map.1 (List.of_mem_zip h).2
      cases hv

theorem completions_ok {v : R} (h : (i, .ok v) ∈ completions batch live outcome) :
    ∃ outcomes, outcome = .returned outcomes ∧
      outcomes.length = live.length ∧ ∃ k : ℕ, live[k]? = some i ∧ outcomes[k]? = some v := by
  unfold completions failAll at h
  split at h
  · simp at h
  · simp at h
  · rename_i outcomes
    split_ifs at h with hlen
    · simp at h
    · obtain ⟨k, hk⟩ := List.mem_iff_getElem?.1 h
      obtain ⟨hi, hv⟩ := List.getElem?_zip_eq_some.1 hk
      rw [List.getElem?_map, Option.map_eq_some_iff] at hv
      obtain ⟨v', hv', heq⟩ := hv
      cases heq
      exact ⟨outcomes, rfl, by omega, k, hi, hv'⟩

theorem Line.ended (h : Line cfg calls b history q) (hw : q.worker = .executing batch live carry)
    (outcome : Outcome R) : Line cfg calls b (history ++ [.ended b live outcome])
      { q with worker := .completing (completions batch live outcome) (.flushed carry) } := by
  have hcons := h.consistent
  unfold Queue.Consistent at hcons
  rw [hw] at hcons
  obtain ⟨harrived, hsub, hall⟩ := hcons
  have hheld : q.worker.held = carry.toList := by simp [hw, Worker.held]
  have hflight : q.worker.inFlight = live := by simp [hw, Worker.inFlight]
  have hrun : endedBatches b history ++ [live] = batches b history := by
    have hrun := h.running
    rwa [hw] at hrun
  have harr : arrivals b (history ++ [.ended b live outcome]) = arrivals b history := by
    simp [arrivals]
  have hbat : batches b (history ++ [.ended b live outcome]) = batches b history := by
    simp [batches]
  have hcomp : completed (history ++ [.ended b live outcome]) = completed history := by
    simp [completed]
  have hlive : ∀ i ∈ live, i ∈ (batches b history).flatten := fun i hi =>
    List.mem_flatten.2 ⟨live, hrun ▸ List.mem_append_right _ (List.mem_singleton_self _), hi⟩
  have hfree : ∀ r ∈ completions batch live outcome, r.1 ∉ carry.toList ++ q.buf := by
    intro r hr hmem
    rw [← hheld] at hmem
    rcases mem_completions hr with hi | hi
    · rcases hall r.1 hi with hdone | hi
      · exact h.fresh r.1 hmem hdone
      · exact h.disjoint hmem (hlive r.1 hi)
    · exact h.disjoint hmem (hlive r.1 hi)
  refine ⟨?_, harr ▸ h.nodup, harr ▸ h.positive, ?_, ?_, ?_, ?_, ?_, ?_, by simp [Worker.isExited]⟩
  · have horder := h.order
    rw [hheld] at horder
    rwa [harr, hbat]
  · intro i hi
    rw [harr] at hi
    rw [hcomp]
    have howed := h.owed i hi
    rw [hflight, hheld] at howed
    exact howed.imp_right (.imp_left (completions_complete hsub outcome))
  · intro i hi
    rw [harr]
    obtain ⟨r, hr, rfl⟩ := List.mem_map.1 hi
    rcases mem_completions hr with hi | hi
    · exact harrived _ hi
    · exact harrived _ (hsub _ hi)
  · intro i hi
    rw [hcomp]
    refine h.fresh i ?_
    rw [hheld]
    exact hi
  · intro batch' hbatch' i hi
    rw [hbat] at hbatch'
    rw [hcomp]
    have hset := h.settled batch' hbatch' i hi
    rw [hflight] at hset
    exact hset.imp_right (completions_complete hsub outcome)
  · rw [hbat, ← hrun]
    simp [endedBatches, Worker.running]
  · refine ⟨hfree, fun i hi => absurd hi completions_ne_closed, fun i v hi => ?_⟩
    obtain ⟨outcomes, rfl, hlen, k, hk, hv⟩ := completions_ok hi
    exact ⟨b, live, outcomes, k, List.mem_append_right _ (List.mem_singleton_self _), hlen, hk, hv⟩

theorem Line.ended_orderly (h : Line cfg calls b history q)
    (hw : q.worker = .executing batch live carry) (outcome : Outcome R) :
    Orderly cfg calls history (.ended b live outcome) := by
  have hrun := h.running
  rw [hw] at hrun
  exact hrun.symm

end Call

@[simp] theorem map_fst_failAll (ids : List ℕ) (e : SubmitError) :
    (failAll ids e : List (ℕ × Completion R)).map Prod.fst = ids := by
  simp [failAll, Function.comp_def]

theorem Line.fail (h : Line cfg calls b history q) {ids : List ℕ} (hidle : q.worker.inFlight = [])
    (hrun : q.worker.running = none)
    (hw : q'.worker = .completing (failAll ids .closed) .failFast)
    (heq : ids ++ q'.buf = q.worker.held ++ q.buf) : Line cfg calls b history q' := by
  refine h.quiet hidle (by simpa [hw, Worker.inFlight, Worker.held, After.carry] using heq) hrun
    (by rw [hw]; rfl) ?_ (by simp [hw, Worker.isExited])
  have hnodup : (ids ++ q'.buf).Nodup := by
    rw [heq]
    exact (List.sublist_append_right ..).nodup (h.order.nodup h.nodup)
  unfold Queue.Consistent
  rw [hw]
  refine ⟨fun r hr => ?_, fun i hi => ?_, fun i v hi => ?_⟩
  · obtain ⟨i, hi, rfl⟩ := List.mem_map.1 hr
    exact fun hmem => (List.nodup_append.1 hnodup).2.2 i hi i hmem rfl
  · obtain ⟨j, hj, he⟩ := List.mem_map.1 hi
    obtain rfl := (Prod.mk.inj he).1
    exact h.disjoint (heq ▸ List.mem_append_left _ hj)
  · obtain ⟨j, -, he⟩ := List.mem_map.1 hi
    cases (Prod.mk.inj he).2

theorem Line.drop (h : Line cfg calls b history q) {batch rest live : List ℕ} {prepared : List P}
    {carry : Option ℕ} (hw : q.worker = .filtering batch (req :: rest) live prepared carry)
    (result : Completion R) : Line cfg calls b (withCompletion history req result)
      { q with worker := .filtering batch rest live prepared carry } := by
  have hcons := h.consistent
  unfold Queue.Consistent at hcons
  rw [hw] at hcons
  obtain ⟨hbound, hprep, hfilt⟩ := hcons
  have hheld : q.worker.held ++ q.buf = live ++ req :: (rest ++ carry.toList ++ q.buf) := by
    simp [hw, Worker.held]
  have hnodup : (live ++ req :: (rest ++ carry.toList ++ q.buf)).Nodup := by
    rw [← hheld]
    exact (List.sublist_append_right ..).nodup (h.order.nodup h.nodup)
  have hsub : (live ++ rest).Sublist (live ++ req :: rest) :=
    List.Sublist.append_left (List.sublist_cons_self ..) _
  refine h.deliver ?_ ?_ ?_ ?_ ?_ ?_ ⟨?_, hprep, ?_⟩ rfl
  · rw [hheld]
    simp [Worker.held]
  · intro i hi
    rw [hheld] at hi
    simp only [hw, Worker.inFlight, List.not_mem_nil, false_or, List.mem_append, List.mem_cons,
      Worker.held] at hi ⊢
    tauto
  · simp [hw, Worker.inFlight]
  · simp [Worker.inFlight]
  · obtain ⟨-, hright, hdisj⟩ := List.nodup_append.1 hnodup
    have hlive : req ∉ live := fun hmem => hdisj req hmem req (List.mem_cons_self ..) rfl
    have hrest := (List.nodup_cons.1 hright).1
    simp only [Worker.held, List.mem_append, not_or] at hrest ⊢
    exact ⟨⟨⟨hlive, hrest.1.1⟩, hrest.1.2⟩, hrest.2⟩
  · rw [hw]
    rfl
  · refine hbound.sublist hsub fun i hi => h.positive i (h.mem_arrivals ?_)
    rw [hheld]
    simp only [List.mem_append, List.mem_cons] at hi ⊢
    tauto
  · refine ⟨by simpa using hfilt.arrived, fun i hi => hfilt.sub i (hsub.subset hi), fun i hi => ?_⟩
    have hdone := hfilt.done i hi
    rw [mem_completed_withCompletion]
    simp only [List.mem_append, List.mem_cons] at hdone ⊢
    tauto

theorem Line.complete (h : Line cfg calls b history q) {todo : List (ℕ × Completion R)}
    {after : After} {result : Completion R}
    (hw : q.worker = .completing ((req, result) :: todo) after) :
    Line cfg calls b (withCompletion history req result)
      { q with worker := .completing todo after } := by
  have hcons := h.consistent
  unfold Queue.Consistent at hcons
  rw [hw] at hcons
  obtain ⟨hfree, hclosed, hok⟩ := hcons
  refine h.deliver ?_ ?_ ?_ ?_ ?_ ?_ ⟨?_, ?_, ?_⟩ rfl
  · simp [hw, Worker.held]
  · intro i hi
    simpa [hw, Worker.inFlight, Worker.held, or_assoc] using hi
  · intro i hi
    simpa [hw, Worker.inFlight] using hi
  · intro i hi
    rw [hw]
    exact List.mem_cons_of_mem _ hi
  · exact hfree (req, result) (List.mem_cons_self ..)
  · rw [hw]
    rfl
  · exact fun r hr => hfree r (List.mem_cons_of_mem _ hr)
  · rw [batches_withCompletion]
    exact fun i hi => hclosed i (List.mem_cons_of_mem _ hi)
  · exact fun i v hi => (hok i v (List.mem_cons_of_mem _ hi)).mono (subset_withCompletion _ _ _)

theorem Line.drain (h : Line cfg calls b history q) {batch : List ℕ}
    (hw : q.worker = .draining batch) :
    Line cfg calls b history { q with worker := .drained batch none } := by
  have hcons := h.consistent
  unfold Queue.Consistent at hcons
  rw [hw] at hcons
  exact h.quiet (by rw [hw]; rfl) (by simp [hw, Worker.inFlight, Worker.held])
    (by rw [hw]; rfl) rfl hcons (by simp [Worker.isExited])

variable {closed : Bool} {contexts : ℕ → Option ContextError} {eff : Effect P R}

theorem Line.proceed (h : Line cfg calls b history q)
    (hs : q.proceed cfg calls closed contexts = some (q', eff)) :
    Line cfg calls b (eff.record b history) q' := by
  unfold Queue.proceed at hs
  split at hs
  case h_1 req hw =>
    cases hs
    exact h.quiet (by rw [hw]; rfl) (by simp [hw, Worker.inFlight, Worker.held])
      (by rw [hw]; rfl) rfl trivial (by simp [Worker.isExited])
  case h_2 req hw =>
    cases hs
    cases closed
    · refine h.quiet (by rw [hw]; rfl) (by simp [hw, Worker.inFlight, Worker.held])
        (by rw [hw]; rfl) rfl ?_ (by simp [Worker.isExited])
      exact ⟨cfg.requests_pos, .inr rfl⟩
    · exact h.fail (by rw [hw]; rfl) (by rw [hw]; rfl) rfl (by simp [hw, Worker.held])
  case h_3 batch hw =>
    split_ifs at hs with hd
    cases hs
    exact h.drain hw
  case h_4 batch carry hw =>
    cases hs
    cases closed
    · have hcons := h.consistent
      unfold Queue.Consistent at hcons
      rw [hw] at hcons
      refine h.quiet (by rw [hw]; rfl) (by simp [hw, Worker.inFlight, Worker.held])
        (by rw [hw]; rfl) rfl ⟨hcons, rfl, fun i hi => ?_, fun i hi => hi, fun i hi => .inr hi⟩
        (by simp [Worker.isExited])
      refine h.mem_arrivals ?_
      simp [hw, Worker.held, hi]
    · exact h.fail (by rw [hw]; rfl) (by rw [hw]; rfl) rfl (by simp [hw, Worker.held])
  case h_5 batch req rest live prepared carry hw =>
    have hcons := h.consistent
    unfold Queue.Consistent at hcons
    rw [hw] at hcons
    obtain ⟨hbound, hprep, hfilt⟩ := hcons
    split at hs
    · cases hs
      exact h.drop hw _
    · cases hs
      have happ : live ++ [req] ++ rest = live ++ req :: rest := by simp
      refine h.quiet (by rw [hw]; rfl) (by simp [hw, Worker.inFlight, Worker.held])
        (by rw [hw]; rfl) rfl ?_ (by simp [Worker.isExited])
      refine ⟨happ ▸ hbound, ?_, happ ▸ hfilt⟩
      rw [hprep, List.map_append, List.map_singleton]
  case h_6 batch live prepared carry hw =>
    split_ifs at hs with hne
    · cases hs
      exact h.quiet (by rw [hw]; rfl) (by simp [hw, hne, Worker.inFlight, Worker.held])
        (by rw [hw]; rfl) rfl trivial (by simp [Worker.isExited])
    · cases hs
      exact h.call hw
  case h_7 req result todo after hw =>
    cases hs
    exact h.complete hw
  case h_8 carry hw =>
    cases hs
    exact h.quiet (by rw [hw]; rfl) (by simp [hw, Worker.inFlight, Worker.held, After.carry])
      (by rw [hw]; rfl) rfl trivial (by simp [Worker.isExited])
  case h_9 hw =>
    cases hs
    exact h.quiet (by rw [hw]; rfl) (by simp [hw, Worker.inFlight, Worker.held, After.carry])
      (by rw [hw]; rfl) rfl trivial (by simp [Worker.isExited])
  case h_10 carry hw =>
    cases hs
    cases closed
    · exact h.quiet (by rw [hw]; rfl) (by simp [hw, Worker.inFlight, Worker.held])
        (by rw [hw]; rfl) rfl trivial (by simp [Worker.isExited])
    · exact h.fail (by rw [hw]; rfl) (by rw [hw]; rfl) rfl (by simp [hw, Worker.held])
  case h_11 => cases hs

theorem Line.receive (h : Line cfg calls b history q) (hs : q.receive cfg calls = some q') :
    Line cfg calls b history q' := by
  have hcons := h.consistent
  unfold Queue.Consistent at hcons
  unfold Queue.receive at hs
  split at hs
  case h_1 req buf hw hbuf =>
    cases hs
    exact h.quiet (by rw [hw]; rfl) (by simp [hw, hbuf, Worker.inFlight, Worker.held])
      (by rw [hw]; rfl) rfl trivial (by simp [Worker.isExited])
  case h_2 hw hbuf =>
    split_ifs at hs with hclosed
    cases hs
    exact h.quiet (by rw [hw]; rfl) (by simp [hw, Worker.inFlight, Worker.held])
      (by rw [hw]; rfl) rfl trivial fun _ => ⟨hclosed, hbuf⟩
  case h_3 batch req buf hw hbuf =>
    rw [hw] at hcons
    by_cases hd : Drains cfg calls batch
    · rw [if_pos hd] at hs
      cases hs
      by_cases hfull : eventCount calls batch + (calls req).events > cfg.maxBatchEvents
      · rw [if_pos hfull]
        exact h.quiet (by rw [hw]; rfl) (by simp [hw, hbuf, Worker.inFlight, Worker.held])
          (by rw [hw]; rfl) rfl hcons (by simp [Worker.isExited])
      · rw [if_neg hfull]
        refine h.quiet (by rw [hw]; rfl) (by simp [hw, hbuf, Worker.inFlight, Worker.held])
          (by rw [hw]; rfl) rfl ⟨?_, .inl ?_⟩ (by simp [Worker.isExited])
        · rw [List.length_append]
          exact hd.1
        · simpa [eventCount] using hfull
    · rw [if_neg hd] at hs
      cases hs
  case h_4 batch hw hbuf =>
    split_ifs at hs with hd
    exact Option.some.inj hs ▸ h.drain hw
  case h_5 req buf hw hbuf =>
    cases hs
    exact h.fail (by rw [hw]; rfl) (by rw [hw]; rfl) rfl (by simp [hw, hbuf, Worker.held])
  case h_6 hw hbuf =>
    split_ifs at hs with hclosed
    cases hs
    exact h.quiet (by rw [hw]; rfl) (by simp [hw, Worker.inFlight, Worker.held])
      (by rw [hw]; rfl) rfl trivial fun _ => ⟨hclosed, hbuf⟩
  case h_7 => cases hs

theorem Line.step (h : Line cfg calls b history q) {a : WorkerAction R}
    (hs : q.step cfg calls closed contexts a = some (q', eff)) :
    Line cfg calls b (eff.record b history) q' := by
  cases a with
  | proceed => exact h.proceed hs
  | receive =>
    obtain ⟨q1, hq, he⟩ := Option.map_eq_some_iff.1 hs
    cases he
    exact h.receive hq
  | stop =>
    obtain ⟨q1, hq, he⟩ := Option.map_eq_some_iff.1 hs
    cases he
    unfold Queue.stop at hq
    split at hq
    · rename_i batch hw
      split_ifs at hq
      exact Option.some.inj hq ▸ h.drain hw
    · cases hq
  | sawClosed =>
    simp only [Queue.step] at hs
    split_ifs at hs
    obtain ⟨q1, hq, he⟩ := Option.map_eq_some_iff.1 hs
    cases he
    unfold Queue.sawClosed at hq
    split at hq
    · rename_i hw
      cases hq
      exact h.quiet (by rw [hw]; rfl) (by simp [hw, Worker.inFlight, Worker.held])
        (by rw [hw]; rfl) rfl trivial (by simp [Worker.isExited])
    · rename_i batch hw
      split_ifs at hq
      exact Option.some.inj hq ▸ h.drain hw
    · cases hq
  | executed outcome =>
    change q.executed outcome = _ at hs
    unfold Queue.executed at hs
    split at hs
    · rename_i batch live carry hw
      cases hs
      exact h.ended hw outcome
    · cases hs

def Effect.Sound (cfg : Config) (calls : ℕ → Submission P) (b : String)
    (history : List (Entry P R)) : Effect P R → Prop
  | quiet => True
  | deliver req result => req ∈ arrivals b history ∧
      (result = .error .closed → req ∉ (batches b history).flatten) ∧
      ∀ v, result = .ok v → Ran history req v
  | call batch prepared => Orderly cfg calls history (.started b batch prepared) ∧ batch.Nodup ∧
      ∀ i ∈ batch, i ∈ arrivals b history ∧ i ∉ completed history ∧
        i ∉ (batches b history).flatten
  | ended batch outcome => Orderly cfg calls history (.ended b batch outcome)

theorem Line.proceed_sound (h : Line cfg calls b history q)
    (hs : q.proceed cfg calls closed contexts = some (q', eff)) :
    eff.Sound cfg calls b history := by
  unfold Queue.proceed at hs
  split at hs
  case h_1 => exact (Prod.mk.inj (Option.some.inj hs)).2 ▸ trivial
  case h_2 => exact (Prod.mk.inj (Option.some.inj hs)).2 ▸ trivial
  case h_3 =>
    split_ifs at hs
    exact (Prod.mk.inj (Option.some.inj hs)).2 ▸ trivial
  case h_4 => exact (Prod.mk.inj (Option.some.inj hs)).2 ▸ trivial
  case h_5 batch req rest live prepared carry hw =>
    split at hs
    · obtain ⟨-, rfl⟩ := Prod.mk.inj (Option.some.inj hs)
      refine ⟨h.mem_arrivals ?_, by simp, by simp⟩
      simp [hw, Worker.held]
    · exact (Prod.mk.inj (Option.some.inj hs)).2 ▸ trivial
  case h_6 batch live prepared carry hw =>
    split_ifs at hs
    · exact (Prod.mk.inj (Option.some.inj hs)).2 ▸ trivial
    · obtain ⟨-, rfl⟩ := Prod.mk.inj (Option.some.inj hs)
      have hheld : ∀ i ∈ live, i ∈ q.worker.held ++ q.buf := fun i hi => by
        simp [hw, Worker.held, hi]
      have hsub : live.Sublist (q.worker.held ++ q.buf) := by
        simp [hw, Worker.held]
      have hnodup := h.order.nodup h.nodup
      refine ⟨h.call_orderly hw, hsub.nodup ((List.sublist_append_right ..).nodup hnodup),
        fun i hi => ⟨h.mem_arrivals (hheld i hi), h.fresh i (hheld i hi), h.disjoint (hheld i hi)⟩⟩
  case h_7 req result todo after hw =>
    obtain ⟨-, rfl⟩ := Prod.mk.inj (Option.some.inj hs)
    have hcons := h.consistent
    unfold Queue.Consistent at hcons
    rw [hw] at hcons
    refine ⟨h.inFlight req (by simp [hw, Worker.inFlight]), ?_, ?_⟩
    · rintro rfl
      exact hcons.2.1 req (List.mem_cons_self ..)
    · rintro v rfl
      exact hcons.2.2 req v (List.mem_cons_self ..)
  case h_8 => exact (Prod.mk.inj (Option.some.inj hs)).2 ▸ trivial
  case h_9 => exact (Prod.mk.inj (Option.some.inj hs)).2 ▸ trivial
  case h_10 => exact (Prod.mk.inj (Option.some.inj hs)).2 ▸ trivial
  case h_11 => cases hs

theorem Line.sound (h : Line cfg calls b history q) {a : WorkerAction R}
    (hs : q.step cfg calls closed contexts a = some (q', eff)) : eff.Sound cfg calls b history := by
  cases a with
  | proceed => exact h.proceed_sound hs
  | receive =>
    obtain ⟨q1, -, he⟩ := Option.map_eq_some_iff.1 hs
    exact (Prod.mk.inj he).2 ▸ trivial
  | stop =>
    obtain ⟨q1, -, he⟩ := Option.map_eq_some_iff.1 hs
    exact (Prod.mk.inj he).2 ▸ trivial
  | sawClosed =>
    simp only [Queue.step] at hs
    split_ifs at hs
    obtain ⟨q1, -, he⟩ := Option.map_eq_some_iff.1 hs
    exact (Prod.mk.inj he).2 ▸ trivial
  | executed outcome =>
    change q.executed outcome = _ at hs
    unfold Queue.executed at hs
    split at hs
    · rename_i batch live carry hw
      obtain ⟨-, rfl⟩ := Prod.mk.inj (Option.some.inj hs)
      exact h.ended_orderly hw outcome
    · cases hs

theorem Queue.Consistent.mono (h : q.Consistent cfg calls b history) (hw : q'.worker = q.worker)
    (harr : ∀ i ∈ arrivals b history, i ∈ arrivals b history')
    (hbat : batches b history' = batches b history)
    (hcomp : ∀ i ∈ completed history, i ∈ completed history') (hsub : ∀ e ∈ history, e ∈ history')
    (hbuf : ∀ i ∈ q.worker.inFlight, i ∈ q'.buf → i ∈ q.buf) :
    q'.Consistent cfg calls b history' := by
  have hfilt : ∀ batch left, Filtered b history batch left → Filtered b history' batch left :=
    fun batch left hf => ⟨fun i hi => harr i (hf.arrived i hi), hf.sub,
      fun i hi => (hf.done i hi).imp_left (hcomp i)⟩
  unfold Queue.Consistent at h ⊢
  rw [hw]
  split at h
  · exact h
  · exact h
  · exact ⟨h.1, h.2.1, hfilt _ _ h.2.2⟩
  · exact hfilt _ _ h
  · rename_i todo after hq
    refine ⟨fun r hr hmem => h.1 r hr ?_, hbat.symm ▸ h.2.1, fun i v hi => (h.2.2 i v hi).mono hsub⟩
    rcases List.mem_append.1 hmem with hmem | hmem
    · exact List.mem_append_left _ hmem
    · refine List.mem_append_right _ (hbuf r.1 ?_ hmem)
      rw [hq]
      exact List.mem_map_of_mem hr
  · trivial

theorem Line.other (h : Line cfg calls b history q)
    (harr : arrivals b history' = arrivals b history)
    (hbat : batches b history' = batches b history)
    (hend : endedBatches b history' = endedBatches b history)
    (hcomp : ∀ i ∈ completed history, i ∈ completed history')
    (hnew : ∀ i ∈ arrivals b history, i ∈ completed history' → i ∈ completed history)
    (hsub : ∀ e ∈ history, e ∈ history') : Line cfg calls b history' q where
  order := by rw [harr, hbat]; exact h.order
  nodup := harr ▸ h.nodup
  positive := harr ▸ h.positive
  owed := fun i hi => (h.owed i (harr ▸ hi)).imp_left (hcomp i)
  inFlight := fun i hi => harr ▸ h.inFlight i hi
  fresh := fun i hi hdone => h.fresh i hi (hnew i (h.mem_arrivals hi) hdone)
  settled := fun batch hbatch i hi => (h.settled batch (hbat ▸ hbatch) i hi).imp_left (hcomp i)
  running := by rw [hend, hbat]; exact h.running
  consistent := h.consistent.mono rfl (harr ▸ fun _ hi => hi) hbat hcomp hsub fun _ _ hi => hi
  exited := h.exited

theorem Line.arrive (h : Line cfg calls b history q) (hopen : q.closed = false)
    (hpos : 0 < (calls i).events) (hnew : i ∉ arrivals b history) (hdone : i ∉ completed history) :
    Line cfg calls b (history ++ [.arrived b i]) { q with buf := q.buf ++ [i] } := by
  have harr : arrivals b (history ++ [.arrived b i]) = arrivals b history ++ [i] := by
    simp [arrivals]
  have hbat : batches b (history ++ [.arrived b i]) = batches b history := by simp [batches]
  have hend : endedBatches b (history ++ [.arrived b i]) = endedBatches b history := by
    simp [endedBatches]
  have hcomp : completed (history ++ [.arrived b i]) = completed history := by simp [completed]
  refine ⟨?_, ?_, ?_, ?_, ?_, ?_, ?_, ?_, ?_, ?_⟩
  · rw [harr, hbat, ← List.append_assoc q.worker.held, ← List.append_assoc]
    exact h.order.append (List.Sublist.refl _)
  · rw [harr, List.nodup_append]
    refine ⟨h.nodup, List.pairwise_singleton .., fun j hj k hk => ?_⟩
    rintro rfl
    exact hnew (List.mem_singleton.1 hk ▸ hj)
  · rw [harr]
    exact List.forall_mem_append.2 ⟨h.positive, by simpa using hpos⟩
  · rw [harr, hcomp]
    intro j hj
    rcases List.mem_append.1 hj with hj | hj
    · refine (h.owed j hj).imp_right (.imp_right fun hmem => ?_)
      rw [← List.append_assoc]
      exact List.mem_append_left _ hmem
    · exact .inr (.inr (List.mem_append_right _ (List.mem_append_right _ hj)))
  · rw [harr]
    exact fun j hj => List.mem_append_left _ (h.inFlight j hj)
  · rw [hcomp, ← List.append_assoc]
    refine List.forall_mem_append.2 ⟨h.fresh, ?_⟩
    simpa using hdone
  · rw [hbat, hcomp]
    exact h.settled
  · rw [hend, hbat]
    exact h.running
  · refine h.consistent.mono rfl (fun j hj => ?_) hbat (fun j hj => hcomp ▸ hj)
      (fun e he => List.mem_append_left _ he) fun j hj hmem => ?_
    · rw [harr]
      exact List.mem_append_left _ hj
    · rcases List.mem_append.1 hmem with hmem | hmem
      · exact hmem
      · exact absurd (List.mem_singleton.1 hmem ▸ h.inFlight j hj) hnew
  · intro hexit
    rw [(h.exited hexit).1] at hopen
    cases hopen

end Orisun.GroupCommit
