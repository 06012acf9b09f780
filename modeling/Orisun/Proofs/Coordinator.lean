import Mathlib.Data.List.Infix
import Mathlib.Data.List.Nodup
import Orisun.Proofs.Worker

/-!
# The coordinator's runs

Registration under the lock keeps senders and `Close` apart: once `Close` has the lock no call can
register, so when the registered senders have left, the queues can be closed and their workers end
with nothing left to complete.
-/

namespace Orisun.GroupCommit

variable {P R : Type} {cfg : Config} {calls : ℕ → Submission P}

def Closer.begun : Closer → Bool
  | idle => false
  | signalled => false
  | _ => true

def Closer.left : Closer → Option (List String)
  | closing queues => some queues
  | done => some []
  | _ => none

def Submit.isChecked : Submit R → Bool
  | checked => true
  | locked => true
  | unclosed => true
  | admitting => true
  | _ => false

/-- `Close` with its senders gone has these queues left. -/
structure Closing (s : Coordinator P R) (left : List String) : Prop where
  senders : s.senders = []
  nodup : left.Nodup
  isOpen : ∀ b ∈ left, b ∈ s.registered ∧ (s.queues b).closed = false
  closed : ∀ b ∈ s.registered, b ∉ left → (s.queues b).closed = true

structure Admission (calls : ℕ → Submission P) (s : Coordinator P R) : Prop where
  holder : ∀ i, s.submits i = .locked ∨ s.submits i = .unclosed → s.holder = some (.submit i)
  closerHolds : s.closer = .locked → s.holder = some .close
  closed : s.closer ≠ .idle → s.closed = true
  unclosed : s.closer.begun = true → ∀ i, s.submits i ≠ .unclosed
  positive : ∀ i, (s.submits i).isChecked = true → 0 < (calls i).events
  senders : ∀ i, s.submits i = .admitting → i ∈ s.senders ∧ (calls i).boundary ∈ s.registered
  missing : ∀ b, b ∉ s.registered → s.queues b = .missing
  nodup : s.registered.Nodup
  copied : ∀ queues, s.closer = .copied queues → queues.Perm s.registered
  queuesOpen : s.closer.left = none → ∀ b, (s.queues b).closed = false
  closing : ∀ left, s.closer.left = some left → Closing s left
  exited : s.closer = .done → ∀ b ∈ s.registered, (s.queues b).worker.isExited = true
  noPanic : s.panicked = false

variable {s s' : Coordinator P R} {i : ℕ}

variable {pc : Submit R}

theorem update_eq {pc' : Submit R} (hne : pc ≠ pc') {j : ℕ}
    (h : Function.update s.submits i pc j = pc') : s.submits j = pc' := by
  by_cases hji : j = i
  · rw [hji, Function.update_self] at h
    exact absurd h hne
  · rwa [Function.update_of_ne hji] at h

theorem Admission.record (h : Admission calls s) (contexts : ℕ → Option ContextError)
    (results : ℕ → Option (Completion R)) (history : List (Entry P R)) :
    Admission calls { s with contexts := contexts, results := results, history := history } :=
  { h with closing := fun left hl => { h.closing left hl with } }

theorem Admission.setSubmit (h : Admission calls s) (hlocked : pc ≠ .locked)
    (hunclosed : pc ≠ .unclosed) (hadmitting : pc ≠ .admitting)
    (hpos : pc.isChecked = true → 0 < (calls i).events) : Admission calls (s.setSubmit i pc) := by
  refine { h with holder := ?_, unclosed := ?_, positive := ?_, senders := ?_, closing := ?_ }
  · exact fun j hj => h.holder j (hj.imp (update_eq hlocked) (update_eq hunclosed))
  · exact fun hb j hj => h.unclosed hb j (update_eq hunclosed hj)
  · intro j hj
    by_cases hji : j = i
    · subst hji
      exact hpos (by simpa [Coordinator.setSubmit] using hj)
    · exact h.positive j (by simpa [Coordinator.setSubmit, Function.update_of_ne hji] using hj)
  · exact fun j hj => h.senders j (update_eq hadmitting hj)
  · exact fun left hl => { h.closing left hl with }

theorem Admission.unregister (h : Admission calls s) (hpc : pc.isChecked = false) :
    Admission calls (s.unregister i pc) := by
  have hne : ∀ {pc' : Submit R}, pc'.isChecked = true → pc ≠ pc' := by
    rintro pc' hpc' rfl
    rw [hpc] at hpc'
    cases hpc'
  have hset := h.setSubmit (i := i) (hne rfl) (hne rfl) (hne rfl) (fun hc => by simp [hpc] at hc)
  refine { hset with senders := fun j hj => ?_, closing := fun left hl => ?_ }
  · obtain ⟨hmem, hreg⟩ := hset.senders j hj
    refine ⟨(List.mem_erase_of_ne ?_).2 hmem, hreg⟩
    rintro rfl
    simp only [Coordinator.unregister, Coordinator.setSubmit, Function.update_self] at hj
    exact hne rfl hj
  · have hc := hset.closing left hl
    have hnil : s.senders = [] := hc.senders
    exact { hc with senders := by simp [Coordinator.unregister, hnil] }

theorem Admission.lock (h : Admission calls s) (hpc : s.submits i = .checked)
    (hfree : s.holder = none) :
    Admission calls { s.setSubmit i .locked with holder := some (.submit i) } := by
  refine { h with
    holder := fun j hj => ?_, closerHolds := fun hc => ?_, unclosed := fun hb j hj => ?_
    positive := fun j hj => ?_, senders := fun j hj => ?_
    closing := fun left hl => { h.closing left hl with } }
  · by_cases hji : j = i
    · rw [hji]
    · have hold := h.holder j (by simpa [Coordinator.setSubmit, Function.update_of_ne hji] using hj)
      rw [hfree] at hold
      cases hold
  · have hold := h.closerHolds hc
    rw [hfree] at hold
    cases hold
  · exact h.unclosed hb j (update_eq (by simp) hj)
  · by_cases hji : j = i
    · rw [hji]
      exact h.positive i (by rw [hpc]; rfl)
    · exact h.positive j (by simpa [Coordinator.setSubmit, Function.update_of_ne hji] using hj)
  · exact h.senders j (update_eq (by simp) hj)

theorem Admission.alone (h : Admission calls s) (hi : s.holder = some (.submit i)) {j : ℕ}
    (hj : s.submits j = .locked ∨ s.submits j = .unclosed) : j = i := by
  have hold := h.holder j hj
  rw [hi] at hold
  exact (Holder.submit.inj (Option.some.inj hold)).symm

theorem Admission.release (h : Admission calls s) (hpc : s.submits i = .locked) :
    Admission calls { s.setSubmit i (.returned (.error .closed)) with holder := none } := by
  have hi := h.holder i (.inl hpc)
  have hset : Admission calls (s.setSubmit i (.returned (.error .closed))) :=
    h.setSubmit (by simp) (by simp) (by simp) (by simp [Submit.isChecked])
  refine { hset with
    holder := fun j hj => ?_, closerHolds := fun hc => ?_
    closing := fun left hl => { h.closing left hl with } }
  · have hj' := hj.imp (update_eq (by simp)) (update_eq (by simp))
    obtain rfl := h.alone hi hj'
    simp [Coordinator.setSubmit] at hj
  · rw [h.closerHolds hc] at hi
    cases hi

theorem Admission.pass (h : Admission calls s) (hpc : s.submits i = .locked)
    (hopen : s.closed = false) : Admission calls (s.setSubmit i .unclosed) := by
  refine { h with
    holder := fun j hj => ?_, unclosed := fun hb j hj => ?_, positive := fun j hj => ?_
    senders := fun j hj => h.senders j (update_eq (by simp) hj)
    closing := fun left hl => { h.closing left hl with } }
  · by_cases hji : j = i
    · rw [hji]
      exact h.holder i (.inl hpc)
    · exact h.holder j (by simpa [Coordinator.setSubmit, Function.update_of_ne hji] using hj)
  · have hclosed : s.closed = true := by
      refine h.closed fun hidle => ?_
      have hb' : s.closer.begun = true := hb
      rw [hidle] at hb'
      cases hb'
    rw [hopen] at hclosed
    cases hclosed
  · by_cases hji : j = i
    · rw [hji]
      exact h.positive i (by rw [hpc]; rfl)
    · exact h.positive j (by simpa [Coordinator.setSubmit, Function.update_of_ne hji] using hj)

theorem Admission.register (h : Admission calls s) (hpc : s.submits i = .unclosed) :
    Admission calls (s.register calls i) := by
  have hi := h.holder i (.inr hpc)
  have hnot : s.closer.begun = true → False := fun hb => h.unclosed hb i hpc
  have hsub : ∀ b ∈ s.registered, b ∈ (s.register calls i).registered := by
    intro b hb
    simp only [Coordinator.register]
    split_ifs
    · exact hb
    · exact List.mem_append_left _ hb
  have hmem : (calls i).boundary ∈ (s.register calls i).registered := by
    simp only [Coordinator.register]
    split_ifs with hreg
    · exact hreg
    · exact List.mem_append_right _ (List.mem_singleton_self _)
  refine ⟨fun j hj => ?_, fun hc => ?_, h.closed, fun hb => (hnot hb).elim, fun j hj => ?_,
    fun j hj => ?_, fun b hb => ?_, ?_, fun queues hc => ?_, fun hl b => ?_, fun left hl => ?_,
    fun hc => ?_, h.noPanic⟩
  · have hj' := hj.imp (update_eq (by simp)) (update_eq (by simp))
    obtain rfl := h.alone hi hj'
    simp [Coordinator.register] at hj
  · have hc' : s.closer = .locked := hc
    exact (hnot (by rw [hc']; rfl)).elim
  · by_cases hji : j = i
    · rw [hji]
      exact h.positive i (by rw [hpc]; rfl)
    · exact h.positive j (by simpa [Coordinator.register, Function.update_of_ne hji] using hj)
  · by_cases hji : j = i
    · rw [hji]
      exact ⟨List.mem_cons_self .., hmem⟩
    · have hold := h.senders j
        (by simpa [Coordinator.register, Function.update_of_ne hji] using hj)
      exact ⟨List.mem_cons_of_mem _ hold.1, hsub _ hold.2⟩
  · have hb' : b ∉ s.registered := fun hb' => hb (hsub b hb')
    have hne : b ≠ (calls i).boundary := fun he => hb (he ▸ hmem)
    simp only [Coordinator.register]
    split_ifs
    · exact h.missing b hb'
    · rw [Function.update_of_ne hne]
      exact h.missing b hb'
  · simp only [Coordinator.register]
    split_ifs with hreg
    · exact h.nodup
    · refine List.nodup_append.2 ⟨h.nodup, List.pairwise_singleton .., fun b hb b' hb' => ?_⟩
      rw [List.mem_singleton.1 hb']
      rintro rfl
      exact hreg hb
  · have hc' : s.closer = .copied queues := hc
    exact (hnot (by rw [hc']; rfl)).elim
  · simp only [Coordinator.register]
    split_ifs
    · exact h.queuesOpen hl b
    · by_cases hb : b = (calls i).boundary
      · rw [hb, Function.update_self]
      · rw [Function.update_of_ne hb]
        exact h.queuesOpen hl b
  · have hl' : s.closer.left = some left := hl
    refine (hnot ?_).elim
    rcases hc : s.closer with _ | _ | _ | _ | _ | _ <;> rw [hc] at hl' <;> first | rfl | cases hl'
  · have hc' : s.closer = .done := hc
    exact (hnot (by rw [hc']; rfl)).elim

theorem Admission.setQueue (h : Admission calls s) {b : String} {q : Queue P R}
    (hb : b ∈ s.registered) (hclosed : q.closed = (s.queues b).closed)
    (hexit : (s.queues b).worker.isExited = true → q.worker.isExited = true) :
    Admission calls (s.setQueue b q) := by
  have hsame : ∀ b', (Function.update s.queues b q b').closed = (s.queues b').closed := by
    intro b'
    by_cases he : b' = b
    · rw [he, Function.update_self, hclosed]
    · rw [Function.update_of_ne he]
  refine { h with
    missing := fun b' hb' => ?_, queuesOpen := fun hl b' => ?_, closing := fun left hl => ?_
    exited := fun hc b' hb' => ?_ }
  · have hne : b' ≠ b := by
      rintro rfl
      exact hb' hb
    simp only [Coordinator.setQueue]
    rw [Function.update_of_ne hne]
    exact h.missing b' hb'
  · exact (hsame b').trans (h.queuesOpen hl b')
  · have hcl := h.closing left hl
    exact ⟨hcl.senders, hcl.nodup,
      fun b' hb' => ⟨(hcl.isOpen b' hb').1, (hsame b').trans (hcl.isOpen b' hb').2⟩,
      fun b' hb' hn => (hsame b').trans (hcl.closed b' hb' hn)⟩
  · simp only [Coordinator.setQueue]
    by_cases he : b' = b
    · rw [he, Function.update_self]
      exact hexit (h.exited hc b hb)
    · rw [Function.update_of_ne he]
      exact h.exited hc b' hb'

theorem Admission.closeQueue (h : Admission calls s) {b : String} {rest : List String}
    (hc : s.closer = .closing (b :: rest)) : Admission calls (s.closeQueue b rest) := by
  have hcl := h.closing (b :: rest) (by rw [hc]; rfl)
  obtain ⟨hreg, hb⟩ := hcl.isOpen b (List.mem_cons_self ..)
  obtain ⟨hnot, hnodup⟩ := List.nodup_cons.1 hcl.nodup
  unfold Coordinator.closeQueue
  rw [if_neg (by simp [hb])]
  refine { h with
    closerHolds := fun h => by cases h
    closed := fun _ => h.closed (by simp [hc])
    unclosed := fun _ => h.unclosed (by rw [hc]; rfl)
    missing := fun b' hb' => ?_
    copied := fun _ h => by cases h
    queuesOpen := fun h => by cases h
    closing := fun left hl => ?_
    exited := fun h => by cases h }
  · have hne : b' ≠ b := by
      rintro rfl
      exact hb' hreg
    simp only [Coordinator.setQueue]
    rw [Function.update_of_ne hne]
    exact h.missing b' hb'
  · cases hl
    refine ⟨hcl.senders, hnodup, fun b' hb' => ?_, fun b' hb' hn => ?_⟩
    · have hne : b' ≠ b := by
        rintro rfl
        exact hnot hb'
      simp only [Coordinator.setQueue]
      rw [Function.update_of_ne hne]
      exact hcl.isOpen b' (List.mem_cons_of_mem _ hb')
    · simp only [Coordinator.setQueue]
      by_cases he : b' = b
      · rw [he, Function.update_self]
      · rw [Function.update_of_ne he]
        exact hcl.closed b' hb' (by simp [he, hn])

theorem Admission.close (h : Admission calls s) {a : CloseAction} (hs : s.close a = some s') :
    Admission calls s' := by
  unfold Coordinator.close at hs
  split at hs
  case h_1 =>
    split at hs
    case h_2 => cases hs
    case h_1 hc =>
      cases hs
      exact { h with
        closerHolds := fun h => by cases h
        closed := fun _ => rfl
        unclosed := fun h => by cases h
        copied := fun _ h => by cases h
        queuesOpen := fun _ => h.queuesOpen (by rw [hc]; rfl)
        closing := fun _ h => by cases h
        exited := fun h => by cases h }
  case h_2 =>
    split at hs
    case h_2 => cases hs
    case h_1 hc hfree =>
      cases hs
      have hnone : ∀ i, ¬(s.submits i = .locked ∨ s.submits i = .unclosed) := fun i hi => by
        have hold := h.holder i hi
        rw [hfree] at hold
        cases hold
      exact { h with
        holder := fun i hi => absurd hi (hnone i)
        closerHolds := fun _ => rfl
        closed := fun _ => h.closed (by simp [hc])
        unclosed := fun _ i hi => hnone i (.inr hi)
        copied := fun _ h => by cases h
        queuesOpen := fun _ => h.queuesOpen (by rw [hc]; rfl)
        closing := fun _ h => by cases h
        exited := fun h => by cases h }
  case h_3 queues =>
    split at hs
    case h_2 => cases hs
    case h_1 hc =>
      split_ifs at hs with hperm
      cases hs
      have hclose := h.closerHolds hc
      exact { h with
        holder := fun i hi => by
          have hold := h.holder i hi
          rw [hclose] at hold
          cases hold
        closerHolds := fun h => by cases h
        closed := fun _ => h.closed (by simp [hc])
        unclosed := fun _ => h.unclosed (by rw [hc]; rfl)
        copied := fun _ h => by
          obtain rfl := Closer.copied.inj h
          exact hperm
        queuesOpen := fun _ => h.queuesOpen (by rw [hc]; rfl)
        closing := fun _ h => by cases h
        exited := fun h => by cases h }
  case h_4 =>
    split at hs
    case h_2 => cases hs
    case h_1 queues hc hsenders =>
      cases hs
      have hperm := h.copied queues hc
      exact { h with
        closerHolds := fun h => by cases h
        closed := fun _ => h.closed (by simp [hc])
        unclosed := fun _ => h.unclosed (by rw [hc]; rfl)
        copied := fun _ h => by cases h
        queuesOpen := fun h => by cases h
        closing := fun left hl => by
          cases hl
          exact ⟨hsenders, hperm.nodup_iff.2 h.nodup,
            fun b hb => ⟨hperm.subset hb, h.queuesOpen (by rw [hc]; rfl) b⟩,
            fun b hb hn => absurd (hperm.symm.subset hb) hn⟩
        exited := fun h => by cases h }
  case h_5 =>
    split at hs
    case h_2 => cases hs
    case h_1 b rest hc => exact Option.some.inj hs ▸ h.closeQueue hc
  case h_6 =>
    split at hs
    case h_2 => cases hs
    case h_1 hc =>
      split_ifs at hs with hall
      cases hs
      exact { h with
        closerHolds := fun h => by cases h
        closed := fun _ => h.closed (by simp [hc])
        unclosed := fun _ => h.unclosed (by rw [hc]; rfl)
        copied := fun _ h => by cases h
        queuesOpen := fun h => by cases h
        closing := fun left hl => by
          cases hl
          exact { h.closing [] (by rw [hc]; rfl) with }
        exited := fun _ => List.all_eq_true.1 hall }

/-- What holds of the history by itself. -/
structure Recorded (cfg : Config) (calls : ℕ → Submission P) (history : List (Entry P R)) :
    Prop where
  orderly : History.Each (Orderly cfg calls) history
  completedOnce : (completed history).Nodup
  boundaries : ∀ b, ∀ i ∈ arrivals b history, (calls i).boundary = b
  completedArrived : ∀ i ∈ completed history, i ∈ arrivals (calls i).boundary history
  closedDone : ∀ i, .completed i (.error .closed) ∈ history → i ∉ (allBatches history).flatten
  okDone : ∀ i v, .completed i (.ok v) ∈ history → Ran history i v
  inBatches : ∀ i ∈ (allBatches history).flatten, i ∈ (batches (calls i).boundary history).flatten
  batchedOnce : (allBatches history).flatten.Nodup

variable {history : List (Entry P R)} {b : String}

theorem Recorded.arrive (h : Recorded cfg calls history) (i : ℕ) :
    Recorded cfg calls (history ++ [.arrived (calls i).boundary i]) := by
  have hbat : ∀ b, batches b (history ++ [.arrived (calls i).boundary i]) = batches b history := by
    simp [batches]
  have hall : allBatches (history ++ [.arrived (calls i).boundary i]) = allBatches history := by
    simp [allBatches]
  have hcomp : completed (history ++ [.arrived (calls i).boundary i]) = completed history := by
    simp [completed]
  have hmem : ∀ {j : ℕ} {r : Completion R},
      .completed j r ∈ history ++ [.arrived (calls i).boundary i] → .completed j r ∈ history := by
    simp
  refine ⟨History.each_concat.2 ⟨h.orderly, trivial⟩, hcomp ▸ h.completedOnce, fun b j hj => ?_,
    fun j hj => ?_, fun j hj => hall ▸ h.closedDone j (hmem hj), fun j v hj => ?_, fun j hj => ?_,
    hall ▸ h.batchedOnce⟩
  · rw [arrivals_append] at hj
    rcases List.mem_append.1 hj with hj | hj
    · exact h.boundaries b j hj
    · simp only [arrivals, List.filterMap_cons, List.filterMap_nil] at hj
      split_ifs at hj with hb
      · obtain rfl := List.mem_singleton.1 hj
        exact hb
      · cases hj
  · rw [arrivals_append]
    exact List.mem_append_left _ (h.completedArrived j (hcomp ▸ hj))
  · exact (h.okDone j v (hmem hj)).mono fun e he => List.mem_append_left _ he
  · rw [hbat]
    exact h.inBatches j (hall ▸ hj)

theorem Recorded.deliver (h : Recorded cfg calls history) {req : ℕ} {result : Completion R}
    (heff : (Effect.deliver req result : Effect P R).Sound cfg calls b history) :
    Recorded cfg calls (withCompletion history req result) := by
  obtain ⟨harr, hclosed, hok⟩ := heff
  have hb := h.boundaries b req harr
  by_cases hdone : req ∈ completed history
  · unfold withCompletion
    rwa [if_pos hdone]
  have heq : withCompletion history req result = history ++ [.completed req result] := if_neg hdone
  have hmem : ∀ {j : ℕ} {r : Completion R}, .completed j r ∈ withCompletion history req result →
      .completed j r ∈ history ∨ j = req ∧ r = result := by
    intro j r hj
    simpa [heq] using hj
  refine ⟨?_, ?_, fun b j hj => ?_, fun j hj => ?_, fun j hj => ?_, fun j v hj => ?_, ?_, ?_⟩
  · rw [heq]
    exact History.each_concat.2 ⟨h.orderly, trivial⟩
  · rw [heq, completed_append, List.nodup_append]
    refine ⟨h.completedOnce, List.pairwise_singleton .., fun j hj k hk => ?_⟩
    obtain rfl : k = req := by simpa [completed] using hk
    rintro rfl
    exact hdone hj
  · exact h.boundaries b j (by simpa using hj)
  · rw [mem_completed_withCompletion] at hj
    rw [arrivals_withCompletion]
    rcases hj with hj | rfl
    · exact h.completedArrived j hj
    · rw [hb]
      exact harr
  · rw [allBatches_withCompletion]
    rcases hmem hj with hj | ⟨rfl, rfl⟩
    · exact h.closedDone j hj
    · intro hbatch
      exact hclosed rfl (hb ▸ h.inBatches j hbatch)
  · rcases hmem hj with hj | ⟨rfl, rfl⟩
    · exact (h.okDone j v hj).mono (subset_withCompletion _ _ _)
    · exact (hok v rfl).mono (subset_withCompletion _ _ _)
  · simpa using h.inBatches
  · simpa using h.batchedOnce

variable {batch : List ℕ}

theorem Recorded.call (h : Recorded cfg calls history) {prepared : List P}
    (heff : (Effect.call batch prepared : Effect P R).Sound cfg calls b history) :
    Recorded cfg calls (history ++ [.started b batch prepared]) := by
  obtain ⟨horderly, hnodup, hbatch⟩ := heff
  have harr : ∀ b', arrivals b' (history ++ [.started b batch prepared]) = arrivals b' history := by
    simp [arrivals]
  have hall : (allBatches (history ++ [.started b batch prepared])).flatten
      = (allBatches history).flatten ++ batch := by
    simp [allBatches]
  have hcomp : completed (history ++ [.started b batch prepared]) = completed history := by
    simp [completed]
  have hmem : ∀ {j : ℕ} {r : Completion R},
      .completed j r ∈ history ++ [.started b batch prepared] → .completed j r ∈ history := by
    simp
  refine ⟨History.each_concat.2 ⟨h.orderly, horderly⟩, hcomp ▸ h.completedOnce,
    fun b' j hj => h.boundaries b' j (harr b' ▸ hj), fun j hj => ?_, fun j hj => ?_,
    fun j v hj => (h.okDone j v (hmem hj)).mono fun e he => List.mem_append_left _ he,
    fun j hj => ?_, ?_⟩
  · rw [harr]
    exact h.completedArrived j (hcomp ▸ hj)
  · rw [hall]
    intro hj'
    rcases List.mem_append.1 hj' with hj' | hj'
    · exact h.closedDone j (hmem hj) hj'
    · exact (hbatch j hj').2.1 (mem_completed _ |>.2 ⟨_, hmem hj⟩)
  · rw [batches_append, List.flatten_append]
    rw [hall] at hj
    rcases List.mem_append.1 hj with hj | hj
    · exact List.mem_append_left _ (h.inBatches j hj)
    · refine List.mem_append_right _ ?_
      rw [h.boundaries b j (hbatch j hj).1]
      simpa [batches] using hj
  · rw [hall, List.nodup_append]
    refine ⟨h.batchedOnce, hnodup, fun j hj k hk => ?_⟩
    rintro rfl
    have hin := h.inBatches j hj
    rw [h.boundaries b j (hbatch j hk).1] at hin
    exact (hbatch j hk).2.2 hin

theorem Recorded.ended (h : Recorded cfg calls history) {outcome : Outcome R}
    (heff : (Effect.ended batch outcome : Effect P R).Sound cfg calls b history) :
    Recorded cfg calls (history ++ [.ended b batch outcome]) := by
  have harr : ∀ b', arrivals b' (history ++ [.ended b batch outcome]) = arrivals b' history := by
    simp [arrivals]
  have hbat : ∀ b', batches b' (history ++ [.ended b batch outcome]) = batches b' history := by
    simp [batches]
  have hall : allBatches (history ++ [.ended b batch outcome]) = allBatches history := by
    simp [allBatches]
  have hcomp : completed (history ++ [.ended b batch outcome]) = completed history := by
    simp [completed]
  have hmem : ∀ {j : ℕ} {r : Completion R},
      .completed j r ∈ history ++ [.ended b batch outcome] → .completed j r ∈ history := by
    simp
  refine ⟨History.each_concat.2 ⟨h.orderly, heff⟩, hcomp ▸ h.completedOnce,
    fun b' j hj => h.boundaries b' j (harr b' ▸ hj), fun j hj => ?_,
    fun j hj => hall ▸ h.closedDone j (hmem hj),
    fun j v hj => (h.okDone j v (hmem hj)).mono fun e he => List.mem_append_left _ he,
    fun j hj => ?_, hall ▸ h.batchedOnce⟩
  · rw [harr]
    exact h.completedArrived j (hcomp ▸ hj)
  · rw [hbat]
    exact h.inBatches j (hall ▸ hj)

theorem Recorded.effect (h : Recorded cfg calls history) {eff : Effect P R}
    (heff : eff.Sound cfg calls b history) : Recorded cfg calls (eff.record b history) := by
  cases eff with
  | quiet => exact h
  | deliver req result => exact h.deliver heff
  | call batch prepared => exact h.call heff
  | ended batch outcome => exact h.ended heff

structure Coordinator.Inv (cfg : Config) (calls : ℕ → Submission P) (s : Coordinator P R) :
    Prop where
  lines : ∀ b, Line cfg calls b s.history (s.queues b)
  recorded : Recorded cfg calls s.history
  admission : Admission calls s
  results : ∀ i c, s.results i = some c ↔ .completed i c ∈ s.history
  back : ∀ b, ∀ i ∈ arrivals b s.history,
    s.submits i = .waiting ∨ ∃ r, s.submits i = .returned r
  returnedClosed : ∀ i, s.submits i = .returned (.error .closed) →
    (∀ b, i ∉ arrivals b s.history) ∨ .completed i (.error .closed) ∈ s.history
  returnedOk : ∀ i v, s.submits i = .returned (.ok v) → .completed i (.ok v) ∈ s.history

namespace Coordinator

theorem inv_initial : (initial : Coordinator P R).Inv cfg calls where
  lines := fun b => by
    refine ⟨?_, ?_, ?_, ?_, ?_, ?_, ?_, ?_, ?_, ?_⟩ <;>
      simp [initial, Queue.missing, arrivals, batches, endedBatches, Worker.held, Worker.inFlight,
        Worker.running, Worker.isExited, Queue.Consistent]
  recorded := ⟨History.each_nil, by simp [initial, completed], by simp [initial, arrivals],
    by simp [initial, completed], by simp [initial], by simp [initial],
    by simp [initial, allBatches], by simp [initial, allBatches]⟩
  admission := by
    refine ⟨?_, ?_, ?_, ?_, ?_, ?_, ?_, ?_, ?_, ?_, ?_, ?_, ?_⟩ <;>
      simp [initial, Closer.begun, Closer.left, Submit.isChecked, Queue.missing]
  results := by simp [initial]
  back := by simp [initial, arrivals]
  returnedClosed := by simp [initial]
  returnedOk := by simp [initial]

theorem Inv.early (h : s.Inv cfg calls) (hw : s.submits i ≠ .waiting)
    (hr : ∀ r, s.submits i ≠ .returned r) (b : String) : i ∉ arrivals b s.history := by
  intro hi
  rcases h.back b i hi with hi | ⟨r, hi⟩
  · exact hw hi
  · exact hr r hi

theorem Inv.move (h : s.Inv cfg calls) {pc : Submit R} (hadm : Admission calls s')
    (hhist : s'.history = s.history) (hq : ∀ b, Line cfg calls b s.history (s'.queues b))
    (hres : s'.results = s.results)
    (hsub : s'.submits = Function.update s.submits i pc)
    (hback : ∀ b, i ∈ arrivals b s.history → pc = .waiting ∨ ∃ r, pc = .returned r)
    (hclosed : pc = .returned (.error .closed) →
      (∀ b, i ∉ arrivals b s.history) ∨ .completed i (.error .closed) ∈ s.history)
    (hok : ∀ v, pc = .returned (.ok v) → .completed i (.ok v) ∈ s.history) :
    s'.Inv cfg calls := by
  refine ⟨?_, ?_, hadm, ?_, ?_, ?_, ?_⟩
  · rw [hhist]
    exact hq
  · rw [hhist]
    exact h.recorded
  · rw [hhist, hres]
    exact h.results
  · rw [hhist, hsub]
    intro b j hj
    by_cases hji : j = i
    · subst hji
      rw [Function.update_self]
      exact hback b hj
    · rw [Function.update_of_ne hji]
      exact h.back b j hj
  · rw [hhist, hsub]
    intro j hj
    by_cases hji : j = i
    · subst hji
      rw [Function.update_self] at hj
      exact hclosed hj
    · rw [Function.update_of_ne hji] at hj
      exact h.returnedClosed j hj
  · rw [hhist, hsub]
    intro j v hj
    by_cases hji : j = i
    · subst hji
      rw [Function.update_self] at hj
      exact hok v hj
    · rw [Function.update_of_ne hji] at hj
      exact h.returnedOk j v hj

theorem Inv.advance (h : s.Inv cfg calls) {pc : Submit R} (hadm : Admission calls s')
    (hhist : s'.history = s.history) (hq : ∀ b, Line cfg calls b s.history (s'.queues b))
    (hres : s'.results = s.results)
    (hsub : s'.submits = Function.update s.submits i pc) (hw : s.submits i ≠ .waiting)
    (hr : ∀ r, s.submits i ≠ .returned r) (hok : ∀ v, pc ≠ .returned (.ok v)) :
    s'.Inv cfg calls :=
  h.move hadm hhist hq hres hsub (fun b hi => absurd hi (h.early hw hr b))
    (fun _ => .inl (h.early hw hr)) (fun v hv => absurd hv (hok v))

theorem Inv.register_line (h : s.Inv cfg calls) (b : String) :
    Line cfg calls b s.history ((s.register calls i).queues b) := by
  simp only [Coordinator.register]
  split_ifs with hreg
  · exact h.lines b
  · by_cases hb : b = (calls i).boundary
    · have hline := h.lines b
      rw [hb, h.admission.missing _ hreg] at hline
      rw [hb, Function.update_self]
      exact hline.quiet rfl rfl rfl rfl trivial (by simp [Worker.isExited])
    · rw [Function.update_of_ne hb]
      exact h.lines b

theorem Inv.proceed (h : s.Inv cfg calls) (hs : s.proceed calls i = some s') :
    s'.Inv cfg calls := by
  unfold Coordinator.proceed at hs
  split at hs
  case h_1 hpc =>
    cases hs
    refine h.advance ?_ rfl h.lines rfl rfl (by simp [hpc]) (by simp [hpc]) ?_
    · refine h.admission.setSubmit ?_ ?_ ?_ ?_ <;> split_ifs <;> simp [Submit.isChecked]
    · split_ifs <;> simp
  case h_2 hpc =>
    cases hs
    refine h.advance ?_ rfl h.lines rfl rfl (by simp [hpc]) (by simp [hpc]) ?_
    · refine h.admission.setSubmit ?_ ?_ ?_ ?_ <;> cases s.contexts i <;> simp [Submit.isChecked]
    · cases s.contexts i <;> simp
  case h_3 hpc =>
    cases hs
    refine h.advance ?_ rfl h.lines rfl rfl (by simp [hpc]) (by simp [hpc]) ?_
    · refine h.admission.setSubmit ?_ ?_ ?_ ?_ <;> split_ifs with he <;> simp [Submit.isChecked]
      omega
    · split_ifs <;> simp
  case h_4 hpc =>
    split at hs
    · cases hs
    · rename_i hfree
      cases hs
      exact h.advance (h.admission.lock hpc hfree) rfl h.lines rfl rfl (by simp [hpc]) (by simp [hpc])
        (by simp)
  case h_5 hpc =>
    split_ifs at hs with hclosed
    · cases hs
      exact h.advance (h.admission.release hpc) rfl h.lines rfl rfl (by simp [hpc]) (by simp [hpc])
        (by simp)
    · cases hs
      exact h.advance (h.admission.pass hpc (by simpa using hclosed)) rfl h.lines rfl rfl
        (by simp [hpc]) (by simp [hpc]) (by simp)
  case h_6 hpc =>
    cases hs
    refine h.advance (h.admission.register hpc) rfl (fun b => ?_) rfl rfl (by simp [hpc])
      (by simp [hpc]) (by simp)
    exact h.register_line b
  case h_7 => cases hs

theorem Inv.open_of_admitting (h : s.Inv cfg calls) (hpc : s.submits i = .admitting) (b : String) :
    (s.queues b).closed = false := by
  rcases hl : s.closer.left with _ | left
  · exact h.admission.queuesOpen hl b
  · have hmem := (h.admission.senders i hpc).1
    rw [(h.admission.closing left hl).senders] at hmem
    cases hmem

theorem Inv.send (h : s.Inv cfg calls) (hs : s.send cfg calls i = some s') :
    s'.Inv cfg calls := by
  unfold Coordinator.send at hs
  split at hs
  case h_2 => cases hs
  case h_1 hpc =>
    have hopen := h.open_of_admitting hpc (calls i).boundary
    rw [if_neg (by simp [hopen])] at hs
    split_ifs at hs
    cases hs
    have hearly := h.early (i := i) (by simp [hpc]) (by simp [hpc])
    obtain ⟨-, hreg⟩ := h.admission.senders i hpc
    have hdone : i ∉ completed s.history := fun hd =>
      hearly _ (h.recorded.completedArrived i hd)
    have harr : ∀ {b j}, j ∈ arrivals b (s.history ++ [.arrived (calls i).boundary i]) →
        j ∈ arrivals b s.history ∨ j = i := by
      intro b j hj
      rw [arrivals_append] at hj
      refine (List.mem_append.1 hj).imp_right fun hj => ?_
      simp only [arrivals, List.filterMap_cons, List.filterMap_nil] at hj
      split_ifs at hj
      · exact List.mem_singleton.1 hj
      · cases hj
    refine ⟨fun b => ?_, h.recorded.arrive i, ?_, fun j c => ?_, fun b j hj => ?_, fun j hj => ?_,
      fun j v hj => ?_⟩
    · dsimp only
      by_cases hb : b = (calls i).boundary
      · subst hb
        rw [Function.update_self]
        exact (h.lines _).arrive hopen (h.admission.positive i (by rw [hpc]; rfl))
          (hearly _) hdone
      · rw [Function.update_of_ne hb]
        have hb' : (calls i).boundary ≠ b := fun he => hb he.symm
        refine (h.lines b).other ?_ ?_ ?_ ?_ ?_ fun e he => List.mem_append_left _ he
        · simp [arrivals, hb']
        · simp [batches]
        · simp [endedBatches]
        · simp [completed]
        · simp [completed]
    · have hun : Admission calls (s.unregister i .waiting) := h.admission.unregister rfl
      have hq := hun.setQueue (q := { s.queues (calls i).boundary with
        buf := (s.queues (calls i).boundary).buf ++ [i] }) hreg rfl fun hx => hx
      exact hq.record s.contexts s.results _
    · simpa [Coordinator.unregister, Coordinator.setSubmit] using h.results j c
    · rcases harr hj with hmem | rfl
      · have hji : j ≠ i := by
          rintro rfl
          exact hearly b hmem
        simpa [Coordinator.unregister, Coordinator.setSubmit, Function.update_of_ne hji]
          using h.back b j hmem
      · exact .inl (Function.update_self ..)
    · by_cases hji : j = i
      · subst hji
        simp [Coordinator.unregister, Coordinator.setSubmit] at hj
      · have hold := h.returnedClosed j (update_eq (by simp) hj)
        refine hold.imp (fun hnot b hmem => ?_) fun hmem => List.mem_append_left _ hmem
        exact (harr hmem).elim (hnot b) hji
    · exact List.mem_append_left _ (h.returnedOk j v (update_eq (by simp) hj))

theorem Inv.submit (h : s.Inv cfg calls) {a : SubmitAction}
    (hs : s.submit cfg calls i a = some s') : s'.Inv cfg calls := by
  cases a with
  | enter =>
    simp only [Coordinator.submit] at hs
    split at hs
    · rename_i hpc
      cases hs
      refine h.advance ?_ rfl h.lines rfl rfl (by simp [hpc]) (by simp [hpc]) (by simp)
      exact h.admission.setSubmit (by simp) (by simp) (by simp) (by simp [Submit.isChecked])
    · cases hs
  | proceed => exact h.proceed hs
  | send => exact h.send hs
  | abandon =>
    simp only [Coordinator.submit, Coordinator.abandon] at hs
    split at hs
    · rename_i e hpc hctx
      cases hs
      exact h.advance (h.admission.unregister rfl) rfl h.lines rfl rfl (by simp [hpc])
        (by simp [hpc]) (by simp)
    · cases hs
  | refuse =>
    simp only [Coordinator.submit, Coordinator.refuse] at hs
    split at hs
    · rename_i hpc hclosed
      cases hs
      exact h.advance (h.admission.unregister rfl) rfl h.lines rfl rfl (by simp [hpc])
        (by simp [hpc]) (by simp)
    · cases hs
  | receive =>
    simp only [Coordinator.submit, Coordinator.receive] at hs
    split at hs
    · rename_i result hpc hres
      cases hs
      have hdone := (h.results i result).1 hres
      refine h.move ?_ rfl h.lines rfl rfl (fun _ _ => .inr ⟨result, rfl⟩) ?_ ?_
      · exact h.admission.setSubmit (by simp) (by simp) (by simp) (by simp [Submit.isChecked])
      · intro heq
        exact .inr (Submit.returned.inj heq ▸ hdone)
      · intro v heq
        exact Submit.returned.inj heq ▸ hdone
    · cases hs
  | leave =>
    simp only [Coordinator.submit, Coordinator.leave] at hs
    split at hs
    · rename_i e hpc hctx
      cases hs
      refine h.move ?_ rfl h.lines rfl rfl (fun _ _ => .inr ⟨_, rfl⟩) (by simp) (by simp)
      exact h.admission.setSubmit (by simp) (by simp) (by simp) (by simp [Submit.isChecked])
    · cases hs

theorem Inv.history_apply (h : s.Inv cfg calls) (b : String) (q : Queue P R) (eff : Effect P R) :
    ((s.setQueue b q).apply b eff).history = eff.record b s.history := by
  cases eff with
  | quiet => rfl
  | deliver req result =>
    have hres := h.results req
    simp only [Coordinator.apply, Coordinator.deliver, Coordinator.setQueue, Effect.record,
      withCompletion]
    rcases hr : s.results req with _ | c
    · have hnot : req ∉ completed s.history := fun hmem => by
        obtain ⟨c, hc⟩ := (mem_completed _).1 hmem
        rw [← hres, hr] at hc
        cases hc
      rw [if_neg hnot]
    · rw [if_pos ((mem_completed _).2 ⟨c, (hres c).1 hr⟩)]
  | call batch prepared => rfl
  | ended batch outcome => rfl

theorem apply_fields (s : Coordinator P R) (b : String) (eff : Effect P R) :
    (s.apply b eff).queues = s.queues ∧ (s.apply b eff).submits = s.submits ∧
      s.apply b eff = { s with
        results := (s.apply b eff).results, history := (s.apply b eff).history } := by
  cases eff with
  | quiet => exact ⟨rfl, rfl, rfl⟩
  | deliver req result =>
    simp only [Coordinator.apply, Coordinator.deliver]
    split <;> exact ⟨rfl, rfl, rfl⟩
  | call batch prepared => exact ⟨rfl, rfl, rfl⟩
  | ended batch outcome => exact ⟨rfl, rfl, rfl⟩

theorem Inv.results_apply (h : s.Inv cfg calls) (b : String) (q : Queue P R) (eff : Effect P R)
    (j : ℕ) (c : Completion R) : ((s.setQueue b q).apply b eff).results j = some c ↔
      .completed j c ∈ ((s.setQueue b q).apply b eff).history := by
  have hres := h.results
  cases eff with
  | quiet => exact hres j c
  | deliver req result =>
    simp only [Coordinator.apply, Coordinator.deliver, Coordinator.setQueue]
    split
    · exact hres j c
    · rename_i hnone
      simp only [List.mem_append, List.mem_singleton, Entry.completed.injEq]
      by_cases hj : j = req
      · subst hj
        rw [Function.update_self, ← hres j c, hnone]
        simp [eq_comm]
      · rw [Function.update_of_ne hj, hres j c]
        simp [hj]
  | call batch prepared => simpa [Coordinator.apply, Coordinator.setQueue] using hres j c
  | ended batch outcome => simpa [Coordinator.apply, Coordinator.setQueue] using hres j c

theorem Inv.other_line (h : s.Inv cfg calls) {b' : String} (hb : b' ≠ b) {eff : Effect P R}
    (heff : eff.Sound cfg calls b s.history) :
    Line cfg calls b' (eff.record b s.history) (s.queues b') := by
  cases eff with
  | quiet => exact h.lines b'
  | deliver req result =>
    refine (h.lines b').other (arrivals_withCompletion ..) (batches_withCompletion ..)
      (endedBatches_withCompletion ..) (fun j hj => ?_) (fun j hj hd => ?_)
      (subset_withCompletion _ _ _)
    · exact (mem_completed_withCompletion ..).2 (.inl hj)
    · rcases (mem_completed_withCompletion ..).1 hd with hd | rfl
      · exact hd
      · exact absurd ((h.recorded.boundaries b' j hj).symm.trans
          (h.recorded.boundaries b j heff.1)) hb
  | call batch prepared =>
    refine (h.lines b').other ?_ ?_ ?_ ?_ ?_ fun e he => List.mem_append_left _ he
    · simp [Effect.record, arrivals]
    · simp [Effect.record, batches, hb.symm]
    · simp [Effect.record, endedBatches]
    · simp [Effect.record, completed]
    · simp [Effect.record, completed]
  | ended batch outcome =>
    refine (h.lines b').other ?_ ?_ ?_ ?_ ?_ fun e he => List.mem_append_left _ he
    · simp [Effect.record, arrivals]
    · simp [Effect.record, batches]
    · simp [Effect.record, endedBatches, hb.symm]
    · simp [Effect.record, completed]
    · simp [Effect.record, completed]

variable {a : WorkerAction R} {q : Queue P R} {closed : Bool} {contexts : ℕ → Option ContextError}

theorem step_absent (hq : q.worker = .absent) :
    q.step cfg calls closed contexts a = none := by
  cases a <;> simp [Queue.step, Queue.proceed, Queue.receive, Queue.stop, Queue.sawClosed,
    Queue.executed, hq]

theorem step_exited (hq : q.worker.isExited = true) :
    q.step cfg calls closed contexts a = none := by
  have hw : q.worker = .exited := by
    cases hw : q.worker <;> rw [hw] at hq <;> first | rfl | cases hq
  cases a <;> simp [Queue.step, Queue.proceed, Queue.receive, Queue.stop, Queue.sawClosed,
    Queue.executed, hw]

theorem step_closed {q' : Queue P R} {eff : Effect P R}
    (hs : q.step cfg calls closed contexts a = some (q', eff)) : q'.closed = q.closed := by
  cases a with
  | proceed =>
    simp only [Queue.step, Queue.proceed] at hs
    repeat' split at hs
    all_goals cases hs <;> rfl
  | receive =>
    obtain ⟨q'', hq, he⟩ := Option.map_eq_some_iff.1 hs
    cases he
    unfold Queue.receive at hq
    repeat' split at hq
    all_goals cases hq <;> rfl
  | stop =>
    obtain ⟨q'', hq, he⟩ := Option.map_eq_some_iff.1 hs
    cases he
    unfold Queue.stop at hq
    repeat' split at hq
    all_goals cases hq <;> rfl
  | sawClosed =>
    simp only [Queue.step] at hs
    split at hs
    case isFalse => cases hs
    obtain ⟨q'', hq, he⟩ := Option.map_eq_some_iff.1 hs
    cases he
    unfold Queue.sawClosed at hq
    repeat' split at hq
    all_goals cases hq <;> rfl
  | executed outcome =>
    simp only [Queue.step, Queue.executed] at hs
    split at hs <;> cases hs
    rfl

theorem Inv.worker (h : s.Inv cfg calls) (hs : s.worker cfg calls b a = some s') :
    s'.Inv cfg calls := by
  obtain ⟨⟨q, eff⟩, hstep, rfl⟩ := Option.map_eq_some_iff.1 hs
  have hline := h.lines b
  have heff := hline.sound hstep
  have hhist := h.history_apply b q eff
  obtain ⟨hqueues, hsubmits, hfields⟩ := apply_fields (s.setQueue b q) b eff
  have hreg : b ∈ s.registered := by
    by_contra hnot
    have hw : (s.queues b).worker = .absent := by rw [h.admission.missing b hnot]; rfl
    rw [step_absent hw] at hstep
    cases hstep
  have harr : ∀ b', arrivals b' (eff.record b s.history) = arrivals b' s.history := by
    intro b'
    cases eff with
    | quiet => rfl
    | deliver req result => exact arrivals_withCompletion ..
    | call batch prepared => simp [Effect.record, arrivals]
    | ended batch outcome => simp [Effect.record, arrivals]
  have hsub : ∀ e ∈ s.history, e ∈ eff.record b s.history := by
    intro e he
    cases eff with
    | quiet => exact he
    | deliver req result => exact subset_withCompletion _ _ _ e he
    | call batch prepared => exact List.mem_append_left _ he
    | ended batch outcome => exact List.mem_append_left _ he
  refine ⟨fun b' => ?_, ?_, ?_, h.results_apply b q eff, ?_, ?_, ?_⟩
  · rw [hhist, hqueues]
    simp only [Coordinator.setQueue]
    by_cases hb : b' = b
    · subst hb
      rw [Function.update_self]
      exact hline.step hstep
    · rw [Function.update_of_ne hb]
      exact h.other_line hb heff
  · rw [hhist]
    exact h.recorded.effect heff
  · rw [hfields]
    refine (h.admission.setQueue hreg (step_closed hstep) fun hexit => ?_).record s.contexts _ _
    rw [step_exited hexit] at hstep
    cases hstep
  · rw [hhist, hsubmits]
    exact fun b' j hj => h.back b' j (harr b' ▸ hj)
  · rw [hhist, hsubmits]
    exact fun j hj => (h.returnedClosed j hj).imp (fun hnot b' hmem => hnot b' (harr b' ▸ hmem))
      (hsub _)
  · rw [hhist, hsubmits]
    exact fun j v hj => hsub _ (h.returnedOk j v hj)

theorem close_frame {a : CloseAction} (hs : s.close a = some s') :
    s'.history = s.history ∧ s'.submits = s.submits ∧ s'.results = s.results ∧
      ∀ b, s'.queues b = s.queues b ∨ s'.queues b = { s.queues b with closed := true } := by
  unfold Coordinator.close at hs
  split at hs
  case h_5 =>
    split at hs
    case h_2 => cases hs
    case h_1 b rest hc =>
      cases hs
      unfold Coordinator.closeQueue
      split
      · exact ⟨rfl, rfl, rfl, fun b' => .inl rfl⟩
      · refine ⟨rfl, rfl, rfl, fun b' => ?_⟩
        simp only [Coordinator.setQueue]
        by_cases hb : b' = b
        · subst hb
          exact .inr (Function.update_self ..)
        · exact .inl (Function.update_of_ne hb ..)
  all_goals
    repeat' split at hs
    all_goals cases hs <;> exact ⟨rfl, rfl, rfl, fun b' => .inl rfl⟩

theorem Inv.close (h : s.Inv cfg calls) {a : CloseAction} (hs : s.close a = some s') :
    s'.Inv cfg calls := by
  obtain ⟨hhist, hsubmits, hresults, hqueues⟩ := close_frame hs
  refine ⟨fun b => ?_, hhist ▸ h.recorded, h.admission.close hs, ?_, ?_, ?_, ?_⟩
  · rw [hhist]
    have hline := h.lines b
    rcases hqueues b with hq | hq
    · rw [hq]
      exact hline
    · rw [hq]
      exact { hline with exited := fun he => ⟨rfl, (hline.exited he).2⟩ }
  · rw [hhist, hresults]
    exact h.results
  · rw [hhist, hsubmits]
    exact h.back
  · rw [hhist, hsubmits]
    exact h.returnedClosed
  · rw [hhist, hsubmits]
    exact h.returnedOk

theorem inv_step {a : Action R} (h : s.Inv cfg calls) (hs : s.step cfg calls a = some s') :
    s'.Inv cfg calls := by
  cases a with
  | submit i a => exact h.submit hs
  | cancel i e =>
    change s.cancel i e = some s' at hs
    unfold Coordinator.cancel at hs
    split at hs
    · cases hs
    · cases hs
      exact { h with admission := h.admission.record _ s.results s.history }
  | worker b a => exact h.worker hs
  | close a => exact h.close hs

theorem inv_run {actions : List (Action R)}
    (hrun : Transition.run (step cfg calls) initial actions = some s) : s.Inv cfg calls :=
  Transition.run_invariant (fun _ _ _ h hs => inv_step h hs) inv_initial hrun

theorem Inv.batches_sublist (h : s.Inv cfg calls) (b : String) :
    (batches b s.history).flatten.Sublist (arrivals b s.history) :=
  (List.sublist_append_left ..).trans (h.lines b).order

theorem Inv.completed_of_exited (h : s.Inv cfg calls)
    (hw : (s.queues b).worker.isExited = true ∨ s.queues b = .missing)
    (hi : i ∈ arrivals b s.history) : i ∈ completed s.history := by
  have howed := (h.lines b).owed i hi
  have hrest : (s.queues b).worker.inFlight = [] ∧
      (s.queues b).worker.held ++ (s.queues b).buf = [] := by
    rcases hw with hw | hw
    · obtain ⟨-, hbuf⟩ := (h.lines b).exited hw
      have hexited : (s.queues b).worker = .exited := by
        cases hq : (s.queues b).worker <;> rw [hq] at hw <;> first | rfl | cases hw
      rw [hbuf, hexited]
      exact ⟨rfl, rfl⟩
    · rw [hw]
      exact ⟨rfl, rfl⟩
  rw [hrest.1, hrest.2] at howed
  simpa using howed

end Coordinator

/-- The coordinator schedules as promised in every state that is reached, however its goroutines are
interleaved and whatever the executor does. -/
theorem coordinator_scheduling (cfg : Config) (calls : ℕ → Submission P)
    (actions : List (Action R)) (s : Coordinator P R)
    (hrun : Transition.run (Coordinator.step cfg calls) .initial actions = some s) :
    Scheduling cfg calls s := by
  have h := Coordinator.inv_run hrun
  refine ⟨h.batches_sublist, fun b => (h.batches_sublist b).nodup (h.lines b).nodup,
    h.recorded.orderly, h.admission.noPanic, h.recorded.completedOnce, fun hdone => ⟨?_, ?_⟩⟩
  · intro b i hi
    refine h.completed_of_exited ?_ hi
    by_cases hb : b ∈ s.registered
    · exact .inl (h.admission.exited hdone b hb)
    · exact .inr (h.admission.missing b hb)
  · exact h.admission.exited hdone

def pairs : Config := ⟨2, 10, 4, false, by decide, by decide, by decide⟩

def admission {R : Type} (i : ℕ) : List (Action R) :=
  .submit i .enter :: List.replicate 6 (.submit i .proceed) ++ [.submit i .send]

/-- Two calls are admitted and drained into one batch. The first is cancelled before the batch is run,
the second has the result; then the coordinator is closed. -/
def twoSubmits {R : Type} (result : R) : List (Action R) :=
  admission 0 ++ admission 1 ++ [.worker "orders" .receive, .worker "orders" .proceed,
    .worker "orders" .receive, .cancel 0 .canceled] ++
  List.replicate 5 (.worker "orders" .proceed) ++ .worker "orders" (.executed (.returned [result])) ::
  List.replicate 3 (.worker "orders" .proceed) ++ [.submit 0 .receive, .submit 1 .receive,
    .close .signal, .close .lock, .close (.copy ["orders"]), .close .settle, .close .closeQueue,
    .worker "orders" .sawClosed, .worker "orders" .receive, .close .finish]

theorem twoSubmits_scheduling : ∃ s : Coordinator ℕ ℕ,
    Transition.run (Coordinator.step pairs fun i => ⟨"orders", i, 1⟩) .initial (twoSubmits 7) = some s ∧
      batches "orders" s.history = [[1]] ∧ Scheduling pairs (fun i => ⟨"orders", i, 1⟩) s := by
  have hrun : (Transition.run (Coordinator.step pairs fun i => ⟨"orders", i, 1⟩)
      (.initial : Coordinator ℕ ℕ) (twoSubmits 7)).map (fun s => batches "orders" s.history)
        = some [[1]] := by
    decide +kernel
  obtain ⟨s, hs, hbatches⟩ := Option.map_eq_some_iff.1 hrun
  exact ⟨s, hs, hbatches, coordinator_scheduling pairs _ (twoSubmits 7) s hs⟩

/-- A call that has come too late: it has not begun, or can only be refused. -/
def Submit.IsLate : Submit R → Prop
  | idle => True
  | entered => True
  | returned (.error .closed) => True
  | _ => False

/-- What every continuation leaves as it was in a state, and the calls that begin in it. -/
structure Quiescent (s s' : Coordinator P R) : Prop where
  done : s'.closer = .done
  history : s'.history = s.history
  queues : s'.queues = s.queues
  results : s'.results = s.results
  late : ∀ i, (s.submits i).IsLate → (s'.submits i).IsLate

namespace Coordinator

theorem isLate_update {i : ℕ} {pc : Submit R} (h : (s.submits i).IsLate → pc.IsLate) (j : ℕ)
    (hj : (s.submits j).IsLate) : (Function.update s.submits i pc j).IsLate := by
  by_cases hij : j = i
  · subst hij
    rw [Function.update_self]
    exact h hj
  · rwa [Function.update_of_ne hij]

theorem Inv.not_admitting (h : s.Inv cfg calls) (hdone : s.closer = .done) (i : ℕ) :
    s.submits i ≠ .admitting := by
  intro hi
  have hmem := (h.admission.senders i hi).1
  rw [(h.admission.closing [] (by rw [hdone]; rfl)).senders] at hmem
  exact List.not_mem_nil hmem

theorem Inv.quiescent_proceed (h : s.Inv cfg calls) (hdone : s.closer = .done) {i : ℕ}
    (hs : s.proceed calls i = some s') : Quiescent s s' := by
  have hclosed : s.closed = true := h.admission.closed (by rw [hdone]; nofun)
  unfold Coordinator.proceed at hs
  split at hs
  case h_1 hpc =>
    rw [if_pos hclosed] at hs
    cases hs
    exact ⟨hdone, rfl, rfl, rfl, isLate_update fun _ => trivial⟩
  case h_6 hpc => exact absurd hpc (h.admission.unclosed (by rw [hdone]; rfl) i)
  case h_7 => cases hs
  all_goals
    repeat' split at hs
    all_goals cases hs
    all_goals exact ⟨hdone, rfl, rfl, rfl, isLate_update fun hl => by simp_all [Submit.IsLate]⟩

theorem Inv.quiescent_submit (h : s.Inv cfg calls) (hdone : s.closer = .done) {i : ℕ}
    {a : SubmitAction} (hs : s.submit cfg calls i a = some s') : Quiescent s s' := by
  have hadmitting := h.not_admitting hdone i
  cases a with
  | proceed => exact h.quiescent_proceed hdone hs
  | enter =>
    simp only [Coordinator.submit] at hs
    split at hs <;> cases hs
    exact ⟨hdone, rfl, rfl, rfl, isLate_update fun _ => trivial⟩
  | receive | leave =>
    simp only [Coordinator.submit, Coordinator.receive, Coordinator.leave] at hs
    split at hs <;> cases hs
    exact ⟨hdone, rfl, rfl, rfl, isLate_update fun hl => by simp_all [Submit.IsLate]⟩
  | send =>
    simp only [Coordinator.submit, Coordinator.send] at hs
    cases hs
  | abandon | refuse =>
    simp only [Coordinator.submit, Coordinator.abandon, Coordinator.refuse] at hs
    split at hs <;> contradiction

theorem Inv.quiescent_step (h : s.Inv cfg calls) (hdone : s.closer = .done) {a : Action R}
    (hs : s.step cfg calls a = some s') : Quiescent s s' := by
  cases a with
  | submit i a => exact h.quiescent_submit hdone hs
  | cancel i e =>
    change s.cancel i e = some s' at hs
    unfold Coordinator.cancel at hs
    split at hs <;> cases hs
    exact ⟨hdone, rfl, rfl, rfl, fun _ => id⟩
  | worker b a =>
    obtain ⟨r, hr, -⟩ := Option.map_eq_some_iff.1 (show s.worker cfg calls b a = some s' from hs)
    by_cases hb : b ∈ s.registered
    · rw [step_exited (h.admission.exited hdone b hb)] at hr
      cases hr
    · rw [step_absent (by rw [h.admission.missing b hb]; rfl)] at hr
      cases hr
  | close a =>
    change s.close a = some s' at hs
    cases a <;> simp [Coordinator.close, hdone] at hs

end Coordinator

/-- Once `Close` has returned nothing is admitted, executed or answered any more, whatever is still
called: the calls that begin then are refused. -/
theorem coordinator_quiescent (cfg : Config) (calls : ℕ → Submission P)
    (actions more : List (Action R)) (s s' : Coordinator P R)
    (hrun : Transition.run (Coordinator.step cfg calls) .initial actions = some s)
    (hdone : s.closer = .done)
    (hmore : Transition.run (Coordinator.step cfg calls) s more = some s') : Quiescent s s' := by
  refine (Transition.run_invariant (I := fun t => t.Inv cfg calls ∧ Quiescent s t) ?_
    ⟨Coordinator.inv_run hrun, hdone, rfl, rfl, rfl, fun _ => id⟩ hmore).2
  rintro t a t' ⟨hinv, hq⟩ hs
  have hstep := hinv.quiescent_step hq.done hs
  exact ⟨Coordinator.inv_step hinv hs, hstep.done, hstep.history.trans hq.history,
    hstep.queues.trans hq.queues, hstep.results.trans hq.results,
    fun i hi => hstep.late i (hq.late i hi)⟩

theorem twoSubmits_quiescent : ∃ s s' : Coordinator ℕ ℕ,
    Transition.run (Coordinator.step pairs fun i => ⟨"orders", i, 1⟩) .initial (twoSubmits 7) = some s ∧
      Transition.run (Coordinator.step pairs fun i => ⟨"orders", i, 1⟩) s
        [.submit 2 .enter, .submit 2 .proceed] = some s' ∧ Quiescent s s' := by
  have hrun : (Transition.run (Coordinator.step pairs fun i => ⟨"orders", i, 1⟩)
      (.initial : Coordinator ℕ ℕ) (twoSubmits 7)).any (fun s => s.closer matches .done &&
        (Transition.run (Coordinator.step pairs fun i => ⟨"orders", i, 1⟩) s
          [.submit 2 .enter, .submit 2 .proceed]).isSome) = true := by
    decide +kernel
  obtain ⟨s, hs, h⟩ := Transition.exists_run _ _ _ hrun
  obtain ⟨hdone, hmore⟩ := Bool.and_eq_true_iff.1 h
  obtain ⟨s', hs'⟩ := Option.isSome_iff_exists.1 hmore
  refine ⟨s, s', hs, hs', coordinator_quiescent pairs _ (twoSubmits 7) _ s s' hs ?_ hs'⟩
  cases hc : s.closer <;> simp_all

/-- The batches and how the executor's calls for them ended. -/
def endings (b : String) (history : List (Entry P R)) : List (List ℕ × Outcome R) :=
  history.filterMap fun
    | .ended b' batch outcome => if b' = b then some (batch, outcome) else none
    | _ => none

theorem endings_fst (b : String) (history : List (Entry P R)) :
    (endings b history).map Prod.fst = endedBatches b history := by
  unfold endings endedBatches
  rw [List.map_filterMap]
  congr 1
  funext e
  cases e <;> simp

theorem mem_endings {b : String} {outcome : Outcome R} (h : .ended b batch outcome ∈ history) :
    (batch, outcome) ∈ endings b history :=
  List.mem_filterMap.2 ⟨_, h, if_pos rfl⟩

theorem eq_of_mem_of_nodup {α β : Type} : ∀ {l : List (List α × β)},
    (l.map Prod.fst).flatten.Nodup → ∀ {p p' : List α × β}, p ∈ l → p' ∈ l →
      ∀ {a : α}, a ∈ p.1 → a ∈ p'.1 → p = p'
  | [], _, _, _, hp, _, _, _, _ => absurd hp List.not_mem_nil
  | head :: l, h, p, p', hp, hp', a, ha, ha' => by
    rw [List.map_cons, List.flatten_cons, List.nodup_append] at h
    obtain ⟨-, hl, hdisjoint⟩ := h
    have hrest : ∀ {q : List α × β}, q ∈ l → a ∈ q.1 → a ∈ (l.map Prod.fst).flatten :=
      fun hq haq => List.mem_flatten_of_mem (List.mem_map_of_mem hq) haq
    rcases List.mem_cons.1 hp with rfl | hpl
    · rcases List.mem_cons.1 hp' with rfl | hpl'
      · rfl
      · exact absurd rfl (hdisjoint a ha a (hrest hpl' ha'))
    · rcases List.mem_cons.1 hp' with rfl | hpl'
      · exact absurd rfl (hdisjoint a ha' a (hrest hpl ha))
      · exact eq_of_mem_of_nodup hl hpl hpl' ha ha'

namespace Coordinator

theorem Inv.endedBatches_isPrefix (h : s.Inv cfg calls) (b : String) :
    endedBatches b s.history <+: batches b s.history :=
  ⟨_, (h.lines b).running⟩

variable {batch : List ℕ} {outcome : Outcome R}

theorem Inv.batches_of_ended (h : s.Inv cfg calls) (he : .ended b batch outcome ∈ s.history) :
    batch ∈ batches b s.history := by
  refine (h.endedBatches_isPrefix b).subset ?_
  rw [← endings_fst]
  exact List.mem_map_of_mem (mem_endings he)

theorem Inv.boundary_of_ended (h : s.Inv cfg calls) (he : .ended b batch outcome ∈ s.history)
    (hi : i ∈ batch) :
    (calls i).boundary = b :=
  h.recorded.boundaries b i
    ((h.batches_sublist b).subset (List.mem_flatten_of_mem (h.batches_of_ended he) hi))

theorem Inv.ended_unique (h : s.Inv cfg calls) {b' : String} {batch' : List ℕ}
    {outcome' : Outcome R} (he : .ended b batch outcome ∈ s.history)
    (he' : .ended b' batch' outcome' ∈ s.history) (hi : i ∈ batch) (hi' : i ∈ batch') :
    batch = batch' ∧ outcome = outcome' := by
  obtain rfl : b = b' := (h.boundary_of_ended he hi).symm.trans (h.boundary_of_ended he' hi')
  have hnodup : (endedBatches b s.history).flatten.Nodup :=
    ((List.IsPrefix.flatten (h.endedBatches_isPrefix b)).sublist.trans (h.batches_sublist b)).nodup
      (h.lines b).nodup
  rw [← endings_fst] at hnodup
  exact Prod.mk.inj (eq_of_mem_of_nodup hnodup (mem_endings he) (mem_endings he') hi hi')

theorem batches_subset_allBatches :
    ∀ batch ∈ batches b history, batch ∈ allBatches history := by
  intro batch hb
  obtain ⟨e, he, heq⟩ := List.mem_filterMap.1 hb
  refine List.mem_filterMap.2 ⟨e, he, ?_⟩
  cases e with
  | started b' batch' prepared =>
    dsimp only at heq
    split_ifs at heq
    exact heq
  | arrived => cases heq
  | ended => cases heq
  | completed => cases heq

end Coordinator

/-- What a call of `Submit` returns is what the executor did with its request. -/
theorem coordinator_truthful (cfg : Config) (calls : ℕ → Submission P)
    (actions : List (Action R)) (s : Coordinator P R)
    (hrun : Transition.run (Coordinator.step cfg calls) .initial actions = some s) :
    Truthful s := by
  have h := Coordinator.inv_run hrun
  refine ⟨fun i hi => ?_, fun i v hi => ?_, fun b batch outcome he hno i hmem v hi => ?_⟩
  · rcases h.returnedClosed i hi with hnot | hdone
    · intro hbatch
      exact hnot _ ((h.batches_sublist _).subset (h.recorded.inBatches i hbatch))
    · exact h.recorded.closedDone i hdone
  · have hran := h.recorded.okDone i v (h.returnedOk i v hi)
    obtain ⟨b, batch, outcomes, k, he, -, hk, -⟩ := id hran
    have hin : i ∈ (allBatches s.history).flatten :=
      List.mem_flatten_of_mem
        (Coordinator.batches_subset_allBatches batch (h.batches_of_ended he))
        (List.mem_of_getElem? hk)
    exact ⟨hran, List.count_eq_one_of_mem h.recorded.batchedOnce hin⟩
  · obtain ⟨b', batch', outcomes, k, he', hlen, hk, -⟩ :=
      h.recorded.okDone i v (h.returnedOk i v hi)
    obtain ⟨rfl, rfl⟩ := h.ended_unique he he' hmem (List.mem_of_getElem? hk)
    exact hno hlen

theorem twoSubmits_truthful : ∃ s : Coordinator ℕ ℕ,
    Transition.run (Coordinator.step pairs fun i => ⟨"orders", i, 1⟩) .initial (twoSubmits 7) = some s ∧
      s.results 1 = some (.ok 7) ∧ Truthful s := by
  have hrun : (Transition.run (Coordinator.step pairs fun i => ⟨"orders", i, 1⟩)
      (.initial : Coordinator ℕ ℕ) (twoSubmits 7)).map
        (fun s => (s.results 1).bind Except.toOption) = some (some 7) := by
    decide +kernel
  obtain ⟨s, hs, hresult⟩ := Option.map_eq_some_iff.1 hrun
  refine ⟨s, hs, ?_, coordinator_truthful pairs _ (twoSubmits 7) s hs⟩
  obtain ⟨c, hc, hok⟩ := Option.bind_eq_some_iff.1 hresult
  rw [hc]
  cases c with
  | error e => cases hok
  | ok v => rw [Option.some.inj hok]

end Orisun.GroupCommit
