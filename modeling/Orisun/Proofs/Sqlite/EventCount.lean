import Orisun.Sqlite.EventCount

/-!
# The count of events is ahead from the first event on

The first number that is read is the number of events in the table, the event in progress among
them.
-/

namespace Orisun.Sqlite.EventCount

variable {s s' : EventCount} {log : List Position} {p e : Position} {saved : Option ℕ}

/-- The number after `k` events: none before the first, then ahead by some of the events there are. -/
def Ahead (events k : ℕ) (saved : Option ℕ) : Prop :=
  (k = 0 ∧ saved = none) ∨ 0 < k ∧ ∃ n, 0 < n ∧ n ≤ events ∧ saved = some (k + n)

/-- The projector is at a position of the log, or before all of them. -/
def Known (log : List Position) (p : Position) : Prop := p = notExistsPosition ∨ p ∈ log

def ProcessSound (s : EventCount) : Prop :=
  match s.process with
  | none => Ahead s.log.length s.handled s.saved
  | some (.waiting cursor) => cursor = s.checkpoint ∧ Ahead s.log.length s.handled s.saved
  | some (.projecting e) => next s.log s.checkpoint = some e ∧ Ahead s.log.length s.handled s.saved
  | some (.saving e newCount) =>
    next s.log s.checkpoint = some e ∧ Ahead s.log.length (s.handled + 1) (some newCount)
  | some (.publishing e) | some (.storing e) =>
    next s.log s.checkpoint = some e ∧ Ahead s.log.length (s.handled + 1) s.saved

structure Inv (s : EventCount) : Prop where
  sorted : GrowingLog.Sorted id s.log
  above : ∀ p ∈ s.log, notExistsPosition < p
  known : Known s.log s.checkpoint
  process : s.ProcessSound

theorem Ahead.mono {events more k : ℕ} (h : Ahead events k saved) (hle : events ≤ more) :
    Ahead more k saved := by
  rcases h with h | ⟨hk, n, hn, hle', hs⟩
  · exact .inl h
  · exact .inr ⟨hk, n, hn, hle'.trans hle, hs⟩

theorem Ahead.getEventsCount {k count : ℕ} (h : Ahead log.length k saved) (he : e ∈ log)
    (hc : getEventsCount log saved false false = some count) :
    Ahead log.length (k + 1) (some (count + 1)) := by
  have hpos : 0 < log.length := List.length_pos_of_mem he
  rcases h with ⟨rfl, rfl⟩ | ⟨hk, n, hn, hle, rfl⟩
  · cases hc
    exact .inr ⟨Nat.one_pos, log.length, hpos, le_rfl, by rw [Nat.zero_add, Nat.add_comm]⟩
  · cases hc
    exact .inr ⟨Nat.succ_pos k, n, hn, hle, by rw [Nat.add_right_comm]⟩

theorem next_mem (h : next log p = some e) : e ∈ log := List.mem_of_find?_eq_some h

theorem next_append (h : next log p = some e) (q : Position) : next (log ++ [q]) p = some e := by
  unfold next at h ⊢
  rw [List.find?_append, h]
  rfl

theorem handled_store (hs : GrowingLog.Sorted id s.log) (he : next s.log s.checkpoint = some e)
    (process : Option EventCountProcess) :
    handled { s with checkpoint := e, process } = s.handled + 1 := by
  have hup := GrowingLog.upTo_find? hs he
  unfold handled
  simp only [id] at hup ⊢
  rw [hup, List.length_append]
  rfl

theorem handled_append {q : Position} (hk : Known s.log s.checkpoint) (hq : notExistsPosition < q)
    (habove : ∀ p ∈ s.log, p < q) : handled { s with log := s.log ++ [q] } = s.handled := by
  have hlt : s.checkpoint < q := by
    rcases hk with hk | hk
    · rwa [hk]
    · exact habove _ hk
  have hnil : GrowingLog.upTo id s.checkpoint [q] = [] :=
    GrowingLog.upTo_eq_nil (by simpa using hlt)
  unfold handled
  rw [GrowingLog.upTo_append, hnil, List.append_nil]

theorem Inv.append (h : Inv s) {q : Position} (hq : notExistsPosition < q)
    (habove : ∀ p ∈ s.log, p < q) : Inv { s with log := s.log ++ [q] } where
  sorted := h.sorted.append (List.pairwise_singleton _ _) (by simpa [GrowingLog.Above] using habove)
  above p hp := by
    rcases List.mem_append.1 hp with hp | hp
    · exact h.above p hp
    · rwa [List.mem_singleton.1 hp]
  known := h.known.imp id (List.mem_append_left _)
  process := by
    have hcount := handled_append h.known hq habove
    have hle : s.log.length ≤ (s.log ++ [q]).length := by simp
    have hp := h.process
    unfold ProcessSound at hp ⊢
    rw [hcount]
    rcases hproc : s.process with _ | ⟨cursor⟩ | ⟨e⟩ | ⟨e, n⟩ | ⟨e⟩ | ⟨e⟩ <;>
      simp only [hproc] at hp ⊢
    · exact hp.mono hle
    · exact ⟨hp.1, hp.2.mono hle⟩
    · exact ⟨next_append hp.1 q, hp.2.mono hle⟩
    · exact ⟨next_append hp.1 q, hp.2.mono hle⟩
    · exact ⟨next_append hp.1 q, hp.2.mono hle⟩
    · exact ⟨next_append hp.1 q, hp.2.mono hle⟩

theorem Inv.step (h : Inv s) {a : Action} (ha : s.failureFree a = true)
    (hs : s.step a = some s') : Inv s' := by
  obtain ⟨hsorted, habove, hknown, hp⟩ := h
  rcases s with ⟨log, saved, checkpoint, process⟩
  cases a with
  | append q =>
    simp only [EventCount.step] at hs
    split_ifs at hs with hguard
    cases hs
    exact Inv.append ⟨hsorted, habove, hknown, hp⟩ hguard.1 hguard.2
  | start =>
    rcases process with _ | pr <;> simp only [EventCount.step, reduceCtorEq] at hs
    cases hs
    exact ⟨hsorted, habove, hknown, rfl, hp⟩
  | stop =>
    cases hs
    rcases process with _ | ⟨cursor⟩ | ⟨e⟩ | ⟨e, n⟩ | ⟨e⟩ | ⟨e⟩ <;>
      simp only [failureFree, atRest, Bool.false_eq_true] at ha
    · exact ⟨hsorted, habove, hknown, hp⟩
    · exact ⟨hsorted, habove, hknown, hp.2⟩
  | deliver =>
    rcases process with _ | ⟨cursor⟩ | ⟨e⟩ | ⟨e, n⟩ | ⟨e⟩ | ⟨e⟩ <;>
      simp only [EventCount.step, reduceCtorEq] at hs
    obtain ⟨e, hn, rfl⟩ := Option.map_eq_some_iff.1 hs
    obtain ⟨rfl, hahead⟩ := hp
    exact ⟨hsorted, habove, hknown, hn, hahead⟩
  | read cacheFails countFails =>
    rcases process with _ | ⟨cursor⟩ | ⟨e⟩ | ⟨e, n⟩ | ⟨e⟩ | ⟨e⟩ <;>
      simp only [EventCount.step, reduceCtorEq] at hs
    obtain ⟨hn, hahead⟩ := hp
    obtain ⟨rfl, rfl⟩ : cacheFails = false ∧ countFails = false := by
      simpa [failureFree] using ha
    split at hs
    · cases hs
      exact ⟨hsorted, habove, hknown, hn, hahead⟩
    · rename_i count hcount
      cases hs
      exact ⟨hsorted, habove, hknown, hn, hahead.getEventsCount (next_mem hn) hcount⟩
  | save fault =>
    rcases process with _ | ⟨cursor⟩ | ⟨e⟩ | ⟨e, n⟩ | ⟨e⟩ | ⟨e⟩ <;>
      simp only [EventCount.step, reduceCtorEq] at hs
    obtain rfl : fault = .none := of_decide_eq_true ha
    cases hs
    exact ⟨hsorted, habove, hknown, hp⟩
  | publish fails =>
    rcases process with _ | ⟨cursor⟩ | ⟨e⟩ | ⟨e, n⟩ | ⟨e⟩ | ⟨e⟩ <;>
      simp only [EventCount.step, reduceCtorEq] at hs
    obtain rfl : fails = false := by simpa [failureFree] using ha
    cases hs
    exact ⟨hsorted, habove, hknown, hp⟩
  | store fault =>
    rcases process with _ | ⟨cursor⟩ | ⟨e⟩ | ⟨e, n⟩ | ⟨e⟩ | ⟨e⟩ <;>
      simp only [EventCount.step, reduceCtorEq] at hs
    obtain rfl : fault = .none := of_decide_eq_true ha
    cases hs
    obtain ⟨hn, hahead⟩ := hp
    refine ⟨hsorted, habove, .inr (next_mem hn), rfl, ?_⟩
    have hcount := handled_store (s := ⟨log, saved, checkpoint, some (.storing e)⟩) hsorted hn
      (some (.waiting e))
    rw [← hcount] at hahead
    exact hahead

theorem Inv.ahead (h : Inv s) (hrest : s.atRest = true) :
    Ahead s.log.length s.handled s.saved := by
  have hp := h.process
  rcases s with ⟨log, saved, checkpoint, process⟩
  rcases process with _ | ⟨cursor⟩ | ⟨e⟩ | ⟨e, n⟩ | ⟨e⟩ | ⟨e⟩ <;>
    simp only [atRest, Bool.false_eq_true] at hrest
  · exact hp
  · exact hp.2

theorem inv_initial : Inv initial :=
  ⟨List.Pairwise.nil, by simp [initial], .inl rfl, .inl ⟨rfl, rfl⟩⟩

/-- Without any failure, the number is that of the events handled exactly until the first one is.
From then on it is ahead by the number of events there were when the first was read. -/
theorem eventCount_exact_iff {as : List Action} {s : EventCount}
    (hr : Transition.run EventCount.step initial as = some s)
    (hf : Transition.Along EventCount.step (fun s a => s.failureFree a = true) initial as)
    (hrest : s.atRest = true) :
    (s.saved.getD 0 = s.handled ↔ s.handled = 0) ∧
    (s.handled ≠ 0 → ∃ n, 0 < n ∧ n ≤ s.log.length ∧ s.saved = some (s.handled + n)) := by
  have hinv := Transition.run_invariant_along (I := Inv) (fun _ _ _ hi ha hs => hi.step ha hs)
    inv_initial hf hr
  rcases hinv.ahead hrest with ⟨hk, hnone⟩ | ⟨hk, n, hn, hle, hsaved⟩
  · simp [hk, hnone]
  · refine ⟨iff_of_false ?_ hk.ne', fun _ => ⟨n, hn, hle, hsaved⟩⟩
    rw [hsaved, Option.getD_some]
    omega

def oneEvent : List Action :=
  [.append ⟨1, 1⟩, .start, .deliver, .read false false, .save .none, .publish false, .store .none]

def twoEvents : List Action :=
  [.start, .append ⟨1, 1⟩, .deliver, .read false false, .append ⟨2, 2⟩, .save .none, .publish false,
    .store .none, .deliver, .read false false, .save .none, .publish false, .store .none]

theorem eventCount_exact_iff_twoEvents : ∃ s,
    Transition.run EventCount.step initial twoEvents = some s ∧ s.handled = 2 ∧
    ∃ n, 0 < n ∧ n ≤ s.log.length ∧ s.saved = some (s.handled + n) := by
  obtain ⟨s, hrun, hs⟩ := Transition.exists_run initial twoEvents
    (fun s => decide (s.handled = 2 ∧ s.atRest = true ∧
      Transition.checkAlong EventCount.step failureFree initial twoEvents = true))
    (by decide +kernel : (Transition.run EventCount.step _ _).any _ = true)
  obtain ⟨hk, hrest, hcheck⟩ := of_decide_eq_true hs
  have hf : Transition.Along EventCount.step (fun s a => s.failureFree a = true) initial twoEvents :=
    Transition.along_of_checkAlong (fun _ _ h => h) hcheck
  exact ⟨s, hrun, hk, (eventCount_exact_iff hrun hf hrest).2 (by omega)⟩

/-- One event is counted as two. -/
theorem one_event_counted_twice : ∃ s,
    Transition.run EventCount.step initial oneEvent = some s ∧
    Transition.checkAlong EventCount.step failureFree initial oneEvent = true ∧
    s.atRest = true ∧ s.handled = 1 ∧ s.saved = some 2 := by
  obtain ⟨s, hrun, hs⟩ := Transition.exists_run initial oneEvent
    (fun s => decide (Transition.checkAlong EventCount.step failureFree initial oneEvent = true ∧
      s.atRest = true ∧ s.handled = 1 ∧ s.saved = some 2))
    (by decide +kernel : (Transition.run EventCount.step _ _).any _ = true)
  exact ⟨s, hrun, of_decide_eq_true hs⟩

end Orisun.Sqlite.EventCount
