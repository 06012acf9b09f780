import Orisun.Proofs.SubscriptionDrain

/-!
# Delivery is exact

Over a growing log, what a subscription has delivered is what it is for up to its cursor, in order
and once. A call of `drain` ends because a page that does not end it moves the cursor past a match.
-/

namespace Orisun

open GrowingLog SubscriptionDrain

variable {p : Event → Bool} {start : Option Position} {log : List Event} {origin : Option ℕ}

theorem expected_sublist (p : Event → Bool) (start : Option Position) (origin : Option ℕ)
    (log : List Event) : (expected p start origin log).Sublist (log.filter p) := by
  unfold expected
  split
  · exact List.filter_sublist
  · rename_i n
    have hlog : log.filter p = (log.take n).filter p ++ (log.drop n).filter p := by
      rw [← List.filter_append, List.take_append_drop]
    rw [hlog]
    refine List.Sublist.append ?_ (List.Sublist.refl _)
    rcases hl : ((log.take n).filter p).getLast? with _ | e
    · exact List.nil_sublist _
    · obtain ⟨xs, hxs⟩ := List.getLast?_eq_some_iff.1 hl
      rw [hxs]
      exact List.sublist_append_right ..
  · exact List.nil_sublist _

variable {r : Reader}

theorem Reader.Inv.delivered_prefix (h : r.Inv p start log origin) :
    r.delivered <+: expected p start origin log := by
  rcases hc : r.drain.cursor with _ | c
  · rw [h.delivered_eq_nil hc]
    exact List.nil_prefix
  · exact ⟨_, h.progress (.inr (by rw [hc]; rfl))⟩

theorem Reader.Inv.expected_sorted (h : r.Inv p start log origin) :
    Sorted Event.position (expected p start origin log) :=
  (h.sorted.filter p).sublist (expected_sublist p start origin log)

theorem Reader.Inv.delivered_eq (h : r.Inv p start log origin) :
    r.delivered = upTo r.drain.cursor (expected p start origin log) := by
  rcases hc : r.drain.cursor with _ | c
  · rw [h.delivered_eq_nil hc]
    simp [upTo]
  · have hprogress := h.progress (.inr (by rw [hc]; rfl))
    have hsorted := h.expected_sorted
    rw [hc] at hprogress
    rw [← hprogress] at hsorted ⊢
    have hle : ∀ e ∈ r.delivered, e.position ≤ c := by
      intro e he
      by_contra hlt
      have hmem : e ∈ log.filter p := (expected_sublist p start origin log).subset
        (hprogress ▸ List.mem_append_left _ he)
      have hafter := mem_after.2 ⟨hmem, not_le.1 hlt⟩
      exact lt_irrefl _ ((List.pairwise_append.1 hsorted).2.2 e he e hafter)
    unfold upTo
    rw [List.filter_append, List.filter_eq_self.2 (by simpa using hle), List.filter_eq_nil_iff.2,
      List.append_nil]
    intro e he
    simpa using (mem_after.1 he).2

def left (p : Event → Bool) (log : List Event) (cursor : Option Position) : ℕ :=
  (after Event.position cursor (log.filter p)).length

theorem left_le (cursor : Option Position) : left p log cursor ≤ log.length :=
  (List.length_filter_le ..).trans (List.length_filter_le ..)

def stepsLeft (p : Event → Bool) (log : List Event) (r : Reader) : ℕ :=
  match r.state with
  | .waiting => 0
  | .checking => (batchSize + 4) * (left p log r.drain.cursor + 1)
  | .reading => (batchSize + 4) * (left p log r.drain.cursor) + (batchSize + 3)
  | .delivering page rest => (batchSize + 4) * left p log page.cursor + rest.length + 1
  | .stopped _ => 0

theorem Reader.Inv.rest_le (h : r.Inv p start log origin) {page : Page} {rest : List Event}
    (hs : r.state = .delivering page rest) : rest.length ≤ batchSize := by
  obtain ⟨hv, hlimit, hsuffix, -⟩ := h.paging page rest hs
  exact hsuffix.length_le.trans ((validate_eq_ok.1 hv).1.trans hlimit)

theorem Reader.Inv.stepsLeft_le (h : r.Inv p start log origin) :
    stepsLeft p log r ≤ (batchSize + 4) * (log.length + 1) := by
  have hleft : ∀ cursor, (batchSize + 4) * (left p log cursor)
      ≤ (batchSize + 4) * log.length := fun cursor => Nat.mul_le_mul_left _ (left_le cursor)
  unfold stepsLeft
  split
  · exact Nat.zero_le _
  · exact Nat.mul_le_mul_left _ (Nat.succ_le_succ (left_le _))
  · have := hleft r.drain.cursor
    rw [Nat.mul_succ]
    omega
  · rename_i page rest hs
    have := hleft page.cursor
    have := h.rest_le hs
    rw [Nat.mul_succ]
    omega
  · exact Nat.zero_le _

theorem Reader.Inv.left_lt (h : r.Inv p start log origin) {page : Page}
    (hs : r.state = .delivering page [])
    (hlong : ¬(page.batch.length = 0 ∨ (r.drain.initialized ∧ page.batch.length < batchSize))) :
    left p log r.drain.cursor < left p log page.cursor := by
  obtain ⟨-, -, -, hpage⟩ := h.paging page [] hs
  unfold left
  split_ifs at hpage with hi
  · rcases hpage.moved with he | ⟨e, he, hc, hlt⟩
    · exfalso
      rcases hpage.unmoved he with hb | ⟨e, hb, -⟩
      · exact hlong (.inl (by rw [← hb]; rfl))
      · exact hlong (.inr ⟨hi, by rw [hb, List.length_singleton]; decide⟩)
    · rw [hc]
      exact length_after_lt he hlt
  · obtain ⟨hnone, ⟨n, -, -, hb⟩, ⟨hnil, -⟩ | ⟨-, e, he, hc⟩⟩ := hpage
    · exact absurd (.inl (by rw [← hnil]; rfl)) hlong
    · rw [hc, hnone]
      refine length_after_lt ?_ (by simp)
      have hlast : ((log.take n).filter p).getLast? = some e := by
        rw [← Option.mem_toList, ← hb, he]
        exact List.mem_singleton_self e
      exact (List.Sublist.filter p (List.take_sublist n log)).subset
        (List.mem_of_getLast? hlast)

namespace Delivery

variable {d d' : Delivery}

theorem append_eq_some {event : Event} (h : d.append event = some d') :
    (∀ x ∈ d.log, x.position < event.position) ∧ d' = { d with log := d.log ++ [event] } := by
  unfold append at h
  split_ifs at h with ha
  exact ⟨ha, (Option.some.inj h).symm⟩

theorem read_eq_some {n : ℕ} (h : d.read p n = some d') :
    n ≤ d.log.length ∧ ∃ reader,
      d.reader.receiveBatch (getBatch p (d.log.take n) d.reader.drain.request) = some reader ∧
      d' = { d with
        seen := n
        firstRead := d.firstRead.or (some n)
        origin := if d.reader.drain.initialized then d.origin else some n
        reader := reader } := by
  unfold read at h
  by_cases hn : d.seen ≤ n ∧ n ≤ d.log.length
  · rw [if_pos hn] at h
    obtain ⟨reader, hr, rfl⟩ := Option.map_eq_some_iff.1 h
    exact ⟨hn.2, reader, hr, rfl⟩
  · rw [if_neg hn] at h
    cases h

structure Inv (p : Event → Bool) (start : Option Position) (d : Delivery) : Prop where
  reader : Reader.Inv p start d.log d.origin d.reader
  seen : d.seen ≤ d.log.length

variable {a : DeliveryAction}

theorem inv_step (h : Inv p start d) (hs : d.step p a = some d') :
    Inv p start d' := by
  cases a with
  | append event =>
    obtain ⟨ha, rfl⟩ := append_eq_some hs
    refine ⟨h.reader.grow (List.pairwise_singleton ..) fun x hx y hy => ?_, ?_⟩
    · rw [List.mem_singleton.1 hy]
      exact ha x hx
    · rw [List.length_append]
      exact h.seen.trans (Nat.le_add_right ..)
  | wake =>
    cases hs
    exact ⟨h.reader.wake, h.seen⟩
  | read n =>
    obtain ⟨hn, reader, hr, rfl⟩ := read_eq_some hs
    exact ⟨h.reader.read hn hr, hn⟩
  | reader a =>
    obtain ⟨reader, hr, rfl⟩ := Option.map_eq_some_iff.1 hs
    exact ⟨Reader.inv_step h.reader hr, h.seen⟩
  | restart =>
    obtain ⟨reader, hr, rfl⟩ := Option.map_eq_some_iff.1 hs
    obtain ⟨-, rfl⟩ := Reader.restart_eq_some hr
    exact ⟨h.reader.restart, h.seen⟩

theorem stepsLeft_lt (h : Inv p start d) (ha : a.isDrain = true) (hs : d.step p a = some d') :
    d'.log = d.log ∧
      stepsLeft p d.log d'.reader < stepsLeft p d.log d.reader := by
  cases a with
  | append event => cases ha
  | wake => cases ha
  | restart => cases ha
  | read n =>
    obtain ⟨hn, reader, hr, rfl⟩ := read_eq_some hs
    have hinv := h.reader.read hn hr
    have hstate := Reader.reading_of_receiveBatch hr
    obtain rfl := Option.some.inj ((Reader.receiveBatch_eq hstate
      (h.reader.validate_getBatch hstate n)).symm.trans hr)
    have hle := hinv.rest_le rfl
    refine ⟨rfl, ?_⟩
    simp only [stepsLeft, hstate]
    omega
  | reader a =>
    obtain ⟨reader, hr, rfl⟩ := Option.map_eq_some_iff.1 hs
    refine ⟨rfl, ?_⟩
    cases a with
    | receive => cases ha
    | cancel cause => cases ha
    | check ctxErr chk =>
      obtain ⟨hw, rfl | ⟨e, -, rfl⟩⟩ := Reader.check_eq_some hr
      · simp only [stepsLeft, hw, Nat.mul_succ]
        omega
      · simp [stepsLeft, hw]
    | fail ctxErr cause =>
      obtain ⟨hw, e, -, rfl⟩ := Reader.fail_eq_some hr
      simp [stepsLeft, hw]
    | skip =>
      obtain ⟨page, event, rest, hw, -, rfl⟩ := Reader.skip_eq_some hr
      simp [stepsLeft, hw]
    | handle ctxErr chk handler =>
      obtain ⟨page, event, rest, hw, -, ⟨e, -, rfl⟩ | ⟨-, rfl⟩⟩ := Reader.handle_eq_some hr
      · simp [stepsLeft, hw]
      · simp [stepsLeft, hw]
    | finish =>
      obtain ⟨page, hw, rfl⟩ := Reader.finish_eq_some hr
      by_cases hlong : page.batch.length = 0 ∨
          (d.reader.drain.initialized ∧ page.batch.length < batchSize)
      · simp only [stepsLeft, hw, hlong, if_true]
        omega
      · have hlt := Nat.mul_le_mul_left (batchSize + 4) (h.reader.left_lt hw hlong)
        simp only [stepsLeft, hw, hlong, if_false, List.length_nil, Nat.mul_succ] at hlt ⊢
        omega

theorem drain_steps_le : ∀ {actions : List DeliveryAction} {d d' : Delivery}, Inv p start d →
    (∀ a ∈ actions, a.isDrain = true ∨ a = .wake) →
    Transition.run (step p) d actions = some d' →
      (actions.filter DeliveryAction.isDrain).length ≤ stepsLeft p d.log d.reader
  | [], _, _, _, _, _ => Nat.zero_le _
  | a :: actions, d, d', h, hall, hrun => by
    obtain ⟨d1, h1, hrun⟩ := Transition.run_cons.1 hrun
    have ih := drain_steps_le (inv_step h h1) (fun b hb => hall b (List.mem_cons_of_mem a hb)) hrun
    rcases hall a (List.mem_cons_self ..) with ha | rfl
    · obtain ⟨hlog, hlt⟩ := stepsLeft_lt h ha h1
      rw [hlog] at ih
      rw [List.filter_cons_of_pos ha, List.length_cons]
      omega
    · cases h1
      rw [List.filter_cons_of_neg (by simp [DeliveryAction.isDrain])]
      exact ih

theorem exists_drain_step (h : Inv p start d) (hin : d.reader.state.inDrain = true) :
    ∃ a d', a.isDrain = true ∧ d.step p a = some d' ∧ ∀ e, d'.reader.state ≠ .stopped e := by
  rcases hs : d.reader.state with _ | _ | _ | ⟨page, _ | ⟨event, rest⟩⟩ | e
  · rw [hs] at hin
    cases hin
  · have hcheck : d.reader.check none none = some { d.reader with state := .reading } := by
      simp only [Reader.check, hs]
      rfl
    exact ⟨.reader (.check none none), _, rfl, congrArg (Option.map _) hcheck, by simp⟩
  · have hread := Reader.receiveBatch_eq hs (h.reader.validate_getBatch hs d.log.length)
    exact ⟨.read d.log.length, _, rfl,
      (if_pos ⟨h.seen, le_rfl⟩).trans (congrArg (Option.map _) hread), by simp⟩
  · obtain ⟨r', hfinish, hr'⟩ : ∃ r', d.reader.finish = some r' ∧ ∀ e, r'.state ≠ .stopped e := by
      simp only [Reader.finish, hs, Option.some.injEq, exists_eq_left']
      intro e
      split_ifs <;> simp
    exact ⟨.reader .finish, _, rfl, congrArg (Option.map _) hfinish, hr'⟩
  · by_cases hc : d.reader.drain.cursor = some event.position
    · have hskip : d.reader.skip = some { d.reader with state := .delivering page rest } := by
        simp only [Reader.skip, hs]
        exact if_pos hc
      exact ⟨.reader .skip, _, rfl, congrArg (Option.map _) hskip, by simp⟩
    · have hhandle : d.reader.handle none none none
          = some ⟨{ d.reader.drain with cursor := some event.position }, .delivering page rest,
            d.reader.delivered ++ [event]⟩ := by
        simp only [Reader.handle, hs]
        exact if_neg hc
      exact ⟨.reader (.handle none none none), _, rfl, congrArg (Option.map _) hhandle, by simp⟩
  · rw [hs] at hin
    cases hin

theorem cursor_moves (hs : d.step p a = some d')
    (hc : d'.reader.drain.cursor ≠ d.reader.drain.cursor) :
    ∃ page event rest, d.reader.state = .delivering page (event :: rest) ∧
      a = .reader (.handle none none none) ∧ d'.reader.drain.cursor = some event.position ∧
      d'.reader.delivered = d.reader.delivered ++ [event] := by
  cases a with
  | append event =>
    obtain ⟨-, rfl⟩ := append_eq_some hs
    exact absurd rfl hc
  | wake =>
    cases hs
    exact absurd rfl hc
  | read n =>
    obtain ⟨-, reader, hr, rfl⟩ := read_eq_some hs
    have hstate := Reader.reading_of_receiveBatch hr
    unfold Reader.receiveBatch at hr
    rw [hstate] at hr
    dsimp only at hr
    split at hr <;> obtain rfl := Option.some.inj hr <;> exact absurd rfl hc
  | restart =>
    obtain ⟨reader, hr, rfl⟩ := Option.map_eq_some_iff.1 hs
    obtain ⟨-, rfl⟩ := Reader.restart_eq_some hr
    exact absurd rfl hc
  | reader a =>
    obtain ⟨reader, hr, rfl⟩ := Option.map_eq_some_iff.1 hs
    cases a with
    | receive =>
      obtain ⟨-, -, rfl⟩ := Reader.receive_eq_some hr
      exact absurd rfl hc
    | cancel cause =>
      obtain ⟨-, rfl⟩ := Reader.cancel_eq_some hr
      exact absurd rfl hc
    | check ctxErr chk =>
      obtain ⟨-, rfl | ⟨e, -, rfl⟩⟩ := Reader.check_eq_some hr <;> exact absurd rfl hc
    | fail ctxErr cause =>
      obtain ⟨-, e, -, rfl⟩ := Reader.fail_eq_some hr
      exact absurd rfl hc
    | skip =>
      obtain ⟨page, event, rest, -, -, rfl⟩ := Reader.skip_eq_some hr
      exact absurd rfl hc
    | handle ctxErr chk handler =>
      obtain ⟨page, event, rest, hd, -, ⟨e, -, rfl⟩ | ⟨⟨rfl, rfl, rfl⟩, rfl⟩⟩ :=
        Reader.handle_eq_some hr
      · exact absurd rfl hc
      · exact ⟨page, event, rest, hd, rfl, rfl, rfl⟩
    | finish =>
      obtain ⟨page, -, rfl⟩ := Reader.finish_eq_some hr
      exact absurd rfl hc

end Delivery

/-- A subscription delivers what it is for up to its cursor, each event once and in order; its
cursor follows its handler, a page is handed over once it is valid, and calls of `drain` end. -/
theorem delivery_exact (p : Event → Bool) (start : Option Position)
    (actions : List DeliveryAction) (d : Delivery)
    (hrun : Transition.run (Delivery.step p) (.initial start) actions = some d) :
    SubscriptionDelivery p start d := by
  have h : d.Inv p start := Transition.run_invariant (fun _ _ _ h hs => Delivery.inv_step h hs)
    ⟨Reader.inv_initial start, le_rfl⟩ hrun
  refine ⟨?_, h.reader.delivered_eq, fun a d' hs => Delivery.cursor_moves hs, ?_, ?_,
    Delivery.exists_drain_step h⟩
  · exact h.reader.expected_sorted.sublist h.reader.delivered_prefix.sublist
  · intro ctxErr check handler d' hs
    obtain ⟨reader, hr, -⟩ := Option.map_eq_some_iff.1 hs
    obtain ⟨page, event, rest, hd, -⟩ := Reader.handle_eq_some hr
    obtain ⟨hv, -, hsuffix, -⟩ := h.reader.paging page _ hd
    exact ⟨page, event, rest, hd, hsuffix, hv⟩
  · intro more d' hall hmore
    exact (Delivery.drain_steps_le h hall hmore).trans h.reader.stepsLeft_le

def sampleEvents : Event × Event := (⟨⟨1, 0⟩, .null⟩, ⟨⟨2, 1⟩, .null⟩)

/-- The handler fails on the first event; the second one follows before the reader is restarted. -/
def handlerFailsOnce : List DeliveryAction :=
  [.append sampleEvents.1, .wake, .reader .receive, .reader (.check none none), .read 1,
    .reader (.handle none none (some "unavailable")), .append sampleEvents.2, .restart,
    .wake, .reader .receive, .reader (.check none none), .read 2,
    .reader (.handle none none none)]

/-- From a start position the restarted reader begins with the event its handler failed on. -/
theorem delivery_after_failure :
    ∃ d, Transition.run (Delivery.step fun _ => true) (.initial (some ⟨0, 0⟩)) handlerFailsOnce
        = some d ∧ d.reader.delivered.map Event.position = [⟨1, 0⟩] ∧
      SubscriptionDelivery (fun _ => true) (some ⟨0, 0⟩) d := by
  have hrun : (Transition.run (Delivery.step fun _ => true) (.initial (some ⟨0, 0⟩))
      handlerFailsOnce).map (fun d => d.reader.delivered.map Event.position)
        = some [⟨1, 0⟩] := by decide
  obtain ⟨d, hd, hdel⟩ := Option.map_eq_some_iff.1 hrun
  exact ⟨d, hd, hdel, delivery_exact _ _ handlerFailsOnce d hd⟩

/-- Without one it asks for the latest match again, and the event its first read found is never
delivered. -/
theorem delivery_misses_first_read :
    ∃ d, Transition.run (Delivery.step fun _ => true) (.initial none) handlerFailsOnce = some d ∧
      d.firstRead = some 1 ∧ d.reader.delivered.map Event.position = [⟨2, 1⟩] ∧
      (upTo d.reader.drain.cursor (expected (fun _ => true) none d.firstRead d.log)).map
        Event.position = [⟨1, 0⟩, ⟨2, 1⟩] := by
  have hrun : (Transition.run (Delivery.step fun _ => true) (.initial none) handlerFailsOnce).map
      (fun d => (d.firstRead, d.reader.delivered.map Event.position,
        (upTo d.reader.drain.cursor (expected (fun _ => true) none d.firstRead d.log)).map
          Event.position)) = some (some 1, [⟨2, 1⟩], [⟨1, 0⟩, ⟨2, 1⟩]) := by decide
  obtain ⟨d, hd, hfacts⟩ := Option.map_eq_some_iff.1 hrun
  obtain ⟨h1, h2⟩ := Prod.mk.inj hfacts
  obtain ⟨h2, h3⟩ := Prod.mk.inj h2
  exact ⟨d, hd, h1, h2, h3⟩

end Orisun
