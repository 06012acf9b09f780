import Orisun.Proofs.SubscriptionDrain
import Orisun.Wakeups

/-!
# No wake-up is lost

A wake-up is consumed before the read that follows it, so that read sees everything readable when
the call of `wake` started; a wake-up put later is still pending when the reader comes back.
-/

namespace Orisun

open GrowingLog SubscriptionDrain

variable {p : Event → Bool} {start : Option Position}

namespace Subscription

variable {s s' : Subscription}

variable {event : Event}

theorem append_eq_some (h : s.append event = some s') :
    (∀ x ∈ s.log, x.position < event.position) ∧ s' = { s with log := s.log ++ [event] } := by
  unfold append at h
  split_ifs at h with ha
  exact ⟨ha, (Option.some.inj h).symm⟩

variable {g : ℕ}

theorem call_eq_some (h : s.call g = some s') :
    s' = { s with calls := Function.update s.calls g (some s.log.length) } := by
  unfold call at h
  split at h
  · exact (Option.some.inj h).symm
  · cases h

theorem send_eq_some (h : s.send g = some s') :
    ∃ readable, s.calls g = some readable ∧ s' = { s with
      reader := s.reader.wake
      calls := Function.update s.calls g none
      woken := max s.woken readable } := by
  unfold send at h
  split at h
  · cases h
  · exact ⟨_, by assumption, (Option.some.inj h).symm⟩

/-- The matches of the log's beginning that the cursor has not passed. -/
def Unread (p : Event → Bool) (log : List Event) (n : ℕ) (cursor : Option Position) (e : Event) :
    Prop :=
  e ∈ (log.take n).filter p ∧ ∀ c ∈ cursor, c < e.position

structure Inv (p : Event → Bool) (start : Option Position) (s : Subscription) : Prop where
  reader : Reader.Inv p start s.log s.origin s.reader
  calls : ∀ g n, s.calls g = some n → n ≤ s.log.length
  woken : s.woken ≤ s.log.length
  snapshot : s.snapshot ≤ s.log.length
  seen : ∀ page rest, s.reader.state = .delivering page rest →
    s.reader.drain.pending = true ∨ s.woken ≤ s.snapshot
  short : ∀ page rest, s.reader.state = .delivering page rest →
    page.batch.length = 0 ∨ (s.reader.drain.initialized ∧ page.batch.length < batchSize) →
      ∀ e, Unread p s.log s.snapshot s.reader.drain.cursor e → e ∈ rest
  blocked : s.reader.state = .waiting → s.reader.drain.pending = true ∨
    ∀ e, ¬Unread p s.log s.woken s.reader.drain.cursor e

variable {log : List Event} {e : Event}

theorem Unread.mono {n m : ℕ} {cursor : Option Position} (h : Unread p log n cursor e) (hnm : n ≤ m) :
    Unread p log m cursor e :=
  ⟨((List.take_sublist_take_left hnm).filter p).subset h.1, h.2⟩

theorem unread_append {n : ℕ} (hn : n ≤ log.length) {new : List Event} {cursor : Option Position} :
    Unread p (log ++ new) n cursor e ↔ Unread p log n cursor e := by
  unfold Unread
  rw [List.take_append_of_le_length hn]

theorem inv_initial (start : Option Position) : Inv p start (.initial start) where
  reader := Reader.inv_initial start
  calls := by simp [initial]
  woken := le_rfl
  snapshot := le_rfl
  seen := by simp [initial, Reader.initial]
  short := by simp [initial, Reader.initial]
  blocked := fun _ => .inr (by simp [initial, Unread])

theorem Inv.append (h : Inv p start s) (ha : ∀ x ∈ s.log, x.position < event.position) :
    Inv p start { s with log := s.log ++ [event] } where
  reader := h.reader.grow (List.pairwise_singleton ..) fun x hx y hy => by
    rw [List.mem_singleton.1 hy]
    exact ha x hx
  calls := fun g n hg => by
    rw [List.length_append]
    exact (h.calls g n hg).trans (Nat.le_add_right ..)
  woken := by
    rw [List.length_append]
    exact h.woken.trans (Nat.le_add_right ..)
  snapshot := by
    rw [List.length_append]
    exact h.snapshot.trans (Nat.le_add_right ..)
  seen := h.seen
  short := fun page rest hs hlong e he =>
    h.short page rest hs hlong e ((unread_append h.snapshot).1 he)
  blocked := fun hs => (h.blocked hs).imp id fun hall e he =>
    hall e ((unread_append h.woken).1 he)

theorem Inv.call (h : Inv p start s) (g : ℕ) :
    Inv p start { s with calls := Function.update s.calls g (some s.log.length) } := by
  refine ⟨h.reader, fun g' n hg => ?_, h.woken, h.snapshot, h.seen, h.short, h.blocked⟩
  dsimp only at hg ⊢
  rcases eq_or_ne g' g with rfl | hne
  · simp only [Function.update_self, Option.some.injEq] at hg
    exact hg.ge
  · rw [Function.update_of_ne hne] at hg
    exact h.calls g' n hg

theorem Inv.send (h : Inv p start s) {readable : ℕ} (hg : s.calls g = some readable) :
    Inv p start { s with
      reader := s.reader.wake
      calls := Function.update s.calls g none
      woken := max s.woken readable } := by
  refine ⟨h.reader.wake, fun g' n hg' => ?_, max_le h.woken (h.calls g readable hg), h.snapshot,
    fun _ _ _ => .inl rfl, h.short, fun _ => .inl rfl⟩
  dsimp only at hg' ⊢
  rcases eq_or_ne g' g with rfl | hne
  · simp at hg'
  · rw [Function.update_of_ne hne] at hg'
    exact h.calls g' n hg'

theorem mem_getBatch {d : SubscriptionDrain} (hshort : (getBatch p log d.request).length = 0 ∨
      (d.initialized ∧ (getBatch p log d.request).length < batchSize))
    (he : Unread p log log.length d.cursor e) : e ∈ getBatch p log d.request := by
  obtain ⟨hmem, hlt⟩ := he
  rw [List.take_length] at hmem
  unfold SubscriptionDrain.request at hshort ⊢
  by_cases hi : d.initialized = true
  · rw [if_pos hi] at hshort ⊢
    have hsince : e ∈ since Event.position d.cursor (log.filter p) := by
      unfold since
      refine List.mem_filter.2 ⟨hmem, ?_⟩
      rcases hcur : d.cursor with _ | c
      · rfl
      · simpa using (hlt c hcur).le
    unfold getBatch at hshort ⊢
    dsimp only at hshort ⊢
    rw [List.length_take] at hshort
    rw [List.take_of_length_le]
    · exact hsince
    · unfold batchSize at hshort ⊢
      omega
  · rw [if_neg hi] at hshort ⊢
    have hnil : ((log.take log.length).filter p).getLast?.toList.length = 0 := by
      rw [← Reader.getBatch_desc, List.take_length]
      exact hshort.resolve_right fun h => hi h.1
    rw [List.take_length, List.length_eq_zero_iff, Option.toList_eq_nil_iff,
      List.getLast?_eq_none_iff] at hnil
    rw [hnil] at hmem
    cases hmem

variable {reader : Reader}

theorem Inv.read (h : Inv p start s)
    (hr : s.reader.receiveBatch (getBatch p s.log s.reader.drain.request) = some reader) :
    Inv p start { s with
      snapshot := s.log.length
      origin := if s.reader.drain.initialized then s.origin else some s.log.length
      reader := reader } := by
  have hstate := Reader.reading_of_receiveBatch hr
  rw [← List.take_length (l := s.log)] at hr
  have hv := h.reader.validate_getBatch hstate s.log.length
  have hreader := h.reader.read le_rfl hr
  obtain rfl := Option.some.inj ((Reader.receiveBatch_eq hstate hv).symm.trans hr)
  refine ⟨hreader, h.calls, h.woken, le_rfl, fun _ _ _ => .inr h.woken, ?_, by simp⟩
  intro page rest hs hshort e he
  obtain ⟨rfl, rfl⟩ := ReaderState.delivering.inj hs
  rw [List.take_length] at hshort ⊢
  exact mem_getBatch hshort he

theorem Inv.idle (h : Inv p start s) (hreader : Reader.Inv p start s.log s.origin reader)
    (hdelivering : ∀ page rest, reader.state ≠ .delivering page rest)
    (hwaiting : reader.state ≠ .waiting) : Inv p start { s with reader := reader } :=
  ⟨hreader, h.calls, h.woken, h.snapshot, fun page rest hs => absurd hs (hdelivering page rest),
    fun page rest hs => absurd hs (hdelivering page rest), fun hs => absurd hs hwaiting⟩

theorem Inv.next (h : Inv p start s) {page : Page} {rest : List Event}
    (hs : s.reader.state = .delivering page (event :: rest))
    (hreader : Reader.Inv p start s.log s.origin reader)
    (hstate : reader.state = .delivering page rest)
    (hinit : reader.drain.initialized = s.reader.drain.initialized)
    (hpending : reader.drain.pending = s.reader.drain.pending)
    (hcursor : reader.drain.cursor = some event.position)
    (hlt : ∀ c ∈ s.reader.drain.cursor, c ≤ event.position) :
    Inv p start { s with reader := reader } := by
  refine ⟨hreader, h.calls, h.woken, h.snapshot, fun _ _ _ => ?_, ?_, by simp [hstate]⟩
  · rw [hpending]
    exact h.seen page _ hs
  · intro page' rest' hs' hshort e he
    rw [hstate] at hs'
    obtain ⟨rfl, rfl⟩ := ReaderState.delivering.inj hs'
    rw [hinit] at hshort
    have hgt : event.position < e.position := he.2 event.position hcursor
    have hmem := h.short _ _ hs hshort e ⟨he.1, fun c hc => (hlt c hc).trans_lt hgt⟩
    rcases List.mem_cons.1 hmem with rfl | hmem
    · exact absurd hgt (lt_irrefl _)
    · exact hmem

theorem Inv.finish (h : Inv p start s) {page : Page} (hs : s.reader.state = .delivering page []) :
    Inv p start { s with
      reader := { s.reader with
        drain := { s.reader.drain with initialized := true }
        state := if page.batch.length = 0 ∨
            (s.reader.drain.initialized ∧ page.batch.length < batchSize) then .waiting
          else .checking } } := by
  by_cases hshort : page.batch.length = 0 ∨
      (s.reader.drain.initialized ∧ page.batch.length < batchSize)
  · rw [if_pos hshort]
    refine ⟨h.reader.finish hs (.inl rfl), h.calls, h.woken, h.snapshot, by simp, by simp,
      fun _ => (h.seen page [] hs).imp id fun hle e he => ?_⟩
    exact List.not_mem_nil (h.short page [] hs hshort e (Unread.mono he hle))
  · rw [if_neg hshort]
    exact h.idle (h.reader.finish hs (.inr rfl)) (by simp) (by simp)

theorem inv_step {a : SubscriptionAction} (h : Inv p start s) (hs : s.step p a = some s') :
    Inv p start s' := by
  cases a with
  | append event =>
    obtain ⟨ha, rfl⟩ := append_eq_some hs
    exact h.append ha
  | call g =>
    obtain rfl := call_eq_some hs
    exact h.call g
  | send g =>
    obtain ⟨readable, hg, rfl⟩ := send_eq_some hs
    exact h.send hg
  | read =>
    obtain ⟨reader, hr, rfl⟩ := Option.map_eq_some_iff.1 hs
    exact h.read hr
  | reader a =>
    obtain ⟨reader, hr, rfl⟩ := Option.map_eq_some_iff.1 hs
    have hreader := Reader.inv_step h.reader hr
    cases a with
    | receive =>
      obtain ⟨-, -, rfl⟩ := Reader.receive_eq_some hr
      exact h.idle hreader (by simp) (by simp)
    | cancel cause =>
      obtain ⟨-, rfl⟩ := Reader.cancel_eq_some hr
      exact h.idle hreader (by simp) (by simp)
    | check ctxErr chk =>
      obtain ⟨-, rfl | ⟨e, -, rfl⟩⟩ := Reader.check_eq_some hr
      · exact h.idle hreader (by simp) (by simp)
      · exact h.idle hreader (by simp) (by simp)
    | fail ctxErr cause =>
      obtain ⟨-, e, -, rfl⟩ := Reader.fail_eq_some hr
      exact h.idle hreader (by simp) (by simp)
    | skip =>
      obtain ⟨page, event, rest, hd, hc, rfl⟩ := Reader.skip_eq_some hr
      refine h.next hd hreader rfl rfl rfl hc fun c hcc => ?_
      rw [hc, Option.mem_some_iff] at hcc
      exact hcc.ge
    | handle ctxErr chk handler =>
      obtain ⟨page, event, rest, hd, hc, ⟨e, -, rfl⟩ | ⟨-, rfl⟩⟩ := Reader.handle_eq_some hr
      · exact h.idle hreader (by simp) (by simp)
      · exact h.next hd hreader rfl rfl rfl rfl fun c hcc =>
          (h.reader.cursor_lt_head hd hc c hcc).le
    | finish =>
      obtain ⟨page, hd, rfl⟩ := Reader.finish_eq_some hr
      exact h.finish hd

theorem Inv.delivered_or_before (h : Inv p start s) (he : e ∈ s.log.filter p) {c : Position}
    (hc : s.reader.drain.cursor = some c) (hle : e.position ≤ c) :
    e ∈ s.reader.delivered ∨ (∃ a, start = some a ∧ e.position ≤ a) ∨
      start = none ∧ ∃ n first, s.origin = some n ∧
        ((s.log.take n).filter p).getLast? = some first ∧ first ∈ s.reader.delivered ∧
        e.position ≤ first.position := by
  have hsome : s.reader.drain.cursor.isSome = true := by
    rw [hc]
    rfl
  have hprogress := h.reader.progress (.inr hsome)
  have hmem : e ∈ expected p start s.origin s.log → e ∈ s.reader.delivered := by
    rw [← hprogress, List.mem_append]
    refine fun hm => hm.resolve_right fun ha => ?_
    rw [hc] at ha
    exact absurd hle (not_le.2 (mem_after.1 ha).2)
  rcases start with _ | a
  · obtain ⟨n, ho⟩ := Option.isSome_iff_exists.1 (h.reader.origin_isSome (.inr hsome) rfl)
    rw [ho] at hmem hprogress
    by_cases hd : e ∈ (s.log.drop n).filter p
    · exact .inl (hmem (List.mem_append_right _ hd))
    · have hsplit : s.log.filter p = (s.log.take n).filter p ++ (s.log.drop n).filter p := by
        rw [← List.filter_append, List.take_append_drop]
      have htake : e ∈ (s.log.take n).filter p := by
        rw [hsplit] at he
        exact (List.mem_append.1 he).resolve_right hd
      obtain ⟨first, hfirst⟩ := Option.isSome_iff_exists.1
        (List.getLast?_isSome.2 (List.ne_nil_of_mem htake))
      obtain ⟨xs, hxs⟩ := List.getLast?_eq_some_iff.1 hfirst
      refine .inr (.inr ⟨rfl, n, first, ho, hfirst, ?_, ?_⟩)
      · have hne : s.reader.delivered ≠ [] := by
          intro hnil
          have hcur := h.reader.cursor_eq
          rw [hnil, hc] at hcur
          cases hcur
        obtain ⟨d, ds, hds⟩ := List.exists_cons_of_ne_nil hne
        have hexp : expected p none (some n) s.log = first :: (s.log.drop n).filter p := by
          simp [expected, hfirst]
        rw [hexp, hds] at hprogress
        rw [hds, ← (List.cons.inj hprogress).1]
        exact List.mem_cons_self ..
      · have hsorted := h.reader.sorted.filter p
        rw [hsplit, hxs] at hsorted
        rw [hxs] at htake
        rcases List.mem_append.1 htake with hx | hx
        · exact ((List.pairwise_append.1 (List.pairwise_append.1 hsorted).1).2.2 e hx first
            (List.mem_singleton_self _)).le
        · rw [List.mem_singleton.1 hx]
  · by_cases ha : a < e.position
    · exact .inl (hmem (mem_after.2 ⟨he, ha⟩))
    · exact .inr (.inl ⟨a, rfl, not_lt.1 ha⟩)

end Subscription

/-- No wake-up of a subscription is lost. -/
theorem subscription_noLostWakeup (p : Event → Bool) (start : Option Position)
    (actions : List SubscriptionAction) (s : Subscription)
    (hrun : Transition.run (Subscription.step p) (.initial start) actions = some s) :
    s.NoLostWakeup p start := by
  have h : s.Inv p start := Transition.run_invariant (fun _ _ _ h hs => Subscription.inv_step h hs)
    (Subscription.inv_initial start) hrun
  intro hw hp e he hpe
  have hmem : e ∈ (s.log.take s.woken).filter p := List.mem_filter.2 ⟨he, hpe⟩
  have hread := ((h.blocked hw).resolve_left (by simp [hp])) e
  obtain ⟨c, hc, hle⟩ : ∃ c, s.reader.drain.cursor = some c ∧ e.position ≤ c := by
    by_contra hnot
    exact hread ⟨hmem, fun c hc => not_le.1 fun hle => hnot ⟨c, hc, hle⟩⟩
  exact h.delivered_or_before (((List.take_sublist ..).filter p).subset hmem) hc hle

def hintDuringDelivery : List SubscriptionAction :=
  [.append ⟨⟨1, 0⟩, .null⟩, .call 0, .send 0, .reader .receive, .reader (.check none none), .read,
    .append ⟨⟨2, 1⟩, .null⟩, .call 1, .reader (.handle none none none), .send 1, .reader .finish,
    .reader .receive, .reader (.check none none), .read, .reader .skip,
    .reader (.handle none none none), .reader .finish]

theorem noLostWakeup_during_delivery :
    ∃ s, Transition.run (Subscription.step fun _ => true) (.initial (some ⟨0, 0⟩))
        hintDuringDelivery = some s ∧ s.woken = 2 ∧
      s.reader.delivered.map Event.position = [⟨1, 0⟩, ⟨2, 1⟩] ∧
      s.NoLostWakeup (fun _ => true) (some ⟨0, 0⟩) := by
  have hrun : (Transition.run (Subscription.step fun _ => true) (.initial (some ⟨0, 0⟩))
      hintDuringDelivery).map (fun s => (s.woken, s.reader.delivered.map Event.position))
        = some (2, [⟨1, 0⟩, ⟨2, 1⟩]) := by decide
  obtain ⟨s, hs, hfacts⟩ := Option.map_eq_some_iff.1 hrun
  obtain ⟨hwoken, hdelivered⟩ := Prod.mk.inj hfacts
  exact ⟨s, hs, hwoken, hdelivered, subscription_noLostWakeup _ _ hintDuringDelivery s hs⟩

/-- A call of `wake` that has started and not yet put its wake-up leaves the reader blocked, and the
event that was readable when it started undelivered. -/
theorem wake_in_progress :
    ∃ s, Transition.run (Subscription.step fun _ => true) (.initial (some ⟨0, 0⟩))
        [.append ⟨⟨1, 0⟩, .null⟩, .call 0] = some s ∧
      s.reader.state = .waiting ∧ s.reader.drain.pending = false ∧ s.calls 0 = some 1 ∧
      s.log.map Event.position = [⟨1, 0⟩] ∧ s.reader.delivered.map Event.position = [] :=
  ⟨_, rfl, rfl, rfl, rfl, rfl, rfl⟩

end Orisun
