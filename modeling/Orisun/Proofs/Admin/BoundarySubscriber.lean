import Mathlib.Data.List.Perm.Basic
import Orisun.Admin.BoundarySubscriber
import Orisun.Proofs.SubscriptionDrain

/-!
# No lifecycle event is dropped

Whatever the source, the event handed over next is the first match after the cursor, and the cursor
moves to it only after it has been handled or has a retry loop.
-/

namespace Orisun.Admin

open GrowingLog

variable {R : Type} {p : Event → Bool} {log : List Event} {cursor : Position}

/-- Apart from events up to the cursor, what is left of a page comes next. -/
def Ahead (p : Event → Bool) (log : List Event) (cursor : Position) (rest : List Event) : Prop :=
  ∃ row news, rest = row ++ news ∧ (∀ e ∈ row, e.position ≤ cursor) ∧
    news <+: after Event.position (some cursor) (log.filter p)

def Source.Sound (p : Event → Bool) (log : List Event) (cursor : Position) : Source → Prop
  | .replay page => page.cursor = cursor ∧ Ahead p log cursor page.rest
  | .subscription reader => reader.drain.cursor = some cursor ∧
      ∃ start origin, Reader.Inv p (some start) log origin reader

def Next (p : Event → Bool) (log : List Event) (cursor : Position) (e : Event) : Prop :=
  ∃ more, after Event.position (some cursor) (log.filter p) = e :: more

theorem ahead_read (hs : Sorted Event.position log) (snapshot : ℕ) (cursor : Position) :
    Ahead p log cursor (ReplayPage.read p log snapshot cursor).rest := by
  obtain ⟨row, news, hbatch, hrow, hnews⟩ := Reader.getBatch_asc (p := p) hs snapshot (some cursor)
  refine ⟨row, news, hbatch, ?_, hnews⟩
  rcases hrow with rfl | ⟨e, rfl, he⟩
  · simp
  · intro f hf
    rw [List.mem_singleton.1 hf]
    exact (Option.some.inj he).ge

variable {e : Event} {rest : List Event}

theorem Ahead.tail (h : Ahead p log cursor (e :: rest)) (he : ¬ cursor < e.position) :
    Ahead p log cursor rest := by
  obtain ⟨row, news, hrest, hrow, hnews⟩ := h
  rcases row with _ | ⟨f, row⟩
  · have hmem := hnews.subset (hrest ▸ List.mem_cons_self ..)
    exact absurd (mem_after.1 hmem).2 he
  · exact ⟨row, news, (List.cons.inj hrest).2,
      fun g hg => hrow g (List.mem_cons_of_mem f hg), hnews⟩

theorem Ahead.next (h : Ahead p log cursor (e :: rest)) (he : cursor < e.position) :
    ∃ more, after Event.position (some cursor) (log.filter p) = e :: (rest ++ more) := by
  obtain ⟨row, news, hrest, hrow, more, hmore⟩ := h
  rcases row with _ | ⟨f, row⟩
  · exact ⟨more, by rw [← hmore, ← List.cons_append, hrest, List.nil_append]⟩
  · have hle := hrow f (List.mem_cons_self ..)
    rw [← (List.cons.inj hrest).1] at hle
    exact absurd he hle.not_gt

theorem Ahead.grow (h : Ahead p log cursor rest) (new : List Event) :
    Ahead p (log ++ new) cursor rest := by
  obtain ⟨row, news, hrest, hrow, hnews⟩ := h
  refine ⟨row, news, hrest, hrow, hnews.trans ?_⟩
  rw [List.filter_append, after_append]
  exact List.prefix_append ..

theorem Source.head?_replay {page : ReplayPage} (h : (Source.replay page).head? = some e) :
    page.cursor < e.position ∧ ∃ rest, page.rest = e :: rest := by
  simp only [Source.head?, Option.filter_eq_some_iff, decide_eq_true_eq] at h
  obtain ⟨rest, hrest⟩ := List.head?_eq_some_iff.1 h.1
  exact ⟨h.2, rest, hrest⟩

variable {reader : Reader}

theorem Source.head?_subscription (h : (Source.subscription reader).head? = some e) :
    ∃ page rest, reader.state = .delivering page (e :: rest) ∧
      reader.drain.cursor ≠ some e.position := by
  simp only [Source.head?] at h
  split at h
  · split_ifs at h with hc
    cases h
    exact ⟨_, _, by assumption, hc⟩
  · cases h

variable {source : Source}

theorem Source.Sound.next (h : source.Sound p log cursor) (he : source.head? = some e) :
    Next p log cursor e := by
  cases source with
  | replay page =>
    obtain ⟨rfl, hahead⟩ := h
    obtain ⟨hlt, rest, hrest⟩ := Source.head?_replay he
    rw [hrest] at hahead
    obtain ⟨more, hmore⟩ := hahead.next hlt
    exact ⟨_, hmore⟩
  | subscription reader =>
    obtain ⟨hc, start, origin, hinv⟩ := h
    obtain ⟨page, rest, hstate, hne⟩ := Source.head?_subscription he
    obtain ⟨more, hmore⟩ := (hinv.forward hstate).head hne
    rw [hc] at hmore
    exact ⟨_, hmore⟩

theorem Source.Sound.advance {source' : Source} (h : source.Sound p log cursor)
    (hs : Sorted Event.position log) (he : source.head? = some e)
    (hn : source.next e = some source') : source'.Sound p log e.position := by
  cases source with
  | replay page =>
    obtain ⟨rfl, hahead⟩ := h
    obtain ⟨hlt, rest, hrest⟩ := Source.head?_replay he
    rw [hrest] at hahead
    obtain ⟨more, hmore⟩ := hahead.next hlt
    cases hn
    refine ⟨rfl, [], rest, ?_, by simp, more, (after_head hs hmore).2.2.2.symm⟩
    rw [hrest]
    rfl
  | subscription reader =>
    obtain ⟨hc, start, origin, hinv⟩ := h
    obtain ⟨page, rest, hstate, hne⟩ := Source.head?_subscription he
    obtain ⟨reader', hr, rfl⟩ := Option.map_eq_some_iff.1 hn
    have hhandle : reader.handle none none none = some
        ⟨{ reader.drain with cursor := some e.position }, .delivering page rest,
          reader.delivered ++ [e]⟩ := by
      simp only [Reader.handle, hstate, if_neg hne]
      rfl
    obtain rfl := Option.some.inj (hhandle.symm.trans hr)
    exact ⟨rfl, start, origin, hinv.handle_forward hstate hne (hinv.started rfl).1⟩

variable {new : List Event}

theorem Source.Sound.grow (h : source.Sound p log cursor) (hn : Sorted Event.position new)
    (ha : Above Event.position log new) :
    source.Sound p (log ++ new) cursor := by
  cases source with
  | replay page => exact ⟨h.1, h.2.grow new⟩
  | subscription reader =>
    obtain ⟨hc, start, origin, hinv⟩ := h
    exact ⟨hc, start, origin, hinv.grow hn ha⟩

def MainState.Sound (p : Event → Bool) (log : List Event) (cursor : Position) : MainState R → Prop
  | .reading c => c = cursor
  | .following source => source.Sound p log cursor
  | .handling source event _ => source.Sound p log cursor ∧ source.head? = some event
  | .failed source event => source.Sound p log cursor ∧ source.head? = some event
  | .handled source event => source.Sound p log cursor ∧ source.head? = some event
  | _ => True

theorem Source.sound_initial (hs : Sorted Event.position log) (cursor : Position) :
    (Source.subscription (.initial (some cursor))).Sound p log cursor := by
  refine ⟨rfl, cursor, none, ?_⟩
  have hgrow := (Reader.inv_initial (p := p) (some cursor)).grow hs (by simp [Above])
  rwa [List.nil_append] at hgrow

theorem Source.Sound.wake (h : (Source.subscription reader).Sound p log cursor) :
    (Source.subscription reader.wake).Sound p log cursor := by
  obtain ⟨hc, start, origin, hinv⟩ := h
  exact ⟨hc, start, origin, hinv.wake⟩

variable {reader' : Reader}

theorem readerStep_sound {a : ReaderAction} (h : (Source.subscription reader).Sound p log cursor)
    (hr : readerStep reader a = some reader') :
    (Source.subscription reader').Sound p log cursor := by
  obtain ⟨hc, start, origin, hinv⟩ := h
  have hstep : reader.step a = some reader' ∧ reader'.drain.cursor = reader.drain.cursor := by
    cases a with
    | receive =>
      obtain ⟨-, -, rfl⟩ := Reader.receive_eq_some hr
      exact ⟨hr, rfl⟩
    | cancel cause =>
      obtain ⟨-, rfl⟩ := Reader.cancel_eq_some hr
      exact ⟨hr, rfl⟩
    | check ctxErr chk =>
      obtain ⟨-, rfl | ⟨e, -, rfl⟩⟩ := Reader.check_eq_some hr
      · exact ⟨hr, rfl⟩
      · exact ⟨hr, rfl⟩
    | fail ctxErr cause =>
      obtain ⟨-, e, -, rfl⟩ := Reader.fail_eq_some hr
      exact ⟨hr, rfl⟩
    | skip =>
      obtain ⟨page, event, rest, -, -, rfl⟩ := Reader.skip_eq_some hr
      exact ⟨hr, rfl⟩
    | handle ctxErr chk handler => cases hr
    | finish =>
      obtain ⟨page, -, rfl⟩ := Reader.finish_eq_some hr
      exact ⟨hr, rfl⟩
  exact ⟨hstep.2.trans hc, start, origin, Reader.inv_step hinv hstep.1⟩

theorem refuse_sound {ctxErr chk : Option String}
    (h : (Source.subscription reader).Sound p log cursor)
    (hr : refuse reader ctxErr chk = some reader') :
    (Source.subscription reader').Sound p log cursor := by
  obtain ⟨hc, start, origin, hinv⟩ := h
  unfold refuse at hr
  split_ifs at hr with hcheck
  obtain ⟨page, event, rest, hstate, -, ⟨e, he, rfl⟩ | ⟨⟨rfl, rfl, -⟩, -⟩⟩ :=
    Reader.handle_eq_some hr
  · exact ⟨hc, start, origin, hinv.stop hstate he⟩
  · cases hcheck

theorem read_sound {snapshot : ℕ} (h : (Source.subscription reader).Sound p log cursor)
    (hr : reader.receiveBatch (getBatch p (log.take snapshot) reader.drain.request)
      = some reader') : (Source.subscription reader').Sound p log cursor := by
  obtain ⟨hc, start, origin, hinv⟩ := h
  rw [List.take_eq_take_min] at hr
  have hstate := Reader.reading_of_receiveBatch hr
  have heq := Reader.receiveBatch_eq hstate (hinv.validate_getBatch hstate (min snapshot log.length))
  have hinv' := hinv.read (Nat.min_le_right ..) hr
  obtain rfl := Option.some.inj (heq.symm.trans hr)
  exact ⟨hc, start, _, hinv'⟩

variable {m : MainState R}

theorem MainState.current_step {m' : MainState R} {exclusive : Bool} {a : SourceAction}
    (hm : m.step p exclusive log cursor a = some m') :
    m'.current = m.current ∧ ∀ source event, m' ≠ .handled source event := by
  unfold MainState.step at hm
  split at hm
  case h_1 => split_ifs at hm; cases hm; exact ⟨rfl, by simp⟩
  case h_2 => split_ifs at hm; cases hm; exact ⟨rfl, by simp⟩
  case h_6 => split_ifs at hm <;> cases hm <;> exact ⟨rfl, by simp⟩
  case h_15 => cases hm
  all_goals
    first
    | (cases hm; exact ⟨rfl, by simp⟩)
    | (obtain ⟨_, -, rfl⟩ := Option.map_eq_some_iff.1 hm; exact ⟨rfl, by simp⟩)

theorem MainState.step_sound {m' : MainState R} {exclusive : Bool} {a : SourceAction}
    (hs : Sorted Event.position log) (h : m.Sound p log cursor)
    (hm : m.step p exclusive log cursor a = some m') :
    m'.Sound p log cursor := by
  unfold MainState.step at hm
  split at hm
  · split_ifs at hm
    cases hm
    exact rfl
  · split_ifs at hm
    cases hm
    exact Source.sound_initial hs cursor
  · cases hm
    cases h
    exact ⟨rfl, ahead_read hs _ _⟩
  · cases hm
    exact trivial
  · obtain ⟨page', hpage, rfl⟩ := Option.map_eq_some_iff.1 hm
    rename_i page
    obtain ⟨hc, hahead⟩ := h
    unfold ReplayPage.skip at hpage
    split at hpage
    · rename_i e rest hrest
      split_ifs at hpage with hlt
      cases hpage
      rw [hrest] at hahead
      exact ⟨hc, hahead.tail (hc ▸ hlt)⟩
    · cases hpage
  · rename_i page
    split_ifs at hm <;> cases hm
    · exact trivial
    · exact h.1
  · cases hm
    exact Source.sound_initial hs cursor
  · cases hm
    exact trivial
  · cases hm
    exact Source.Sound.wake h
  · cases hm
    exact ⟨Source.Sound.wake h.1, h.2⟩
  · obtain ⟨reader', hr, rfl⟩ := Option.map_eq_some_iff.1 hm
    exact read_sound h hr
  · obtain ⟨reader', hr, rfl⟩ := Option.map_eq_some_iff.1 hm
    exact readerStep_sound h hr
  · obtain ⟨reader', hr, rfl⟩ := Option.map_eq_some_iff.1 hm
    exact refuse_sound h hr
  · cases hm
    exact trivial
  · cases hm

def Subscriber.retried (s : Subscriber R) : List Event := s.loops.map RetryLoop.event

/-- The event has been handled, or a retry loop works on it. -/
def Subscriber.Covers (s : Subscriber R) (e : Event) : Prop := e ∈ s.succeeded ∨ e ∈ s.retried

structure Following.Inv (p : Event → Bool) (f : Following R) : Prop where
  sorted : Sorted Event.position f.log
  cursor : f.subscriber.cursor = notExistsPosition ∨
    ∃ e ∈ f.log, e.position = f.subscriber.cursor
  above : ∀ e ∈ f.log, notExistsPosition < e.position
  main : f.subscriber.main.Sound p f.log f.subscriber.cursor
  handedSorted : Sorted Event.position f.subscriber.handed
  /-- What has been handed over is up to the cursor, apart from the event being worked on. -/
  handed : ∃ before, f.subscriber.handed = before ++ f.subscriber.main.current.toList ∧
    ∀ e ∈ before, e.position ≤ f.subscriber.cursor
  keys : (f.subscriber.retried.map retryKey).Nodup
  retrying : f.subscriber.retrying.Perm (f.subscriber.retried.map retryKey)
  retried : ∀ e ∈ f.subscriber.retried, e ∈ f.log.filter p
  leaving : ∀ l ∈ f.subscriber.loops, l.state = .leaving → l.event ∈ f.subscriber.succeeded
  covered : DistinctKeys p f.log → ∀ e ∈ f.log, p e = true →
    e.position ≤ f.subscriber.cursor → f.subscriber.Covers e
  handled : DistinctKeys p f.log → ∀ source event, f.subscriber.main = .handled source event →
    f.subscriber.Covers event

theorem Following.inv_initial : (Following.initial : Following R).Inv p where
  sorted := .nil
  cursor := .inl rfl
  above := by simp [initial]
  main := trivial
  handedSorted := .nil
  handed := ⟨[], rfl, by simp⟩
  keys := .nil
  retrying := .nil
  retried := by simp [initial, Subscriber.initial, Subscriber.retried]
  leaving := by simp [initial, Subscriber.initial]
  covered := by simp [initial]
  handled := by simp [initial, Subscriber.initial]

theorem DistinctKeys.of_append (h : DistinctKeys p (log ++ new)) :
    DistinctKeys p log := by
  unfold DistinctKeys at h ⊢
  rw [List.filter_append, List.map_append] at h
  exact h.of_append_left

theorem DistinctKeys.eq (h : DistinctKeys p log) {e' : Event} (he : e ∈ log.filter p)
    (he' : e' ∈ log.filter p) (hk : retryKey e = retryKey e') : e = e' :=
  List.inj_on_of_nodup_map h he he' hk

theorem MainState.Sound.grow (h : m.Sound p log cursor) (hn : Sorted Event.position new)
    (ha : Above Event.position log new) :
    m.Sound p (log ++ new) cursor := by
  cases m with
  | following source => exact Source.Sound.grow h hn ha
  | handling source event run => exact ⟨h.1.grow hn ha, h.2⟩
  | failed source event => exact ⟨h.1.grow hn ha, h.2⟩
  | handled source event => exact ⟨h.1.grow hn ha, h.2⟩
  | _ => exact h

theorem appendEventTo_eq_some {event : Event} {log' : List Event}
    (h : appendEventTo log event = some log') :
    log' = log ++ [event] ∧ notExistsPosition < event.position ∧
      Above Event.position log [event] := by
  unfold appendEventTo at h
  split_ifs at h with hp
  refine ⟨(Option.some.inj h).symm, hp.1, fun x hx y hy => ?_⟩
  rw [List.mem_singleton.1 hy]
  exact hp.2 x hx

namespace Following

variable {f : Following R} {event : Event}

theorem Inv.append (h : f.Inv p) {log' : List Event} (ha : appendEventTo f.log event = some log') :
    Inv p { f with log := log' } := by
  obtain ⟨rfl, hbottom, habove⟩ := appendEventTo_eq_some ha
  have hcursor : f.subscriber.cursor < event.position := by
    rcases h.cursor with hc | ⟨e, he, hc⟩
    · exact hc ▸ hbottom
    · exact hc ▸ habove e he event (List.mem_singleton_self event)
  exact
    { h with
      sorted := h.sorted.append (List.pairwise_singleton ..) habove
      cursor := h.cursor.imp id fun ⟨e, he, hc⟩ => ⟨e, List.mem_append_left _ he, hc⟩
      above := fun e he => by
        rcases List.mem_append.1 he with he | he
        · exact h.above e he
        · rw [List.mem_singleton.1 he]
          exact hbottom
      main := h.main.grow (List.pairwise_singleton ..) habove
      retried := fun e he => by
        rw [List.filter_append]
        exact List.mem_append_left _ (h.retried e he)
      covered := fun hd e he hp hle => by
        rcases List.mem_append.1 he with he | he
        · exact h.covered hd.of_append e he hp hle
        · rw [List.mem_singleton.1 he] at hle
          exact absurd hcursor hle.not_gt
      handled := fun hd => h.handled hd.of_append }

variable {s : Subscriber R}

theorem Inv.setMain (h : Inv p ⟨log, s⟩) {m : MainState R} (hm : m.Sound p log s.cursor)
    (hc : m.current = s.main.current) (hn : ∀ source event, m ≠ .handled source event) :
    Inv p ⟨log, { s with main := m }⟩ :=
  { h with
    main := hm
    handed := by
      show ∃ before, s.handed = before ++ m.current.toList ∧ _
      rw [hc]
      exact h.handed
    handled := fun _ source event heq => absurd heq (hn source event) }

theorem Inv.setLoops (h : Inv p ⟨log, s⟩) {loops : List (RetryLoop R)} {succeeded : List Event}
    (he : loops.map RetryLoop.event = s.retried) (hs : ∀ e ∈ s.succeeded, e ∈ succeeded)
    (hl : ∀ l ∈ loops, l.state = .leaving → l.event ∈ succeeded) :
    Inv p ⟨log, { s with loops, succeeded }⟩ := by
  have hretried : Subscriber.retried { s with loops, succeeded } = s.retried := he
  have hcovers : ∀ e, s.Covers e → Subscriber.Covers { s with loops, succeeded } e := fun e hcov =>
    hcov.imp (hs e) fun hmem => by rwa [hretried]
  exact
    { h with
      keys := by rw [hretried]; exact h.keys
      retrying := by rw [hretried]; exact h.retrying
      retried := by rw [hretried]; exact h.retried
      leaving := hl
      covered := fun hd e he hp hle => hcovers e (h.covered hd e he hp hle)
      handled := fun hd source event hm => hcovers event (h.handled hd source event hm) }

variable {source : Source}

theorem Inv.hand (h : Inv p ⟨log, s⟩) (hm : s.main = .following source)
    (he : source.head? = some event) (run : R) :
    Inv p ⟨log, { s with
      main := .handling source event run, handed := s.handed ++ [event] }⟩ := by
  have hsound := h.main
  rw [hm] at hsound
  obtain ⟨more, hmore⟩ := hsound.next he
  have hlt := (after_head h.sorted hmore).1 _ rfl
  obtain ⟨before, hbefore, hle⟩ := h.handed
  rw [hm] at hbefore
  have hbefore : s.handed = before := hbefore.trans (List.append_nil before)
  exact
    { h with
      main := ⟨hsound, he⟩
      handedSorted := h.handedSorted.append (List.pairwise_singleton ..) fun x hx y hy => by
        rw [List.mem_singleton.1 hy]
        exact (hle x (hbefore ▸ hx)).trans_lt hlt
      handed := ⟨before, by rw [hbefore]; rfl, hle⟩
      handled := fun _ source event heq => by cases heq }

variable {run : R}

theorem Inv.succeed (h : Inv p ⟨log, s⟩) (hm : s.main = .handling source event run) :
    Inv p ⟨log, { s with
      main := .handled source event, succeeded := event :: s.succeeded }⟩ := by
  have hsound := h.main
  have hhanded := h.handed
  rw [hm] at hsound hhanded
  have hcovers : ∀ e, s.Covers e → Subscriber.Covers { s with
      main := .handled source event, succeeded := event :: s.succeeded } e := fun e hcov =>
    hcov.imp (List.mem_cons_of_mem event) id
  exact
    { h with
      main := hsound
      handed := hhanded
      leaving := fun l hl hstate => List.mem_cons_of_mem event (h.leaving l hl hstate)
      covered := fun hd e he hp hle => hcovers e (h.covered hd e he hp hle)
      handled := fun _ source event heq => by
        cases heq
        exact .inl (List.mem_cons_self ..) }

theorem Inv.schedule (h : Inv p ⟨log, s⟩) (hm : s.main = .failed source event) :
    Inv p ⟨log, { s.scheduleRetry event with main := .handled source event }⟩ := by
  have hsound := h.main
  have hhanded := h.handed
  rw [hm] at hsound hhanded
  obtain ⟨more, hmore⟩ := hsound.1.next hsound.2
  obtain ⟨-, hlog, hp, -⟩ := after_head h.sorted hmore
  have hevent : event ∈ log.filter p := List.mem_filter.2 ⟨hlog, hp⟩
  unfold Subscriber.scheduleRetry
  split_ifs with hkey
  · exact
      { h with
        main := hsound
        handed := hhanded
        handled := fun hd source event' heq => by
          cases heq
          -- the loop of the same key works on the same event
          obtain ⟨e, he, hk⟩ := List.mem_map.1 (h.retrying.subset hkey)
          exact .inr (hd.eq (h.retried e he) hevent hk ▸ he) }
  · have hretried : Subscriber.retried { s with
        retrying := retryKey event :: s.retrying
        loops := s.loops ++ [⟨event, .waiting⟩]
        main := .handled source event } = s.retried ++ [event] := List.map_append
    have hcovers : ∀ e, s.Covers e → Subscriber.Covers { s with
        retrying := retryKey event :: s.retrying
        loops := s.loops ++ [⟨event, .waiting⟩]
        main := .handled source event } e := fun e hcov =>
      hcov.imp id fun hmem => by
        rw [hretried]
        exact List.mem_append_left _ hmem
    have hfresh : retryKey event ∉ s.retried.map retryKey := fun hmem =>
      hkey (h.retrying.symm.subset hmem)
    exact
      { h with
        main := hsound
        handed := hhanded
        keys := by
          rw [hretried, List.map_append]
          exact List.nodup_append.2 ⟨h.keys, List.nodup_singleton _, by
            intro k hk k' hk' heq
            rw [List.map_singleton, List.mem_singleton] at hk'
            exact hfresh (hk' ▸ heq ▸ hk)⟩
        retrying := by
          rw [hretried, List.map_append]
          exact (h.retrying.cons _).trans (List.perm_append_singleton ..).symm
        retried := fun e he => by
          rw [hretried] at he
          rcases List.mem_append.1 he with he | he
          · exact h.retried e he
          · rw [List.mem_singleton.1 he]
            exact hevent
        leaving := fun l hl hstate => by
          rcases List.mem_append.1 hl with hl | hl
          · exact h.leaving l hl hstate
          · rw [List.mem_singleton.1 hl] at hstate
            cases hstate
        covered := fun hd e he hp hle => hcovers e (h.covered hd e he hp hle)
        handled := fun _ source event heq => by
          cases heq
          refine .inr ?_
          rw [hretried]
          exact List.mem_append_right _ (List.mem_singleton_self _) }

theorem Inv.moveCursor (h : Inv p ⟨log, s⟩) {source' : Source} (hm : s.main = .handled source event)
    (hn : source.next event = some source') :
    Inv p ⟨log, { s.setCursor event.position with main := .following source' }⟩ := by
  have hsound := h.main
  have hhanded := h.handed
  rw [hm] at hsound hhanded
  obtain ⟨more, hmore⟩ := hsound.1.next hsound.2
  obtain ⟨hlt, hlog, -, hafter⟩ := after_head h.sorted hmore
  have hlt : s.cursor < event.position := hlt _ rfl
  have hset : s.setCursor event.position = { s with cursor := event.position } := by
    unfold Subscriber.setCursor
    rw [if_pos (positionValuesAfter_iff.2 hlt)]
  obtain ⟨before, hbefore, hle⟩ := hhanded
  rw [hset]
  exact
    { h with
      cursor := .inr ⟨event, hlog, rfl⟩
      main := hsound.1.advance h.sorted hsound.2 hn
      handed := by
        refine ⟨before ++ [event], hbefore.trans (List.append_nil _).symm, ?_⟩
        intro e he
        rcases List.mem_append.1 he with he | he
        · exact (hle e he).trans hlt.le
        · rw [List.mem_singleton.1 he]
      covered := fun hd e he hp hpos => by
        by_cases hold : e.position ≤ s.cursor
        · exact h.covered hd e he hp hold
        · have hmem : e ∈ after Event.position (some s.cursor) (log.filter p) :=
            mem_after.2 ⟨List.mem_filter.2 ⟨he, hp⟩, not_le.1 hold⟩
          rw [hmore] at hmem
          rcases List.mem_cons.1 hmem with rfl | hmem
          · exact h.handled hd source e hm
          · rw [← hafter, mem_after] at hmem
            exact absurd hpos hmem.2.not_ge
      handled := fun _ source event heq => by cases heq }

variable {i : ℕ}

theorem Inv.leave (h : Inv p ⟨log, s⟩) (hi : s.loops[i]? = some ⟨event, .leaving⟩) :
    Inv p ⟨log, { s with
      retrying := s.retrying.erase (retryKey event), loops := s.loops.eraseIdx i }⟩ := by
  have hdone := h.leaving _ (List.mem_of_getElem? hi) rfl
  obtain ⟨hlt, hget⟩ := List.getElem?_eq_some_iff.1 hi
  have hlt' : i < s.retried.length := by rwa [Subscriber.retried, List.length_map]
  have hevent : s.retried[i] = event := by
    simp [Subscriber.retried, hget]
  have hretried : Subscriber.retried { s with
      retrying := s.retrying.erase (retryKey event), loops := s.loops.eraseIdx i }
        = s.retried.eraseIdx i := by
    simp [Subscriber.retried, List.eraseIdx_map]
  have hcovers : ∀ e, s.Covers e → Subscriber.Covers { s with
      retrying := s.retrying.erase (retryKey event), loops := s.loops.eraseIdx i } e := by
    rintro e (hcov | hcov)
    · exact .inl hcov
    · rcases List.mem_cons.1 ((List.getElem_cons_eraseIdx_perm hlt').symm.subset hcov) with he | he
      · rw [he, hevent]
        exact .inl hdone
      · exact .inr (hretried ▸ he)
  have hkey : (s.retried.map retryKey).get ⟨i, by simpa using hlt'⟩ = retryKey event := by
    simp [hevent]
  have herase : (s.retried.map retryKey).erase (retryKey event)
      = (s.retried.eraseIdx i).map retryKey := by
    rw [← hkey, ← List.eraseIdx_map]
    exact h.keys.erase_getElem i _
  exact
    { h with
      keys := by
        rw [hretried, ← List.eraseIdx_map]
        exact h.keys.sublist (List.eraseIdx_sublist ..)
      retrying := by
        rw [hretried, ← herase]
        exact h.retrying.erase _
      retried := fun e he => by
        rw [hretried] at he
        exact h.retried e ((List.eraseIdx_sublist ..).subset he)
      leaving := fun l hl => h.leaving l ((List.eraseIdx_sublist ..).subset hl)
      covered := fun hd e he hp hle => hcovers e (h.covered hd e he hp hle)
      handled := fun hd source event hm => hcovers event (h.handled hd source event hm) }

theorem run?_loop (h : s.run? (.loop i) = some run) :
    ∃ event, s.loops[i]? = some ⟨event, .handling run⟩ := by
  simp only [Subscriber.run?] at h
  split at h
  · rename_i event run' hl
    cases h
    exact ⟨event, hl⟩
  · cases h

theorem run?_main (h : s.run? .main = some run) :
    ∃ source event, s.main = .handling source event run := by
  simp only [Subscriber.run?] at h
  split at h
  · rename_i source event run' hm
    cases h
    exact ⟨source, event, hm⟩
  · cases h

theorem Inv.setLoop (h : Inv p ⟨log, s⟩) {l : RetryLoop R} (hi : s.loops[i]? = some l)
    (state : LoopState R) {succeeded : List Event} (hs : ∀ e ∈ s.succeeded, e ∈ succeeded)
    (hl : state = .leaving → l.event ∈ succeeded) :
    Inv p ⟨log, { s with loops := s.loops.set i ⟨l.event, state⟩, succeeded }⟩ := by
  obtain ⟨hlt, hget⟩ := List.getElem?_eq_some_iff.1 hi
  refine h.setLoops ?_ hs fun k hk hstate => ?_
  · have hevent : (s.loops.map RetryLoop.event).get ⟨i, by simpa using hlt⟩ = l.event := by
      simp [hget]
    rw [List.map_set, Subscriber.retried, ← hevent]
    exact List.set_getElem_self _
  · rcases List.mem_or_eq_of_mem_set hk with hk | rfl
    · exact hs _ (h.leaving k hk hstate)
    · exact hl hstate

theorem Inv.advance (h : Inv p ⟨log, s⟩) {slot : Slot} (hr : s.run? slot = some run) (run' : R) :
    Inv p ⟨log, s.setRun run' slot⟩ := by
  cases slot with
  | main =>
    obtain ⟨source, event, hm⟩ := run?_main hr
    have hsound := h.main
    rw [hm] at hsound
    simp only [Subscriber.setRun, hm]
    exact h.setMain hsound (by rw [hm]; rfl) (by simp)
  | loop i =>
    obtain ⟨event, hi⟩ := run?_loop hr
    simp only [Subscriber.setRun, hi]
    exact h.setLoop hi (.handling run') (fun _ he => he) (by simp)

variable {handler : EventHandler R} {exclusive : Bool}

theorem inv_step_subscriber {s' : Subscriber R} {a : SubscriberAction R} (h : Inv p ⟨log, s⟩)
    (hs : s.step handler p exclusive log a = some s') : Inv p ⟨log, s'⟩ := by
  cases a with
  | source a =>
    obtain ⟨m, hm, rfl⟩ := Option.map_eq_some_iff.1 hs
    obtain ⟨hcurrent, hne⟩ := MainState.current_step hm
    exact h.setMain (MainState.step_sound h.sorted h.main hm) hcurrent hne
  | hand =>
    simp only [Subscriber.step] at hs
    split at hs
    · rename_i source hm
      obtain ⟨event, he, rfl⟩ := Option.map_eq_some_iff.1 hs
      exact h.hand hm he _
    · cases hs
  | advance slot run =>
    obtain ⟨run', hrun, rfl⟩ := Option.map_eq_some_iff.1 hs
    exact h.advance hrun run
  | returned =>
    simp only [Subscriber.step] at hs
    split at hs
    · rename_i source event run hm
      obtain ⟨ok, -, rfl⟩ := Option.map_eq_some_iff.1 hs
      cases ok with
      | true => exact h.succeed hm
      | false =>
        have hsound := h.main
        rw [hm] at hsound
        exact h.setMain hsound (by rw [hm]; rfl) (by simp)
    · cases hs
  | schedule =>
    simp only [Subscriber.step] at hs
    split at hs
    · rename_i source event hm
      cases hs
      exact h.schedule hm
    · cases hs
  | setPosition =>
    simp only [Subscriber.step] at hs
    split at hs
    · rename_i source event hm
      obtain ⟨source', hn, rfl⟩ := Option.map_eq_some_iff.1 hs
      exact h.moveCursor hm hn
    · cases hs
  | fire i =>
    simp only [Subscriber.step] at hs
    split at hs
    · rename_i event hi
      cases hs
      exact h.setLoop hi _ (fun _ he => he) (by simp)
    · cases hs
  | loopReturned i =>
    simp only [Subscriber.step] at hs
    split at hs
    · rename_i event run hi
      obtain ⟨ok, -, rfl⟩ := Option.map_eq_some_iff.1 hs
      cases ok with
      | true =>
        exact h.setLoop hi .leaving (fun _ he => List.mem_cons_of_mem event he)
          fun _ => List.mem_cons_self ..
      | false => exact h.setLoop hi .waiting (fun _ he => he) (by simp)
    · cases hs
  | leave i =>
    simp only [Subscriber.step] at hs
    split at hs
    · rename_i event hi
      cases hs
      exact h.leave hi
    · cases hs

theorem inv_step {f' : Following R} {a : FollowingAction R} (h : f.Inv p)
    (hs : f.step handler p exclusive a = some f') :
    f'.Inv p := by
  cases a with
  | append event =>
    obtain ⟨log', hlog, rfl⟩ := Option.map_eq_some_iff.1 hs
    exact h.append hlog
  | subscriber a =>
    obtain ⟨s, hstep, rfl⟩ := Option.map_eq_some_iff.1 hs
    exact inv_step_subscriber h hstep

theorem setCursor_le (s : Subscriber R) (position : Position) :
    s.cursor ≤ (s.setCursor position).cursor := by
  unfold Subscriber.setCursor
  split_ifs with h
  · exact (positionValuesAfter_iff.1 h).le
  · exact le_rfl

theorem cursor_setRun (s : Subscriber R) (run : R) (slot : Slot) :
    (s.setRun run slot).cursor = s.cursor := by
  unfold Subscriber.setRun
  repeat' split
  all_goals rfl

theorem cursor_scheduleRetry (s : Subscriber R) (event : Event) :
    (s.scheduleRetry event).cursor = s.cursor := by
  unfold Subscriber.scheduleRetry
  split_ifs <;> rfl

theorem cursor_step {s' : Subscriber R} {a : SubscriberAction R}
    (hs : s.step handler p exclusive log a = some s') :
    s'.cursor = s.cursor ∨ ∃ position, s'.cursor = (s.setCursor position).cursor := by
  cases a with
  | source a =>
    obtain ⟨m, -, rfl⟩ := Option.map_eq_some_iff.1 hs
    exact .inl rfl
  | advance slot run =>
    obtain ⟨-, -, rfl⟩ := Option.map_eq_some_iff.1 hs
    exact .inl (cursor_setRun ..)
  | hand =>
    simp only [Subscriber.step] at hs
    split at hs
    · obtain ⟨event, -, rfl⟩ := Option.map_eq_some_iff.1 hs
      exact .inl rfl
    · cases hs
  | returned =>
    simp only [Subscriber.step] at hs
    split at hs
    · obtain ⟨ok, -, rfl⟩ := Option.map_eq_some_iff.1 hs
      cases ok <;> exact .inl rfl
    · cases hs
  | schedule =>
    simp only [Subscriber.step] at hs
    split at hs
    · cases hs
      exact .inl (cursor_scheduleRetry ..)
    · cases hs
  | setPosition =>
    simp only [Subscriber.step] at hs
    split at hs
    · obtain ⟨source', -, rfl⟩ := Option.map_eq_some_iff.1 hs
      exact .inr ⟨_, rfl⟩
    · cases hs
  | fire i =>
    simp only [Subscriber.step] at hs
    split at hs <;> cases hs
    exact .inl rfl
  | loopReturned i =>
    simp only [Subscriber.step] at hs
    split at hs
    · obtain ⟨ok, -, rfl⟩ := Option.map_eq_some_iff.1 hs
      cases ok <;> exact .inl rfl
    · cases hs
  | leave i =>
    simp only [Subscriber.step] at hs
    split at hs <;> cases hs
    exact .inl rfl

theorem cursor_le {f' : Following R} {a : FollowingAction R}
    (hs : f.step handler p exclusive a = some f') :
    f.subscriber.cursor ≤ f'.subscriber.cursor := by
  cases a with
  | append event =>
    obtain ⟨log', -, rfl⟩ := Option.map_eq_some_iff.1 hs
    exact le_rfl
  | subscriber a =>
    obtain ⟨s, hstep, rfl⟩ := Option.map_eq_some_iff.1 hs
    rcases cursor_step hstep with hc | ⟨position, hc⟩
    · exact hc.ge
    · exact hc ▸ setCursor_le ..

theorem Inv.nothingDropped (h : f.Inv p) (hd : DistinctKeys p f.log) :
    NothingDropped p f := by
  intro e he hp hle
  refine (h.covered hd e he hp hle).imp id fun hmem => ?_
  have hlog : (f.log.map Event.position).Nodup := List.pairwise_map.2 (h.sorted.imp ne_of_lt)
  have hpositions : (f.subscriber.retried.map Event.position).Nodup := by
    refine List.Nodup.map_on (fun x hx y hy hxy => ?_) (List.Nodup.of_map retryKey h.keys)
    exact List.inj_on_of_nodup_map hlog (List.mem_filter.1 (h.retried x hx)).1
      (List.mem_filter.1 (h.retried y hy)).1 hxy
  have hcount := List.count_eq_one_of_mem hpositions (List.mem_map_of_mem hmem)
  rw [List.count, Subscriber.retried, List.map_map, List.countP_map] at hcount
  rw [Subscriber.loopsOn, ← List.countP_eq_length_filter]
  exact hcount

end Following

/-- In every run the cursor does not move back, no event is handed to the main path twice, and where
no two matching events have one key, none is dropped. -/
theorem lifecycleEvents_kept (handler : EventHandler R) (p : Event → Bool) (exclusive : Bool)
    {as : List (FollowingAction R)} {f : Following R}
    (h : Transition.run (Following.step handler p exclusive) Following.initial as = some f) :
    (∀ bs f', Transition.run (Following.step handler p exclusive) f bs = some f' →
      f.subscriber.cursor ≤ f'.subscriber.cursor) ∧
    f.subscriber.handed.Pairwise (fun e e' => e.position < e'.position) ∧
    (DistinctKeys p f.log → NothingDropped p f) := by
  have hinv : f.Inv p := Transition.run_invariant (fun _ _ _ => Following.inv_step)
    Following.inv_initial h
  refine ⟨fun bs f' hf' => ?_, hinv.handedSorted, hinv.nothingDropped⟩
  exact Transition.run_invariant (I := fun g => f.subscriber.cursor ≤ g.subscriber.cursor)
    (fun _ _ _ hle hs => hle.trans (Following.cursor_le hs)) le_rfl hf'

def sampleHandler : EventHandler (Option Bool) := ⟨fun _ => none, id⟩

def createdEvent (id : String) (position : Position) : Event :=
  ⟨position, .object [("__eventId", .string id), ("__eventType", .string "$BoundaryCreated")]⟩

/-- Two definitions are replayed and the handler fails on both. -/
def failingReplay (id id' : String) : List (FollowingAction (Option Bool)) :=
  [.append (createdEvent id ⟨1, 0⟩), .append (createdEvent id' ⟨2, 1⟩)] ++
    ([.source .replay, .source (.readReplay 2), .hand, .advance .main (some false), .returned,
      .schedule, .setPosition, .hand, .advance .main (some false), .returned, .schedule,
      .setPosition] : List (SubscriberAction (Option Bool))).map .subscriber

theorem failingReplay_kept : ∃ f,
    Transition.run (Following.step sampleHandler boundaryDefinitionQuery false) Following.initial
      (failingReplay "a" "b") = some f ∧ f.subscriber.cursor = ⟨2, 1⟩ ∧
      NothingDropped boundaryDefinitionQuery f := by
  have hrun : (Transition.run (Following.step sampleHandler boundaryDefinitionQuery false)
      Following.initial (failingReplay "a" "b")).any (fun f => decide (f.subscriber.cursor = ⟨2, 1⟩ ∧
        ((f.log.filter boundaryDefinitionQuery).map retryKey).Nodup)) = true := by
    decide +kernel
  obtain ⟨f, hf, hfacts⟩ := (Option.any_eq_true _ _).1 hrun
  obtain ⟨hcursor, hkeys⟩ := of_decide_eq_true hfacts
  exact ⟨f, hf, hcursor, (lifecycleEvents_kept _ _ _ hf).2.2 hkeys⟩

/-- With one id for both, the second definition is neither handled nor retried. -/
theorem sharedId_dropped : ∃ f,
    Transition.run (Following.step sampleHandler boundaryDefinitionQuery false) Following.initial
      (failingReplay "a" "a") = some f ∧ ¬ NothingDropped boundaryDefinitionQuery f := by
  have hrun : (Transition.run (Following.step sampleHandler boundaryDefinitionQuery false)
      Following.initial (failingReplay "a" "a")).any (fun f => f.log.any fun e =>
        boundaryDefinitionQuery e && decide (e.position ≤ f.subscriber.cursor) &&
          f.subscriber.succeeded.isEmpty && (f.subscriber.loopsOn e).isEmpty) = true := by
    decide +kernel
  obtain ⟨f, hf, hfacts⟩ := (Option.any_eq_true _ _).1 hrun
  obtain ⟨e, he, hfacts⟩ := List.any_eq_true.1 hfacts
  simp only [Bool.and_eq_true, decide_eq_true_eq, List.isEmpty_iff] at hfacts
  obtain ⟨⟨⟨hp, hle⟩, hsucceeded⟩, hloops⟩ := hfacts
  refine ⟨f, hf, fun hkept => ?_⟩
  rcases hkept e he hp hle with h | h
  · rw [hsucceeded] at h
    cases h
  · rw [hloops] at h
    cases h

end Orisun.Admin
