import Orisun.Delivery

/-!
# The reader keeps its place

What has been delivered, followed by the matches after the cursor, is all the subscription is for
(`Reader.Inv.progress`).
-/

namespace Orisun

open GrowingLog SubscriptionDrain

namespace SubscriptionDrain

theorem validateFrom_succ {i : ℕ} : ∀ {batch : List Event} {previous : Position},
    validateFrom (i + 1) (some previous) batch = .ok () ↔
      (∀ e ∈ batch, previous < e.position) ∧ Sorted Event.position batch
  | [], previous => by simp [validateFrom, Sorted]
  | e :: batch, previous => by
    have ih := @validateFrom_succ (i + 1) batch e.position
    unfold validateFrom
    split_ifs with h
    · simp only [Bool.not_eq_true', Bool.eq_false_iff, ne_eq, positionValuesAfter_iff] at h
      simp [h.1]
    · have hlt : previous < e.position := by
        by_contra hlt
        refine h ⟨?_, .inl (by omega)⟩
        rw [Bool.not_eq_true', Bool.eq_false_iff, ne_eq, positionValuesAfter_iff]
        exact hlt
      rw [ih, List.forall_mem_cons, sorted_cons]
      constructor
      · rintro ⟨h1, h2⟩
        exact ⟨⟨hlt, fun x hx => hlt.trans (h1 x hx)⟩, h1, h2⟩
      · rintro ⟨-, h1, h2⟩
        exact ⟨h1, h2⟩

theorem validateFrom_zero {batch : List Event} {cursor : Option Position} :
    validateFrom 0 cursor batch = .ok () ↔
      Sorted Event.position batch ∧ ∀ c ∈ cursor, ∀ e ∈ batch, c ≤ e.position := by
  rcases batch with _ | ⟨e, batch⟩
  · simp [validateFrom, Sorted]
  · have hrest : validateFrom 1 (some e.position) batch = .ok () ↔
        Sorted Event.position (e :: batch) := by
      rw [validateFrom_succ, sorted_cons]
    rcases cursor with _ | c
    · simp [validateFrom, hrest]
    · unfold validateFrom
      split_ifs with h
      · simp only [Bool.not_eq_true', Bool.eq_false_iff, ne_eq, positionValuesAfter_iff,
          not_true_eq_false, false_or, ← not_and_or, ← Position.ext_iff'] at h
        simp only [false_iff, not_and, Option.mem_some_iff, forall_eq']
        intro _ hall
        exact h.2 (le_antisymm (not_lt.1 h.1) (hall e (List.mem_cons_self ..)))
      · have hle : c ≤ e.position := by
          by_contra hle
          refine h ⟨?_, .inr ?_⟩
          · rw [Bool.not_eq_true', Bool.eq_false_iff, ne_eq, positionValuesAfter_iff]
            exact fun hlt => hle hlt.le
          · rw [← not_and_or, ← Position.ext_iff']
            exact fun he => hle he.ge
        rw [hrest]
        refine ⟨fun hs => ⟨hs, fun c' hc' x hx => ?_⟩, And.left⟩
        obtain rfl := Option.mem_some_iff.1 hc'
        rcases List.mem_cons.1 hx with rfl | hx
        · exact hle
        · exact hle.trans ((List.pairwise_cons.1 hs).1 x hx).le

theorem validate_eq_ok {batch : List Event} {cursor : Option Position} {count : ℕ} :
    validate cursor batch count = .ok () ↔ batch.length ≤ count ∧
      Sorted Event.position batch ∧ ∀ c ∈ cursor, ∀ e ∈ batch, c ≤ e.position := by
  unfold validate
  split_ifs with h
  · simp only [false_iff, not_and]
    omega
  · rw [validateFrom_zero]
    simp [not_lt.1 h]

end SubscriptionDrain

namespace Reader

variable {r r' : Reader}

theorem receive_eq_some (h : r.receive = some r') :
    r.state = .waiting ∧ r.drain.pending = true ∧
      r' = { r with drain := { r.drain with pending := false }, state := .checking } := by
  unfold receive at h
  split at h
  · exact ⟨by assumption, by assumption, (Option.some.inj h).symm⟩
  · cases h

theorem cancel_eq_some {cause : String} (h : r.cancel cause = some r') :
    r.state = .waiting ∧ r' = { r with state := .stopped (.context cause) } := by
  unfold cancel at h
  split at h
  · exact ⟨by assumption, (Option.some.inj h).symm⟩
  · cases h

theorem checkActive_ne_invalidBatch (ctxErr chk : Option String) (e : PageError) :
    checkActive ctxErr chk ≠ some (.invalidBatch e) := by
  unfold checkActive
  rcases ctxErr with _ | c <;> rcases chk with _ | c' <;> simp

variable {ctxErr : Option String}

theorem check_eq_some {chk : Option String} (h : r.check ctxErr chk = some r') :
    r.state = .checking ∧ (r' = { r with state := .reading } ∨
      ∃ e, (∀ b, e ≠ .invalidBatch b) ∧ r' = { r with state := .stopped e }) := by
  unfold check at h
  split at h
  · refine ⟨by assumption, ?_⟩
    cases h
    rcases hc : checkActive ctxErr chk with _ | e
    · exact .inl rfl
    · exact .inr ⟨e, fun b hb => checkActive_ne_invalidBatch ctxErr chk b (hc.trans (by rw [hb])),
        rfl⟩
  · cases h

theorem fail_eq_some {cause : String} (h : r.fail ctxErr cause = some r') :
    r.state = .reading ∧ ∃ e, (∀ b, e ≠ .invalidBatch b) ∧ r' = { r with state := .stopped e } := by
  unfold fail at h
  split at h
  · refine ⟨by assumption, _, fun b => ?_, (Option.some.inj h).symm⟩
    unfold readError
    split <;> simp
  · cases h

theorem reading_of_receiveBatch {batch : List Event} (h : r.receiveBatch batch = some r') :
    r.state = .reading := by
  unfold receiveBatch at h
  split at h
  · assumption
  · cases h

theorem receiveBatch_eq {batch : List Event} (hs : r.state = .reading)
    (hv : validate r.drain.cursor batch r.drain.request.count = .ok ()) :
    r.receiveBatch batch = some { r with
      state := .delivering ⟨r.drain.cursor, batch, r.drain.request.count⟩ batch } := by
  unfold receiveBatch
  rw [hs, hv]

theorem skip_eq_some (h : r.skip = some r') :
    ∃ page event rest, r.state = .delivering page (event :: rest) ∧
      r.drain.cursor = some event.position ∧ r' = { r with state := .delivering page rest } := by
  unfold skip at h
  split at h
  · split_ifs at h with hc
    exact ⟨_, _, _, by assumption, hc, (Option.some.inj h).symm⟩
  · cases h

theorem handle_eq_some {chk handler : Option String} (h : r.handle ctxErr chk handler = some r') :
    ∃ page event rest, r.state = .delivering page (event :: rest) ∧
      r.drain.cursor ≠ some event.position ∧
      ((∃ e, (∀ b, e ≠ .invalidBatch b) ∧ r' = { r with state := .stopped e }) ∨
        (ctxErr = none ∧ chk = none ∧ handler = none) ∧
          r' = ⟨{ r.drain with cursor := some event.position }, .delivering page rest,
            r.delivered ++ [event]⟩) := by
  unfold handle at h
  split at h
  · rename_i page event rest hs
    split_ifs at h with hc
    refine ⟨page, event, rest, hs, hc, ?_⟩
    split at h
    · rename_i e he
      refine .inl ⟨e, fun b hb => ?_, (Option.some.inj h).symm⟩
      exact checkActive_ne_invalidBatch ctxErr chk b (hb ▸ he)
    · exact .inl ⟨_, by simp, (Option.some.inj h).symm⟩
    · rename_i hactive
      refine .inr ⟨?_, (Option.some.inj h).symm⟩
      unfold checkActive at hactive
      rcases ctxErr with _ | c
      · exact ⟨rfl, by simpa using hactive, rfl⟩
      · cases hactive
  · cases h

theorem finish_eq_some (h : r.finish = some r') :
    ∃ page, r.state = .delivering page [] ∧
      r' = { r with
        drain := { r.drain with initialized := true }
        state := if page.batch.length = 0 ∨
            (r.drain.initialized ∧ page.batch.length < batchSize) then .waiting else .checking } := by
  unfold finish at h
  split at h
  · exact ⟨_, by assumption, (Option.some.inj h).symm⟩
  · cases h

theorem restart_eq_some (h : r.restart = some r') :
    (∃ e, r.state = .stopped e) ∧
      r' = { r with drain := newSubscriptionDrain r.drain.cursor, state := .waiting } := by
  unfold restart at h
  split at h
  · exact ⟨⟨_, by assumption⟩, (Option.some.inj h).symm⟩
  · cases h

end Reader

variable {p : Event → Bool} {start : Option Position} {log : List Event} {origin : Option ℕ}

/-- A page read forward: apart from the row at the cursor, what is left of it comes next. -/
structure Forward (p : Event → Bool) (log : List Event) (cursor : Option Position) (page : Page)
    (rest : List Event) : Prop where
  next : ∃ row news, rest = row ++ news ∧ (row = [] ∨ ∃ e, row = [e] ∧ cursor = some e.position) ∧
    news <+: after Event.position cursor (log.filter p)
  unmoved : cursor = page.cursor →
    rest = page.batch ∨ ∃ e, page.batch = e :: rest ∧ page.cursor = some e.position
  moved : cursor = page.cursor ∨
    ∃ e ∈ log.filter p, cursor = some e.position ∧ ∀ c ∈ page.cursor, c < e.position

/-- The page of a reader without a cursor: the latest match of its snapshot. -/
structure First (p : Event → Bool) (log : List Event) (origin : Option ℕ) (cursor : Option Position)
    (page : Page) (rest : List Event) : Prop where
  cursorless : page.cursor = none
  latest : ∃ n, origin = some n ∧ n ≤ log.length ∧
    page.batch = ((log.take n).filter p).getLast?.toList
  next : rest = page.batch ∧ cursor = none ∨
    rest = [] ∧ ∃ e, page.batch = [e] ∧ cursor = some e.position

variable {cursor : Option Position} {page : Page} {event : Event} {rest : List Event}

theorem Forward.skip (h : Forward p log cursor page (event :: rest))
    (hs : Sorted Event.position page.batch) (hc : cursor = some event.position) :
    Forward p log cursor page rest := by
  obtain ⟨⟨row, news, hrest, hrow, hnews⟩, hunmoved, hmoved⟩ := h
  refine ⟨⟨[], rest, rfl, .inl rfl, ?_⟩, fun he => .inr ?_, hmoved⟩
  · rcases hrow with rfl | ⟨e, rfl, -⟩
    · have hmem := hnews.subset (hrest ▸ List.mem_cons_self ..)
      rw [hc, mem_after] at hmem
      exact absurd hmem.2 (lt_irrefl _)
    · rw [(List.cons.inj hrest).2]
      exact hnews
  · rcases hunmoved he with hb | ⟨e, hb, he'⟩
    · exact ⟨event, hb.symm, he ▸ hc⟩
    · rw [hb, sorted_cons] at hs
      have hlt := hs.1 event (List.mem_cons_self ..)
      rw [← he, hc, Option.some.injEq] at he'
      exact absurd (he' ▸ hlt) (lt_irrefl _)

theorem Forward.head (h : Forward p log cursor page (event :: rest))
    (hc : cursor ≠ some event.position) :
    ∃ more, after Event.position cursor (log.filter p) = event :: (rest ++ more) := by
  obtain ⟨row, news, hrest, hrow, more, hmore⟩ := h.next
  rcases hrow with rfl | ⟨e, rfl, he⟩
  · refine ⟨more, ?_⟩
    rw [← hmore, ← List.nil_append news, ← hrest, List.cons_append]
  · rw [(List.cons.inj hrest).1] at hc
    exact absurd he hc

theorem after_head (hs : Sorted Event.position log)
    (h : after Event.position cursor (log.filter p) = event :: rest) :
    (∀ c ∈ cursor, c < event.position) ∧ event ∈ log ∧ p event = true ∧
      after Event.position (some event.position) (log.filter p) = rest := by
  have hmem : event ∈ after Event.position cursor (log.filter p) := h ▸ List.mem_cons_self ..
  have hlt : ∀ c ∈ cursor, c < event.position := by
    rintro c rfl
    exact (mem_after.1 hmem).2
  have hlog := List.mem_filter.1 (List.mem_of_mem_filter hmem)
  have hsorted : Sorted Event.position (after Event.position cursor (log.filter p)) :=
    (hs.filter p).filter _
  refine ⟨hlt, hlog.1, hlog.2, ?_⟩
  rw [← after_after fun c hc => (hlt c hc).le, h]
  exact after_cons (h ▸ hsorted)

theorem Forward.handle (h : Forward p log cursor page (event :: rest))
    (hs : Sorted Event.position log) (hc : cursor ≠ some event.position) :
    Forward p log (some event.position) page rest := by
  obtain ⟨more, hmore⟩ := h.head hc
  obtain ⟨hlt, hmem, hp, hafter⟩ := after_head hs hmore
  have hgt : ∀ c ∈ page.cursor, c < event.position := by
    intro c hcp
    rcases h.moved with he | ⟨e, -, he, hle⟩
    · exact hlt c (he ▸ hcp)
    · exact (hle c hcp).trans (hlt _ he)
  refine ⟨⟨[], rest, rfl, .inl rfl, more, hafter.symm⟩, fun he => ?_,
    .inr ⟨event, List.mem_filter.2 ⟨hmem, hp⟩, rfl, hgt⟩⟩
  exact absurd (hgt event.position he.symm) (lt_irrefl _)

theorem First.head (h : First p log origin cursor page (event :: rest)) :
    cursor = none ∧ rest = [] ∧ page.batch = [event] ∧
      ∃ n, origin = some n ∧ n ≤ log.length ∧ ((log.take n).filter p).getLast? = some event := by
  obtain ⟨-, ⟨n, ho, hn, hb⟩, ⟨hrest, hc⟩ | ⟨hnil, -⟩⟩ := h
  · rw [← hrest] at hb ⊢
    rcases hl : ((log.take n).filter p).getLast? with _ | e
    · rw [hl] at hb
      cases hb
    · rw [hl] at hb
      obtain ⟨rfl, rfl⟩ := List.cons.inj hb
      exact ⟨hc, rfl, rfl, n, ho, hn, hl⟩
  · cases hnil

theorem First.expected_eq (hs : Sorted Event.position log)
    (h : First p log origin cursor page (event :: rest)) :
    expected p none origin log
      = event :: after Event.position (some event.position) (log.filter p) ∧ event ∈ log := by
  obtain ⟨-, -, -, n, rfl, -, hlast⟩ := h.head
  obtain ⟨xs, hxs⟩ := List.getLast?_eq_some_iff.1 hlast
  have hlog : log.filter p = xs ++ event :: (log.drop n).filter p := by
    conv_lhs => rw [← List.take_append_drop n log, List.filter_append, hxs]
    simp
  constructor
  · rw [hlog, after_cut (hlog ▸ hs.filter p)]
    simp [expected, hlast]
  · refine (List.mem_filter.1 (?_ : event ∈ log.filter p)).1
    rw [hlog]
    exact List.mem_append_right xs (List.mem_cons_self ..)

theorem Forward.grow (h : Forward p log cursor page rest) (new : List Event) :
    Forward p (log ++ new) cursor page rest := by
  obtain ⟨⟨row, news, hrest, hrow, hnews⟩, hunmoved, hmoved⟩ := h
  refine ⟨⟨row, news, hrest, hrow, ?_⟩, hunmoved, hmoved.imp id fun ⟨e, he, hc⟩ => ⟨e, ?_, hc⟩⟩
  · rw [List.filter_append, after_append]
    exact hnews.trans (List.prefix_append ..)
  · rw [List.filter_append]
    exact List.mem_append_left _ he

theorem First.grow (h : First p log origin cursor page rest) (new : List Event) :
    First p (log ++ new) origin cursor page rest := by
  obtain ⟨hcursor, ⟨n, ho, hn, hb⟩, hnext⟩ := h
  refine ⟨hcursor, ⟨n, ho, by rw [List.length_append]; omega, ?_⟩, hnext⟩
  rw [List.take_append_of_le_length hn, hb]

/-- A page that is being delivered. -/
structure Paging (p : Event → Bool) (log : List Event) (origin : Option ℕ) (initialized : Bool)
    (cursor : Option Position) (page : Page) (rest : List Event) : Prop where
  validated : validate page.cursor page.batch page.limit = .ok ()
  limit : page.limit ≤ batchSize
  suffix : rest <:+ page.batch
  next : if initialized then Forward p log cursor page rest
    else First p log origin cursor page rest

theorem expected_append {new : List Event} (ho : ∀ n, origin = some n → n ≤ log.length) :
    expected p start origin (log ++ new) = expected p start origin log ++
      (if start = none ∧ origin = none then [] else after Event.position start (new.filter p)) := by
  unfold expected
  rcases start with _ | a
  · rcases origin with _ | n
    · simp
    · dsimp only
      rw [List.take_append_of_le_length (ho n rfl), List.drop_append_of_le_length (ho n rfl)]
      simp [List.append_assoc]
  · simp [after_append]

structure Reader.Inv (p : Event → Bool) (start : Option Position) (log : List Event)
    (origin : Option ℕ) (r : Reader) : Prop where
  sorted : Sorted Event.position log
  origin_le : ∀ n, origin = some n → n ≤ log.length
  cursor_mem : ∀ c, r.drain.cursor = some c → start = some c ∨
    (∀ a ∈ start, a < c) ∧ ∃ e ∈ log, e.position = c
  started : start.isSome = true → r.drain.initialized = true ∧ r.drain.cursor.isSome = true
  cursor_eq : r.drain.cursor = (r.delivered.getLast?.map Event.position).or start
  origin_isSome : r.drain.initialized = true ∨ r.drain.cursor.isSome = true →
    start = none → origin.isSome = true
  progress : r.drain.initialized = true ∨ r.drain.cursor.isSome = true →
    r.delivered ++ after Event.position r.drain.cursor (log.filter p) = expected p start origin log
  cursorless : (∀ page rest, r.state ≠ .delivering page rest) → r.drain.initialized = false →
    r.drain.cursor = none
  paging : ∀ page rest, r.state = .delivering page rest →
    Paging p log origin r.drain.initialized r.drain.cursor page rest
  valid : ∀ b, r.state ≠ .stopped (.invalidBatch b)

namespace Reader

variable {r r' : Reader}

theorem Inv.delivered_eq_nil (h : Inv p start log origin r) (hc : r.drain.cursor = none) :
    r.delivered = [] := by
  have he := h.cursor_eq
  rw [hc, eq_comm, Option.or_eq_none_iff, Option.map_eq_none_iff] at he
  exact List.getLast?_eq_none_iff.1 he.1

theorem inv_initial (start : Option Position) : Inv p start [] none (.initial start) where
  sorted := .nil
  origin_le := by simp
  cursor_mem := fun c hc => .inl hc
  started := fun h => ⟨h, h⟩
  cursor_eq := rfl
  origin_isSome := by
    rintro h rfl
    simp [Reader.initial, newSubscriptionDrain] at h
  progress := by
    intro h
    rcases start with _ | a
    · simp [Reader.initial, newSubscriptionDrain] at h
    · rfl
  cursorless := by
    intro _ h
    rcases start with _ | a
    · rfl
    · cases h
  paging := by simp [Reader.initial]
  valid := by simp [Reader.initial]

theorem Inv.grow (h : Inv p start log origin r) {new : List Event}
    (hn : Sorted Event.position new) (ha : Above Event.position log new) :
    Inv p start (log ++ new) origin r where
  sorted := h.sorted.append hn ha
  origin_le := fun n hn => by
    rw [List.length_append]
    exact (h.origin_le n hn).trans (Nat.le_add_right ..)
  cursor_mem := fun c hc => (h.cursor_mem c hc).imp id fun ⟨ha, e, he, hp⟩ =>
    ⟨ha, e, List.mem_append_left new he, hp⟩
  started := h.started
  cursor_eq := h.cursor_eq
  origin_isSome := h.origin_isSome
  progress := by
    intro hi
    have hsome : ¬(start = none ∧ origin = none) := by
      rintro ⟨hs, ho⟩
      have := h.origin_isSome hi hs
      rw [ho] at this
      cases this
    rw [expected_append h.origin_le, ← h.progress hi, if_neg hsome, List.filter_append, after_append,
      List.append_assoc]
    congr 2
    rcases hc : r.drain.cursor with _ | c
    · rcases start with _ | a
      · rfl
      · have := (h.started rfl).2
        rw [hc] at this
        cases this
    · rcases h.cursor_mem c hc with rfl | ⟨hlt, e, he, rfl⟩
      · rfl
      · have hall : ∀ x ∈ new.filter p, e.position < x.position := fun x hx =>
          ha e he x (List.mem_filter.1 hx).1
        rw [after_eq_self hall]
        rcases start with _ | a
        · exact (after_none _).symm
        · exact (after_eq_self fun x hx => (hlt a rfl).trans (hall x hx)).symm
  cursorless := h.cursorless
  paging := by
    intro page rest hs
    obtain ⟨hv, hlimit, hsuffix, hpage⟩ := h.paging page rest hs
    refine ⟨hv, hlimit, hsuffix, ?_⟩
    split_ifs at hpage ⊢
    · exact hpage.grow new
    · exact hpage.grow new
  valid := h.valid

theorem Inv.move (h : Inv p start log origin r) (hcursor : r'.drain.cursor = r.drain.cursor)
    (hinit : r'.drain.initialized = r.drain.initialized) (hdelivered : r'.delivered = r.delivered)
    (hcursorless : (∀ page rest, r'.state ≠ .delivering page rest) →
      r.drain.initialized = false → r.drain.cursor = none)
    (hpaging : ∀ page rest, r'.state = .delivering page rest →
      Paging p log origin r.drain.initialized r.drain.cursor page rest)
    (hvalid : ∀ b, r'.state ≠ .stopped (.invalidBatch b)) : Inv p start log origin r' where
  sorted := h.sorted
  origin_le := h.origin_le
  cursor_mem := by
    rw [hcursor]
    exact h.cursor_mem
  started := by
    rw [hcursor, hinit]
    exact h.started
  cursor_eq := by
    rw [hcursor, hdelivered]
    exact h.cursor_eq
  origin_isSome := by
    rw [hcursor, hinit]
    exact h.origin_isSome
  progress := by
    rw [hcursor, hinit, hdelivered]
    exact h.progress
  cursorless := by
    rw [hcursor, hinit]
    exact hcursorless
  paging := by
    rw [hcursor, hinit]
    exact hpaging
  valid := hvalid

theorem Inv.idle (h : Inv p start log origin r) (hcursor : r'.drain.cursor = r.drain.cursor)
    (hinit : r'.drain.initialized = r.drain.initialized) (hdelivered : r'.delivered = r.delivered)
    (hstate : ∀ page rest, r.state ≠ .delivering page rest)
    (hstate' : ∀ page rest, r'.state ≠ .delivering page rest)
    (hvalid : ∀ b, r'.state ≠ .stopped (.invalidBatch b)) : Inv p start log origin r' :=
  h.move hcursor hinit hdelivered (fun _ => h.cursorless hstate)
    (fun page rest hs => absurd hs (hstate' page rest)) hvalid

variable {page : Page} {event : Event} {rest : List Event}

theorem Inv.stop (h : Inv p start log origin r) (hs : r.state = .delivering page (event :: rest))
    {e : DrainError} (he : ∀ b, e ≠ .invalidBatch b) :
    Inv p start log origin { r with state := .stopped e } := by
  refine h.move rfl rfl rfl (fun _ hi => ?_) (by simp) (by simpa using he)
  obtain ⟨-, -, -, hpage⟩ := h.paging page _ hs
  rw [hi, if_neg (by simp)] at hpage
  exact hpage.head.1

theorem Inv.skip (h : Inv p start log origin r) (hs : r.state = .delivering page (event :: rest))
    (hc : r.drain.cursor = some event.position) :
    Inv p start log origin { r with state := .delivering page rest } := by
  refine h.move rfl rfl rfl (fun hne => absurd rfl (hne page rest)) ?_ (by simp)
  intro page' rest' hs'
  obtain ⟨rfl, rfl⟩ := ReaderState.delivering.inj hs'
  obtain ⟨hv, hlimit, hsuffix, hpage⟩ := h.paging _ _ hs
  refine ⟨hv, hlimit, (List.suffix_cons ..).trans hsuffix, ?_⟩
  split_ifs at hpage ⊢
  · exact hpage.skip (validate_eq_ok.1 hv).2.1 hc
  · rw [hpage.head.1] at hc
    cases hc

theorem Inv.cursor_lt_head (h : Inv p start log origin r)
    (hs : r.state = .delivering page (event :: rest)) (hc : r.drain.cursor ≠ some event.position) :
    ∀ c ∈ r.drain.cursor, c < event.position := by
  obtain ⟨-, -, -, hpage⟩ := h.paging _ _ hs
  split_ifs at hpage
  · obtain ⟨more, hmore⟩ := hpage.head hc
    exact (after_head h.sorted hmore).1
  · simp [hpage.head.1]

theorem Inv.handle_forward (h : Inv p start log origin r)
    (hs : r.state = .delivering page (event :: rest)) (hc : r.drain.cursor ≠ some event.position)
    (hi : r.drain.initialized = true) :
    Inv p start log origin ⟨{ r.drain with cursor := some event.position }, .delivering page rest,
      r.delivered ++ [event]⟩ := by
  obtain ⟨hv, hlimit, hsuffix, hpage⟩ := h.paging _ _ hs
  rw [if_pos hi] at hpage
  obtain ⟨more, hmore⟩ := hpage.head hc
  obtain ⟨hlt, hmem, -, hafter⟩ := after_head h.sorted hmore
  refine ⟨h.sorted, h.origin_le, fun c hcc => .inr ?_, fun hsome => ⟨hi, rfl⟩, by simp,
    fun _ => h.origin_isSome (.inl hi), fun _ => ?_, fun hne => absurd rfl (hne page rest), ?_,
    by simp⟩
  · cases hcc
    refine ⟨fun a ha => ?_, event, hmem, rfl⟩
    obtain ⟨c, hcur⟩ := Option.isSome_iff_exists.1
      (h.started (Option.isSome_iff_exists.2 ⟨a, ha⟩)).2
    rcases h.cursor_mem c hcur with hst | ⟨hac, -⟩
    · exact hlt a (hcur.trans (hst.symm.trans ha))
    · exact (hac a ha).trans (hlt c hcur)
  · rw [← h.progress (.inl hi), hmore, hafter, List.append_assoc]
    rfl
  · intro page' rest' hs'
    obtain ⟨rfl, rfl⟩ := ReaderState.delivering.inj hs'
    refine ⟨hv, hlimit, (List.suffix_cons ..).trans hsuffix, ?_⟩
    rw [if_pos hi]
    exact hpage.handle h.sorted hc

theorem Inv.start_none (h : Inv p start log origin r) (hi : ¬r.drain.initialized = true) :
    start = none := by
  rcases start with _ | a
  · rfl
  · exact absurd (h.started rfl).1 hi

theorem Inv.handle_first (h : Inv p start log origin r)
    (hs : r.state = .delivering page (event :: rest)) (hi : ¬r.drain.initialized = true) :
    Inv p start log origin ⟨{ r.drain with cursor := some event.position }, .delivering page rest,
      r.delivered ++ [event]⟩ := by
  obtain ⟨hv, hlimit, hsuffix, hpage⟩ := h.paging _ _ hs
  rw [if_neg hi] at hpage
  obtain rfl := h.start_none hi
  obtain ⟨hcn, rfl, hbatch, n, ho, -⟩ := hpage.head
  obtain ⟨hexp, hmem⟩ := hpage.expected_eq h.sorted
  refine ⟨h.sorted, h.origin_le, fun c hcc => .inr ?_, by simp, by simp, fun _ _ => by simp [ho],
    fun _ => ?_, fun hne => absurd rfl (hne page []), ?_, by simp⟩
  · cases hcc
    exact ⟨by simp, event, hmem, rfl⟩
  · rw [hexp, h.delivered_eq_nil hcn]
    rfl
  · intro page' rest' hs'
    obtain ⟨rfl, rfl⟩ := ReaderState.delivering.inj hs'
    refine ⟨hv, hlimit, List.nil_suffix, ?_⟩
    rw [if_neg hi]
    exact ⟨hpage.cursorless, hpage.latest, .inr ⟨rfl, event, hbatch, rfl⟩⟩

theorem Inv.finish (h : Inv p start log origin r) (hs : r.state = .delivering page [])
    {s : ReaderState} (hstate : s = .waiting ∨ s = .checking) :
    Inv p start log origin { r with drain := { r.drain with initialized := true }, state := s } := by
  have hprogress : (start = none → origin.isSome = true) ∧
      r.delivered ++ after Event.position r.drain.cursor (log.filter p)
        = expected p start origin log := by
    by_cases hi : r.drain.initialized = true
    · exact ⟨h.origin_isSome (.inl hi), h.progress (.inl hi)⟩
    · obtain rfl := h.start_none hi
      obtain ⟨-, -, -, hpage⟩ := h.paging _ _ hs
      rw [if_neg hi] at hpage
      obtain ⟨-, ⟨n, rfl, -, hb⟩, ⟨hnil, hcn⟩ | ⟨-, e, -, hcur⟩⟩ := hpage
      · refine ⟨fun _ => rfl, ?_⟩
        have hnone : ((log.take n).filter p).getLast? = none := by
          rw [← hnil] at hb
          exact Option.toList_eq_nil_iff.1 hb.symm
        rw [h.delivered_eq_nil hcn, hcn, after_none]
        conv_lhs => rw [← List.take_append_drop n log, List.filter_append]
        simp [expected, List.getLast?_eq_none_iff.1 hnone]
      · have hsome : r.drain.cursor.isSome = true := by rw [hcur]; rfl
        exact ⟨h.origin_isSome (.inr hsome), h.progress (.inr hsome)⟩
  refine ⟨h.sorted, h.origin_le, h.cursor_mem, fun hst => ⟨rfl, (h.started hst).2⟩, h.cursor_eq,
    fun _ => hprogress.1, fun _ => hprogress.2, by simp, ?_, ?_⟩
  · rcases hstate with rfl | rfl <;> simp
  · rcases hstate with rfl | rfl <;> simp

theorem Inv.restart (h : Inv p start log origin r) :
    Inv p start log origin
      { r with drain := newSubscriptionDrain r.drain.cursor, state := .waiting } where
  sorted := h.sorted
  origin_le := h.origin_le
  cursor_mem := h.cursor_mem
  started := fun hst => ⟨(h.started hst).2, (h.started hst).2⟩
  cursor_eq := h.cursor_eq
  origin_isSome := fun hi => h.origin_isSome (.inr (hi.elim id id))
  progress := fun hi => h.progress (.inr (hi.elim id id))
  cursorless := fun _ hi => Option.isNone_iff_eq_none.1 (by simpa [newSubscriptionDrain] using hi)
  paging := by simp
  valid := by simp

theorem Inv.wake (h : Inv p start log origin r) : Inv p start log origin r.wake :=
  h.move rfl rfl rfl h.cursorless h.paging h.valid

theorem Inv.forward {first : Position} (h : Inv p (some first) log origin r)
    (hs : r.state = .delivering page rest) :
    Forward p log r.drain.cursor page rest := by
  obtain ⟨-, -, -, hpage⟩ := h.paging page rest hs
  rwa [if_pos (h.started rfl).1] at hpage

theorem inv_step {a : ReaderAction} (h : Inv p start log origin r) (hs : r.step a = some r') :
    Inv p start log origin r' := by
  cases a with
  | receive =>
    obtain ⟨hw, -, rfl⟩ := receive_eq_some hs
    exact h.idle rfl rfl rfl (by simp [hw]) (by simp) (by simp)
  | cancel cause =>
    obtain ⟨hw, rfl⟩ := cancel_eq_some hs
    exact h.idle rfl rfl rfl (by simp [hw]) (by simp) (by simp)
  | check ctxErr chk =>
    obtain ⟨hw, rfl | ⟨e, he, rfl⟩⟩ := check_eq_some hs
    · exact h.idle rfl rfl rfl (by simp [hw]) (by simp) (by simp)
    · exact h.idle rfl rfl rfl (by simp [hw]) (by simp) (by simpa using he)
  | fail ctxErr cause =>
    obtain ⟨hw, e, he, rfl⟩ := fail_eq_some hs
    exact h.idle rfl rfl rfl (by simp [hw]) (by simp) (by simpa using he)
  | skip =>
    obtain ⟨page, event, rest, hd, hc, rfl⟩ := skip_eq_some hs
    exact h.skip hd hc
  | handle ctxErr chk handler =>
    obtain ⟨page, event, rest, hd, hc, ⟨e, he, rfl⟩ | ⟨-, rfl⟩⟩ := handle_eq_some hs
    · exact h.stop hd he
    · by_cases hi : r.drain.initialized = true
      · exact h.handle_forward hd hc hi
      · exact h.handle_first hd hi
  | finish =>
    obtain ⟨page, hd, rfl⟩ := finish_eq_some hs
    refine h.finish hd ?_
    split_ifs
    · exact .inl rfl
    · exact .inr rfl

theorem getBatch_asc (hs : Sorted Event.position log) (n : ℕ) (cursor : Option Position) :
    ∃ row news, getBatch p (log.take n) ⟨.asc, batchSize, cursor⟩ = row ++ news ∧
      (row = [] ∨ ∃ e, row = [e] ∧ cursor = some e.position) ∧
      news <+: after Event.position cursor (log.filter p) := by
  have hprefix : after Event.position cursor ((log.take n).filter p)
      <+: after Event.position cursor (log.filter p) :=
    ((List.take_prefix n log).filter p).filter _
  have hsorted : Sorted Event.position ((log.take n).filter p) :=
    Sorted.filter (List.Pairwise.sublist (List.take_sublist n log) hs) p
  obtain ⟨row, hrow, hcase⟩ := since_eq (c := cursor) hsorted
  unfold getBatch batchSize
  dsimp only
  rw [hrow]
  rcases hcase with rfl | ⟨e, rfl, hc⟩
  · exact ⟨[], _, rfl, .inl rfl, (List.take_prefix ..).trans hprefix⟩
  · exact ⟨[e], _, rfl, .inr ⟨e, rfl, hc⟩, (List.take_prefix 99 _).trans hprefix⟩

theorem validate_asc (hs : Sorted Event.position log) (n : ℕ) (cursor : Option Position) :
    validate cursor (getBatch p (log.take n) ⟨.asc, batchSize, cursor⟩) batchSize = .ok () := by
  have hsub : (getBatch p (log.take n) ⟨.asc, batchSize, cursor⟩).Sublist log :=
    (List.take_sublist ..).trans (List.filter_sublist.trans
      (List.filter_sublist.trans (List.take_sublist ..)))
  refine validate_eq_ok.2 ⟨List.length_take_le .., hs.sublist hsub, ?_⟩
  rintro c rfl e he
  have hmem := (List.mem_filter.1 (List.mem_of_mem_take he)).2
  simpa using hmem

theorem getBatch_desc (n : ℕ) :
    getBatch p (log.take n) ⟨.desc, 1, none⟩ = ((log.take n).filter p).getLast?.toList := by
  have hall : ((log.take n).filter p).filter (fun _ => true) = (log.take n).filter p :=
    List.filter_eq_self.2 fun _ _ => rfl
  unfold getBatch
  simp only [Option.all_none, hall]
  rw [← List.head?_reverse]
  rcases ((log.take n).filter p).reverse with _ | ⟨e, es⟩ <;> rfl

theorem Inv.validate_getBatch (h : Inv p start log origin r) (hr : r.state = .reading) (n : ℕ) :
    validate r.drain.cursor (getBatch p (log.take n) r.drain.request) r.drain.request.count
      = .ok () := by
  unfold SubscriptionDrain.request
  split_ifs with hi
  · exact validate_asc h.sorted n _
  · rw [h.cursorless (by simp [hr]) (by simpa using hi), getBatch_desc]
    refine validate_eq_ok.2 ⟨?_, ?_, by simp⟩
    · rcases ((log.take n).filter p).getLast? with _ | e <;> simp
    · rcases ((log.take n).filter p).getLast? with _ | e <;> simp [Sorted]

theorem Inv.read (h : Inv p start log origin r) {n : ℕ} (hn : n ≤ log.length)
    (hr : r.receiveBatch (getBatch p (log.take n) r.drain.request) = some r') :
    Inv p start log (if r.drain.initialized then origin else some n) r' := by
  have hstate := reading_of_receiveBatch hr
  have hv := h.validate_getBatch hstate n
  have hcount : r.drain.request.count ≤ batchSize := by
    unfold SubscriptionDrain.request batchSize
    split_ifs <;> simp
  obtain rfl := Option.some.inj ((receiveBatch_eq hstate hv).symm.trans hr)
  by_cases hi : r.drain.initialized = true
  · rw [if_pos hi]
    refine h.move rfl rfl rfl (fun hne => absurd rfl (hne _ _)) ?_ (by simp)
    intro page rest hs
    obtain ⟨rfl, rfl⟩ := ReaderState.delivering.inj hs
    refine ⟨hv, hcount, List.suffix_refl _, ?_⟩
    rw [if_pos hi]
    refine ⟨?_, fun _ => .inl rfl, .inl rfl⟩
    unfold SubscriptionDrain.request
    rw [if_pos hi]
    exact getBatch_asc h.sorted n _
  · rw [if_neg hi]
    have hnone : r.drain.cursor = none :=
      h.cursorless (by simp [hstate]) (by simpa using hi)
    have hfresh : ¬(r.drain.initialized = true ∨ r.drain.cursor.isSome = true) := by
      simpa [hnone] using hi
    refine ⟨h.sorted, by simpa using hn, h.cursor_mem, h.started, h.cursor_eq,
      fun hx => absurd hx hfresh, fun hx => absurd hx hfresh, fun hne => absurd rfl (hne _ _), ?_,
      by simp⟩
    intro page rest hs
    obtain ⟨rfl, rfl⟩ := ReaderState.delivering.inj hs
    refine ⟨hv, hcount, List.suffix_refl _, ?_⟩
    rw [if_neg hi]
    refine ⟨hnone, ⟨n, rfl, hn, ?_⟩, .inl ⟨rfl, hnone⟩⟩
    unfold SubscriptionDrain.request
    rw [if_neg hi, getBatch_desc]

end Reader

end Orisun
