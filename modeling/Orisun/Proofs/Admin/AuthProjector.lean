import Orisun.Admin.AuthProjector
import Orisun.Lib.Attempt
import Orisun.Proofs.Admin.Sessions
import Orisun.Proofs.Admin.UserProjection
import Orisun.Proofs.Delivery

/-!
# Revocation of sessions

A login that has read a row before a change of its user inserts a session after the auth projector
has handled that change. A subscription that follows one that failed starts at the latest event, and
the events between them are never handled.
-/

namespace Orisun.Admin.Sessions

open Orisun.Admin.Users

section Tables

variable {t t' : Table} {e : Users.Event} {r : User} {userId : String}

theorem tableAfter_concat {events : List Users.Event} :
    tableAfter (events ++ [e]) = .ok t' ↔ ∃ t, tableAfter events = .ok t ∧ handleEvent t e = .ok t' := by
  rw [tableAfter, List.foldlM_append, Attempt.bind_eq_ok]
  simp [tableAfter]

end Tables

namespace Process

variable {compare : String → String → Bool} {sessionTTL maxUserSessions : ℤ} {s s' : Process}

/-- The row stands in the table after `n` events. -/
def Stood (s : Process) (user : User) (n : ℕ) : Prop :=
  n ≤ s.log.length ∧ ∃ t, tableAfter (s.log.take n) = .ok t ∧ user ∈ t

/-- The table of users is that of the events handled, and rows were read from such a table. The
sessions are for rows that reflect what they would have been revoked for. -/
structure Inv (s : Process) : Prop where
  handled : s.authHandled ≤ s.log.length
  projected : s.userHandled ≤ s.log.length ∧
    tableAfter (s.log.take s.userHandled) = .ok s.users
  logins : ∀ user n, .verified user n ∈ s.logins → s.Stood user n
  sessions : ∀ x ∈ s.sessions.all, s.Current x.user.id (s.reflects x.token) ∧
    s.Stood x.user (s.reflects x.token)

theorem Current.append {userId : String} {n : ℕ} (h : s.Current userId n)
    (hn : s.authHandled ≤ s.log.length) (hlog : s.log <+: s'.log)
    (hauth : s'.authHandled = s.authHandled) : s'.Current userId n := by
  intro k e hk hlt hget
  rw [hauth] at hlt
  obtain ⟨more, hmore⟩ := hlog
  rw [← hmore, List.getElem?_append_left (by omega)] at hget
  exact h k e hk hlt hget

theorem take_of_isPrefix {n : ℕ} (hn : n ≤ s.log.length) (hlog : s.log <+: s'.log) :
    s'.log.take n = s.log.take n := by
  obtain ⟨more, hmore⟩ := hlog
  rw [← hmore, List.take_append_of_le_length hn]

theorem Stood.append {user : User} {n : ℕ} (h : s.Stood user n) (hlog : s.log <+: s'.log) :
    s'.Stood user n := by
  refine ⟨h.1.trans hlog.length_le, ?_⟩
  rw [take_of_isPrefix h.1 hlog]
  exact h.2

/-- Nothing is handled, and the rows of sessions and logins were there before. -/
theorem Inv.mono (h : s.Inv) (hlog : s.log <+: s'.log) (hauth : s'.authHandled = s.authHandled)
    (huser : s'.userHandled = s.userHandled) (husers : s'.users = s.users)
    (hlogins : ∀ user n, .verified user n ∈ s'.logins →
      .verified user n ∈ s.logins ∨ s.Stood user n)
    (hs : ∀ x ∈ s'.sessions.all, ∃ y ∈ s.sessions.all, x.user = y.user ∧
      s'.reflects x.token = s.reflects y.token) : s'.Inv where
  handled := by
    rw [hauth]
    exact h.handled.trans hlog.length_le
  projected := by
    rw [huser, husers, take_of_isPrefix h.projected.1 hlog]
    exact ⟨h.projected.1.trans hlog.length_le, h.projected.2⟩
  logins user n hn := ((hlogins user n hn).elim (h.logins user n) id).append hlog
  sessions x hx := by
    obtain ⟨y, hy, huser, hreflects⟩ := hs x hx
    rw [huser, hreflects]
    obtain ⟨hcurrent, hstood⟩ := h.sessions y hy
    exact ⟨hcurrent.append h.handled hlog hauth, hstood.append hlog⟩

theorem verified_of_mem_set {logins : List Login} {i : ℕ} {l : Login} {user : User} {n : ℕ}
    (h : .verified user n ∈ logins.set i l) : .verified user n ∈ logins ∨ l = .verified user n :=
  (List.mem_or_eq_of_mem_set h).imp_right Eq.symm

theorem stood_of_verify (h : s.Inv) {username password : String} {user : User} {n : ℕ}
    (hv : s.verify compare username password = .verified user n) : s.Stood user n := by
  unfold Process.verify at hv
  split at hv
  · cases hv
  · rename_i row hrow
    split_ifs at hv
    cases hv
    exact ⟨h.projected.1, s.users, h.projected.2, List.mem_of_find?_eq_some hrow⟩

theorem Inv.insert (h : s.Inv) {user : User} {n i : ℕ} (hi : s.logins[i]? = some (.verified user n))
    (hc : s.Current user.id n) {token : String} {now : ℤ} {order : ℕ → Iteration} :
    Inv { s with
      sessions := (enforceUserSessionLimit maxUserSessions user.id order
        (deleteExpiredSessions s.sessions now)).put ⟨token, user, now + sessionTTL⟩
      reflects := Function.update s.reflects token n
      logins := s.logins.set i .finished } where
  handled := h.handled
  projected := h.projected
  logins user n hn := by
    rcases verified_of_mem_set hn with hn | hn
    · exact h.logins user n hn
    · cases hn
  sessions x hx := by
    rcases SessionTable.mem_put.1 hx with ⟨hx, htoken⟩ | rfl
    · have hold := enforceUserSessionLimit_subset _ _ _ hx
      have hsession := h.sessions x (mem_deleteExpiredSessions.1 hold).1
      rwa [← Function.update_of_ne htoken n s.reflects] at hsession
    · have hsession := And.intro hc (h.logins user n (List.mem_of_getElem? hi))
      rwa [← Function.update_self token n s.reflects] at hsession

theorem Inv.projectUser (h : s.Inv) {e : Users.Event} (he : s.log[s.userHandled]? = some e)
    {users : Table} (hu : handleEvent s.users e = .ok users) :
    Inv { s with users, userHandled := s.userHandled + 1 } where
  handled := h.handled
  projected := by
    refine ⟨(List.getElem?_eq_some_iff.1 he).1, ?_⟩
    rw [List.take_add_one, he]
    exact tableAfter_concat.2 ⟨s.users, h.projected.2, hu⟩
  logins := h.logins
  sessions := h.sessions

theorem Inv.project (h : s.Inv) {e : Users.Event} (he : s.log[s.authHandled]? = some e)
    {sessions : SessionTable} (hsub : sessions.all ⊆ s.sessions.all)
    (hs : ∀ x ∈ sessions.all, authHandleEvent e ≠ .ok (some x.user.id)) :
    Inv { s with sessions := sessions, authHandled := s.authHandled + 1 } where
  handled := (List.getElem?_eq_some_iff.1 he).1
  projected := h.projected
  logins := h.logins
  sessions x hx := by
    refine ⟨fun k f hk hlt hf => ?_, (h.sessions x (hsub hx)).2⟩
    rcases Nat.lt_succ_iff_lt_or_eq.1 hlt with hlt | rfl
    · exact (h.sessions x (hsub hx)).1 k f hk hlt hf
    · obtain rfl := Option.some.inj (he.symm.trans hf)
      exact hs x hx

theorem Inv.step (h : s.Inv) {a : Action} (hc : s.InsertsCurrent a)
    (hs : s.step compare sessionTTL maxUserSessions a = some s') : s'.Inv := by
  have hsame : ∀ user n, .verified user n ∈ s.logins → .verified user n ∈ s.logins ∨ s.Stood user n :=
    fun _ _ => .inl
  have hrows : ∀ x ∈ s.sessions.all, ∃ y ∈ s.sessions.all, x.user = y.user ∧
      s.reflects x.token = s.reflects y.token := fun x hx => ⟨x, hx, rfl, rfl⟩
  rcases a with event | userId | ⟨userId, hash⟩ | i | ⟨username, password⟩ | i |
    ⟨i, token, now, order⟩ | ⟨token, now⟩ | _ | _ <;> simp only [Process.step] at hs
  · cases hs
    exact h.mono (List.prefix_append _ _) rfl rfl rfl hsame hrows
  · cases hs
    exact h.mono (List.prefix_append _ _) rfl rfl rfl hsame hrows
  · cases hs
    exact h.mono (List.prefix_append _ _) rfl rfl rfl hsame hrows
  · obtain ⟨userId, -, rfl⟩ := Option.map_eq_some_iff.1 hs
    exact h.mono List.prefix_rfl rfl rfl rfl hsame fun x hx =>
      hrows x (mem_revokeUserSessions.1 hx).1
  · cases hs
    exact h.mono List.prefix_rfl rfl rfl rfl (fun _ _ hn => .inl (by simpa using hn)) hrows
  · split at hs
    · cases hs
      refine h.mono List.prefix_rfl rfl rfl rfl (fun user n hn => ?_) hrows
      exact (verified_of_mem_set hn).imp_right (stood_of_verify h)
    · simp at hs
  · split at hs
    · rename_i user n hi
      cases hs
      exact h.insert hi (hc i token now order rfl user n hi)
    · simp at hs
  · cases hs
    refine h.mono List.prefix_rfl rfl rfl rfl hsame fun x hx => ?_
    obtain ⟨y, hy, htoken, huser⟩ := mem_validateToken hx
    exact ⟨y, hy, huser, by rw [htoken]⟩
  · split at hs
    · simp at hs
    · rename_i e he
      split at hs
      · simp at hs
      · rename_i users hu
        cases hs
        exact h.projectUser he hu
  · split at hs
    · simp at hs
    · rename_i e he
      split at hs
      · simp at hs
      · rename_i hnone
        cases hs
        exact h.project he (List.Subset.refl _) (by simp [hnone])
      · rename_i userId hsome
        cases hs
        refine h.project he (fun x hx => (mem_revokeUserSessions.1 hx).1) fun x hx heq => ?_
        have hid := (mem_revokeUserSessions.1 hx).2
        rw [hsome] at heq
        exact hid (Option.some.inj (Except.ok.inj heq)).symm

end Process

theorem authHandleEvent_secures {userId : String} (hne : userId ≠ "") {e : Users.Event}
    (h : Secures userId e) : authHandleEvent e = .ok (some userId) := by
  rcases h with rfl | ⟨hash, rfl⟩ <;> simp [authHandleEvent, Users.Event.omitEmpty, hne]

namespace AuthUserProjector

variable {decode : Orisun.Event → Users.Event} {s s' : AuthUserProjector}

/-- The reader has made its first read. -/
def HasRead (r : Reader) : Prop :=
  r.drain.initialized = true ∨ (∃ page rest, r.state = .delivering page rest) ∨
    ∃ e, r.state = .stopped e

theorem HasRead.step {r r' : Reader} (h : HasRead r) {a : ReaderAction} (hs : r.step a = some r') :
    HasRead r' := by
  cases a with
  | receive =>
    obtain ⟨hw, -, rfl⟩ := Reader.receive_eq_some hs
    simpa [HasRead, hw] using h
  | cancel cause =>
    obtain ⟨-, rfl⟩ := Reader.cancel_eq_some hs
    exact .inr (.inr ⟨_, rfl⟩)
  | check ctxErr check =>
    obtain ⟨hw, rfl | ⟨e, -, rfl⟩⟩ := Reader.check_eq_some hs
    · simpa [HasRead, hw] using h
    · exact .inr (.inr ⟨e, rfl⟩)
  | fail ctxErr cause =>
    obtain ⟨-, e, -, rfl⟩ := Reader.fail_eq_some hs
    exact .inr (.inr ⟨e, rfl⟩)
  | skip =>
    obtain ⟨page, event, rest, -, -, rfl⟩ := Reader.skip_eq_some hs
    exact .inr (.inl ⟨page, rest, rfl⟩)
  | handle ctxErr check handler =>
    obtain ⟨page, event, rest, -, -, ⟨e, -, rfl⟩ | ⟨-, rfl⟩⟩ := Reader.handle_eq_some hs
    · exact .inr (.inr ⟨e, rfl⟩)
    · exact .inr (.inl ⟨page, rest, rfl⟩)
  | finish =>
    obtain ⟨page, -, rfl⟩ := Reader.finish_eq_some hs
    exact .inl rfl

theorem hasRead_of_receiveBatch {r r' : Reader} {batch : List Orisun.Event}
    (hs : r.receiveBatch batch = some r') : HasRead r' := by
  unfold Reader.receiveBatch at hs
  split at hs
  · split at hs <;> cases hs
    · exact .inr (.inr ⟨_, rfl⟩)
    · exact .inr (.inl ⟨_, _, rfl⟩)
  · cases hs

/-- What the current subscription has skipped was handled before it; and as long as it has not read,
so were all security events. -/
structure Inv (decode : Orisun.Event → Users.Event) (s : AuthUserProjector) : Prop where
  delivery : s.delivery.Inv matchAll none
  read : s.delivery.origin.isSome → s.delivery.firstRead.isSome ∧ HasRead s.delivery.reader
  skipped : ∀ first n, s.delivery.firstRead = some first → s.delivery.origin = some n →
    ∀ i e, first ≤ i → i + 1 < n → s.delivery.log[i]? = some e →
      ∀ userId, Secures userId (decode e) → e ∈ s.handled
  unread : ∀ first, s.delivery.firstRead = some first → s.delivery.origin = none →
    ∀ i e, first ≤ i → s.delivery.log[i]? = some e →
      ∀ userId, Secures userId (decode e) → e ∈ s.handled

theorem lift_eq_some {a : DeliveryAction} (h : s.lift a = some s') :
    ∃ d, s.delivery.step matchAll a = some d ∧ s' = { s with delivery := d } := by
  obtain ⟨d, hd, rfl⟩ := Option.map_eq_some_iff.1 h
  exact ⟨d, hd, rfl⟩

theorem mem_expected {log : List Orisun.Event} {n i : ℕ} {e : Orisun.Event} (hn : n ≤ log.length)
    (hi : n ≤ i + 1) (hget : log[i]? = some e) : e ∈ expected matchAll none (some n) log := by
  rw [expected, List.mem_append]
  rcases Nat.lt_or_ge i n with hlt | hge
  · left
    obtain rfl : n = i + 1 := by omega
    have hlast : (log.take (i + 1)).getLast? = some e := by
      rw [List.getLast?_eq_getElem?, List.length_take, Nat.min_eq_left hn,
        List.getElem?_take_of_lt (by omega)]
      exact hget
    have hall : (log.take (i + 1)).filter matchAll = log.take (i + 1) :=
      List.filter_eq_self.2 fun _ _ => rfl
    rw [hall, hlast]
    simp
  · right
    rw [List.mem_filter]
    refine ⟨List.mem_iff_getElem?.2 ⟨i - n, ?_⟩, rfl⟩
    rw [List.getElem?_drop, Nat.add_sub_cancel' hge]
    exact hget

/-- What the cursor is past was delivered, from the latest event of the first read on. -/
theorem Inv.delivered (h : s.Inv decode) {n i : ℕ} {e : Orisun.Event} {c : Position}
    (hn : s.delivery.origin = some n) (hi : n ≤ i + 1) (hget : s.delivery.log[i]? = some e)
    (hc : s.delivery.reader.drain.cursor = some c) (hle : e.position ≤ c) :
    e ∈ s.delivery.reader.delivered := by
  have hreader := h.delivery.reader
  rw [hreader.delivered_eq, hn, hc]
  refine List.mem_filter.2 ⟨mem_expected (hreader.origin_le n hn) hi hget, ?_⟩
  simpa using hle

theorem Inv.append (h : s.Inv decode) {event : Orisun.Event}
    (hc : s.EndsDrained decode (.append event)) (hs : s.lift (.append event) = some s') :
    s'.Inv decode := by
  obtain ⟨d, hd, rfl⟩ := lift_eq_some hs
  have hinv := Delivery.inv_step h.delivery hd
  obtain ⟨-, rfl⟩ := Delivery.append_eq_some hd
  refine ⟨hinv, h.read, fun first n hf hn i e hi hin hget => ?_, fun first hf ho i e hi hget => ?_⟩
  · have hle := h.delivery.reader.origin_le n hn
    simp only [List.getElem?_append_left (by omega : i < s.delivery.log.length)] at hget
    exact h.skipped first n hf hn i e hi hin hget
  · rcases lt_or_ge i s.delivery.log.length with hlt | hge
    · simp only [List.getElem?_append_left hlt] at hget
      exact h.unread first hf ho i e hi hget
    · simp only [List.getElem?_append_right hge, List.getElem?_singleton] at hget
      split_ifs at hget
      obtain rfl := Option.some.inj hget
      have hread : s.delivery.firstRead.isSome := Option.isSome_iff_exists.2 ⟨first, hf⟩
      exact fun userId hsec => absurd hsec (hc hread ho userId)

theorem Inv.read_step (h : s.Inv decode) {snapshot : ℕ} (hs : s.lift (.read snapshot) = some s') :
    s'.Inv decode := by
  obtain ⟨d, hd, rfl⟩ := lift_eq_some hs
  have hinv := Delivery.inv_step h.delivery hd
  obtain ⟨-, reader, hreader, rfl⟩ := Delivery.read_eq_some hd
  have hreading := Reader.reading_of_receiveBatch hreader
  refine ⟨hinv, fun _ => ⟨?_, hasRead_of_receiveBatch hreader⟩, ?_, ?_⟩
  · rcases s.delivery.firstRead with _ | first <;> rfl
  · intro first n hf hn i e hi hin hget userId hsec
    simp only at hf hn hget
    split_ifs at hn with hinit
    · rcases hfirst : s.delivery.firstRead with _ | f <;> rw [hfirst] at hf
      · -- an initialized reader has read before
        have hread := (h.read (h.delivery.reader.origin_isSome (.inl hinit) rfl)).1
        rw [hfirst] at hread
        simp at hread
      · exact h.skipped first n (hfirst.trans hf) hn i e hi hin hget userId hsec
    · cases hn
      have horigin : s.delivery.origin = none := by
        rw [← Option.not_isSome_iff_eq_none]
        intro hsome
        rcases (h.read hsome).2 with hinit' | ⟨page, rest, hstate⟩ | ⟨err, hstate⟩
        · exact hinit hinit'
        · simp [hreading] at hstate
        · simp [hreading] at hstate
      rcases hfirst : s.delivery.firstRead with _ | f <;> rw [hfirst] at hf
      · cases hf
        omega
      · exact h.unread first (hfirst.trans hf) horigin i e hi hget userId hsec
  · intro first _ ho
    simp only at ho
    split_ifs at ho with hinit
    have hsome := h.delivery.reader.origin_isSome (.inl hinit) rfl
    rw [ho] at hsome
    cases hsome

theorem Inv.restart (h : s.Inv decode) (hc : s.EndsDrained decode .restart)
    (hs : s.restart = some s') : s'.Inv decode := by
  unfold AuthUserProjector.restart at hs
  split at hs
  · cases hs
    refine ⟨⟨?_, h.delivery.seen⟩, by simp, by simp, fun first hf _ i e hi hget userId hsec => ?_⟩
    · have hgrow := (Reader.inv_initial (p := matchAll) none).grow h.delivery.reader.sorted
        (fun x hx => by simp at hx)
      rwa [List.nil_append] at hgrow
    · rcases hn : s.delivery.origin with _ | n
      · exact List.mem_append_left _ (h.unread first hf hn i e hi hget userId hsec)
      · rcases Nat.lt_or_ge (i + 1) n with hlt | hge
        · exact List.mem_append_left _ (h.skipped first n hf hn i e hi hlt hget userId hsec)
        · obtain ⟨c, hcursor, hle⟩ := hc first n hf hn i e hi hge hget userId hsec
          exact List.mem_append_right _ (h.delivered hn hge hget hcursor hle)
  · simp at hs

theorem Inv.step (h : s.Inv decode) {a : Action} (hc : s.EndsDrained decode a)
    (hs : s.step a = some s') : s'.Inv decode := by
  rcases a with event | _ | snapshot | action | _
  · exact h.append hc hs
  · obtain ⟨d, hd, rfl⟩ := lift_eq_some hs
    have hinv := Delivery.inv_step h.delivery hd
    cases hd
    exact ⟨hinv, h.read, h.skipped, h.unread⟩
  · exact h.read_step hs
  · obtain ⟨d, hd, rfl⟩ := lift_eq_some hs
    have hinv := Delivery.inv_step h.delivery hd
    obtain ⟨reader, hreader, rfl⟩ := Option.map_eq_some_iff.1 hd
    exact ⟨hinv, fun ho => ⟨(h.read ho).1, (h.read ho).2.step hreader⟩, h.skipped, h.unread⟩
  · exact h.restart hc hs

end AuthUserProjector

/-- Where subscriptions end only when they have drained the security events they are for, and none is
appended until the next one has read, each deletion and password change appended after the first
read of all has led to a revocation once the cursor is past it. -/
theorem securityEvents_handled {decode : Orisun.Event → Users.Event}
    {as : List AuthUserProjector.Action} {s : AuthUserProjector}
    (hr : Transition.run AuthUserProjector.step AuthUserProjector.initial as = some s)
    (hc : Transition.Along AuthUserProjector.step (AuthUserProjector.EndsDrained decode)
      AuthUserProjector.initial as)
    {first i : ℕ} {e : Orisun.Event} {userId : String} {cursor : Position}
    (hfirst : s.delivery.firstRead = some first) (hi : first ≤ i)
    (hget : s.delivery.log[i]? = some e) (he : Secures userId (decode e)) (hne : userId ≠ "")
    (hcursor : s.delivery.reader.drain.cursor = some cursor) (hpast : e.position ≤ cursor) :
    (e, userId) ∈ s.revocations decode := by
  have h0 : AuthUserProjector.initial.Inv decode :=
    ⟨⟨Reader.inv_initial none, le_rfl⟩, by simp [AuthUserProjector.initial, Delivery.initial],
      by simp [AuthUserProjector.initial, Delivery.initial],
      by simp [AuthUserProjector.initial, Delivery.initial]⟩
  have h := Transition.run_invariant_along (I := AuthUserProjector.Inv decode)
    (fun _ _ _ h hc hs => h.step hc hs) h0 hc hr
  obtain ⟨n, hn⟩ := Option.isSome_iff_exists.1
    (h.delivery.reader.origin_isSome (.inr (by rw [hcursor]; rfl)) rfl)
  have hmem : e ∈ s.handled ++ s.delivery.reader.delivered := by
    rcases Nat.lt_or_ge (i + 1) n with hlt | hge
    · exact List.mem_append_left _ (h.skipped first n hfirst hn i e hi hlt hget userId he)
    · exact List.mem_append_right _ (h.delivered hn hge hget hcursor hpast)
  refine List.mem_filterMap.2 ⟨e, hmem, ?_⟩
  rw [authHandleEvent_secures hne he]
  rfl

def secondDeletes (e : Orisun.Event) : Users.Event :=
  if e.position = ⟨2, 1⟩ then .userDeleted "u1" else .other "$BoundaryCreated"

/-- A subscription that reads the first event and ends at its next check. -/
def firstSubscription : List AuthUserProjector.Action :=
  [.append ⟨⟨1, 0⟩, .null⟩, .wake, .reader .receive, .reader (.check none none), .read 1,
    .reader (.handle none none none), .reader .finish, .reader (.check none (some "lease lost"))]

/-- The next one, which reads the latest of `n` events and hands it over. -/
def nextSubscription (n : ℕ) : List AuthUserProjector.Action :=
  [.restart, .wake, .reader .receive, .reader (.check none none), .read n,
    .reader (.handle none none none)]

/-- The first subscription ends, the next one reads the same event and then a deletion. -/
def deletionAfterRestart : List AuthUserProjector.Action :=
  firstSubscription ++ nextSubscription 1 ++ [.reader .finish, .append ⟨⟨2, 1⟩, .null⟩,
    .reader (.check none none), .read 2, .reader .skip, .reader (.handle none none none)]

/-- A check of `EndsDrained` where the deletion is appended to a subscription that has read. -/
def AuthUserProjector.endsDrained (s : AuthUserProjector) : AuthUserProjector.Action → Bool
  | .restart => s.delivery.log.all fun e => decide (e.position ≠ ⟨2, 1⟩)
  | .append _ => s.delivery.firstRead.isNone || s.delivery.origin.isSome
  | _ => true

theorem secures_secondDeletes {userId : String} {e : Orisun.Event}
    (h : Secures userId (secondDeletes e)) : e.position = ⟨2, 1⟩ := by
  by_contra hne
  simp [secondDeletes, hne, Secures] at h

theorem securityEvents_handled_latest : ∃ s e,
    Transition.run AuthUserProjector.step AuthUserProjector.initial deletionAfterRestart = some s ∧
    e.position = ⟨2, 1⟩ ∧ (e, "u1") ∈ s.revocations secondDeletes := by
  obtain ⟨s, hs, hp⟩ := Transition.exists_run AuthUserProjector.initial deletionAfterRestart
    (fun s => decide (s.delivery.firstRead = some 1 ∧
      s.delivery.log.map Event.position = [⟨1, 0⟩, ⟨2, 1⟩] ∧
      s.delivery.reader.drain.cursor = some ⟨2, 1⟩))
    (by decide +kernel : (Transition.run AuthUserProjector.step _ _).any _ = true)
  obtain ⟨hfirst, hlog, hcursor⟩ := of_decide_eq_true hp
  obtain ⟨e, hget, he⟩ : ∃ e, s.delivery.log[1]? = some e ∧ e.position = ⟨2, 1⟩ := by
    have h := congrArg (·[1]?) hlog
    simp only [List.getElem?_map] at h
    exact Option.map_eq_some_iff.1 h
  refine ⟨s, e, hs, he,
    securityEvents_handled hs ?_ hfirst le_rfl hget (.inl (if_pos he)) (by decide) hcursor he.le⟩
  refine Transition.along_of_checkAlong (p := AuthUserProjector.endsDrained) ?_ (by decide +kernel)
  rintro s (event | _ | _ | _ | _) hcheck
  · intro hread horigin
    simp [AuthUserProjector.endsDrained, Option.isSome_iff_ne_none.1 hread, horigin] at hcheck
  all_goals try trivial
  intro first n _ _ i e _ _ hget userId hsec
  have hne := List.all_eq_true.1 hcheck e (List.mem_of_getElem? hget)
  exact absurd (secures_secondDeletes hsec) (of_decide_eq_true hne)

/-- The events appended while no subscription is open are a deletion and another one. The deletion is
never handled. -/
theorem securityEvent_skipped : ∃ s,
    Transition.run AuthUserProjector.step AuthUserProjector.initial
      (firstSubscription ++ .append ⟨⟨2, 1⟩, .null⟩ :: .append ⟨⟨3, 2⟩, .null⟩ ::
        nextSubscription 3) = some s ∧
    s.delivery.firstRead = some 1 ∧ s.delivery.log.map Event.position = [⟨1, 0⟩, ⟨2, 1⟩, ⟨3, 2⟩] ∧
    s.delivery.reader.drain.cursor = some ⟨3, 2⟩ ∧ s.revocations secondDeletes = [] := by
  obtain ⟨s, hs, hp⟩ := Transition.exists_run AuthUserProjector.initial
    (firstSubscription ++ .append ⟨⟨2, 1⟩, .null⟩ :: .append ⟨⟨3, 2⟩, .null⟩ :: nextSubscription 3)
    (fun s => decide (s.delivery.firstRead = some 1 ∧
      s.delivery.log.map Event.position = [⟨1, 0⟩, ⟨2, 1⟩, ⟨3, 2⟩] ∧
      s.delivery.reader.drain.cursor = some ⟨3, 2⟩ ∧ s.revocations secondDeletes = []))
    (by decide +kernel : (Transition.run AuthUserProjector.step _ _).any _ = true)
  exact ⟨s, hs, of_decide_eq_true hp⟩

end Orisun.Admin.Sessions
