import Orisun.Admin.Sessions
import Orisun.Lib.Transition

/-!
# The table of sessions

A login purges what has expired and evicts the user's oldest sessions, so that no user has more than
allowed. The table has what the history of the tokens makes live, and besides only what has expired.
-/

namespace Orisun.Admin.Sessions

open Orisun.Admin.Users

namespace SessionTable

variable {s : SessionTable} {x y : Session} {token : String}

theorem mem_keep {p : Session → Bool} : x ∈ (s.keep p).all ↔ x ∈ s.all ∧ p x = true :=
  List.mem_filter

theorem mem_delete : x ∈ (s.delete token).all ↔ x ∈ s.all ∧ x.token ≠ token := by
  rw [delete, mem_keep, decide_eq_true_eq]

theorem mem_put : x ∈ (s.put y).all ↔ (x ∈ s.all ∧ x.token ≠ y.token) ∨ x = y := by
  rw [put, List.mem_append, mem_delete, List.mem_singleton]

theorem eq_of_token (hx : x ∈ s.all) (hy : y ∈ s.all) (h : x.token = y.token) : x = y :=
  List.inj_on_of_nodup_map s.nodup hx hy h

theorem get_eq_some : s.get token = some x ↔ x ∈ s.all ∧ x.token = token := by
  constructor
  · intro h
    exact ⟨List.mem_of_find?_eq_some h, by simpa using List.find?_some h⟩
  · rintro ⟨hx, rfl⟩
    rcases hf : s.get x.token with _ | y
    · simpa using List.find?_eq_none.1 hf x hx
    · have hy : y.token = x.token := by simpa using List.find?_some hf
      rw [eq_of_token (List.mem_of_find?_eq_some hf) hx hy]

def ofUser (s : SessionTable) (userId : String) : List Session :=
  s.all.filter fun x => decide (x.user.id = userId)

variable {userId : String}

theorem mem_ofUser : x ∈ s.ofUser userId ↔ x ∈ s.all ∧ x.user.id = userId := by
  rw [ofUser, List.mem_filter, decide_eq_true_eq]

theorem length_ofUser_le {l : List Session} (h : ∀ x ∈ s.ofUser userId, ∃ y ∈ l, y.token = x.token) :
    (s.ofUser userId).length ≤ l.length := by
  have hnodup : ((s.ofUser userId).map Session.token).Nodup :=
    s.nodup.sublist (List.filter_sublist.map _)
  have hsub : (s.ofUser userId).map Session.token ⊆ l.map Session.token := by
    intro t ht
    obtain ⟨x, hx, rfl⟩ := List.mem_map.1 ht
    obtain ⟨y, hy, hxy⟩ := h x hx
    exact List.mem_map.2 ⟨y, hy, hxy⟩
  simpa using (List.subperm_of_subset hnodup hsub).length_le

theorem length_ofUser_mono {t : SessionTable} (h : s.all ⊆ t.all) (userId : String) :
    (s.ofUser userId).length ≤ (t.ofUser userId).length := by
  refine length_ofUser_le fun x hx => ⟨x, ?_, rfl⟩
  obtain ⟨hx, hid⟩ := mem_ofUser.1 hx
  exact mem_ofUser.2 ⟨h hx, hid⟩

theorem length_ofUser_put (s : SessionTable) (x : Session) (userId : String) :
    ((s.put x).ofUser userId).length ≤ (s.ofUser userId).length + 1 := by
  refine length_ofUser_le (l := s.ofUser userId ++ [x]) (fun y hy => ?_) |>.trans (by simp)
  obtain ⟨hy, hid⟩ := mem_ofUser.1 hy
  rcases mem_put.1 hy with ⟨hy, -⟩ | rfl
  · exact ⟨y, List.mem_append_left _ (mem_ofUser.2 ⟨hy, hid⟩), rfl⟩
  · exact ⟨y, by simp, rfl⟩

theorem length_ofUser_put_of_ne (s : SessionTable) (h : x.user.id ≠ userId) :
    ((s.put x).ofUser userId).length ≤ (s.ofUser userId).length := by
  refine length_ofUser_le fun y hy => ⟨y, ?_, rfl⟩
  obtain ⟨hy, hid⟩ := mem_ofUser.1 hy
  rcases mem_put.1 hy with ⟨hy, -⟩ | rfl
  · exact mem_ofUser.2 ⟨hy, hid⟩
  · exact absurd hid h

theorem length_ofUser_replace (hx : x ∈ s.all) (hu : y.user = x.user) (ht : y.token = x.token)
    (userId : String) : ((s.put y).ofUser userId).length ≤ (s.ofUser userId).length := by
  refine length_ofUser_le fun z hz => ?_
  obtain ⟨hz, hid⟩ := mem_ofUser.1 hz
  rcases mem_put.1 hz with ⟨hz, -⟩ | rfl
  · exact ⟨z, mem_ofUser.2 ⟨hz, hid⟩, rfl⟩
  · exact ⟨x, mem_ofUser.2 ⟨hx, hu ▸ hid⟩, ht.symm⟩

theorem length_delete_lt (hx : x ∈ s.all) : (s.delete x.token).all.length < s.all.length := by
  refine List.length_filter_lt_length_iff_exists.2 ⟨x, hx, by simp⟩

end SessionTable

section Evictions

variable {userId : String}

/-- What a scan has found out about the sessions it has met. -/
structure Oldest.Of (userId : String) (l : List Session) (o : Oldest) : Prop where
  count : o.count = (l.filter fun x => decide (x.user.id = userId)).length
  found : (o.count = 0 ∧ o.token = "") ∨ ∃ x ∈ l, x.user.id = userId ∧ x.token = o.token ∧
    x.token ≠ "" ∧ x.expiresAt = o.expiry ∧ ∀ y ∈ l, y.user.id = userId → o.expiry ≤ y.expiresAt

theorem Oldest.Of.scan {l : List Session} {o : Oldest} (h : o.Of userId l) {x : Session}
    (hx : x.token ≠ "") : (Oldest.scan userId o x).Of userId (l ++ [x]) := by
  have hcount : ∀ y ∈ l, o.count = 0 → y.user.id ≠ userId := by
    intro y hy h0 hid
    have hnil := List.eq_nil_of_length_eq_zero (h.count.symm.trans h0)
    exact absurd (List.filter_eq_nil_iff.1 hnil y hy) (by simpa using hid)
  unfold Oldest.scan
  split_ifs with hid hold
  · refine ⟨by simp [h.count, hid], h.found.imp_right ?_⟩
    rintro ⟨z, hz, hzid, htoken, hne, hexp, hmin⟩
    refine ⟨z, List.mem_append_left _ hz, hzid, htoken, hne, hexp, fun y hy hyid => ?_⟩
    rcases List.mem_append.1 hy with hy | hy
    · exact hmin y hy hyid
    · rw [List.mem_singleton.1 hy] at hyid
      exact absurd hyid hid
  · rw [not_not] at hid
    refine ⟨by simp [h.count, hid], .inr ⟨x, by simp, hid, rfl, hx, rfl, fun y hy hyid => ?_⟩⟩
    rcases List.mem_append.1 hy with hy | hy
    · rcases h.found with ⟨h0, -⟩ | ⟨z, -, -, htoken, hne, -, hmin⟩
      · exact absurd hyid (hcount y hy h0)
      · have hlt := hold.resolve_left (htoken ▸ hne)
        exact hlt.le.trans (hmin y hy hyid)
    · rw [List.mem_singleton.1 hy]
  · rw [not_not] at hid
    rw [not_or, not_lt] at hold
    refine ⟨by simp [h.count, hid], .inr ?_⟩
    obtain ⟨z, hz, hzid, htoken, hne, hexp, hmin⟩ := h.found.resolve_left fun h0 => hold.1 h0.2
    refine ⟨z, List.mem_append_left _ hz, hzid, htoken, hne, hexp, fun y hy hyid => ?_⟩
    rcases List.mem_append.1 hy with hy | hy
    · exact hmin y hy hyid
    · rw [List.mem_singleton.1 hy]
      exact hold.2

theorem oldest_of (userId : String) {l : List Session} (h : ∀ x ∈ l, x.token ≠ "") :
    (oldest userId l).Of userId l := by
  induction l using List.reverseRecOn with
  | nil => exact ⟨rfl, .inl ⟨rfl, rfl⟩⟩
  | append_singleton l x ih =>
    rw [oldest, List.foldl_append]
    exact (ih fun y hy => h y (List.mem_append_left _ hy)).scan (h x (by simp))

def Named (s : SessionTable) : Prop := ∀ x ∈ s.all, x.token ≠ ""

/-- What is left after the rounds: they delete only sessions of the user, none that expires after one
they leave, and as many as there are too many. -/
structure Evicted (maxUserSessions : ℤ) (userId : String) (s t : SessionTable) : Prop where
  subset : t.all ⊆ s.all
  deleted : ∀ x ∈ s.all, x ∉ t.all → x.user.id = userId ∧
    ∀ y ∈ t.all, y.user.id = userId → x.expiresAt ≤ y.expiresAt
  count : ((t.ofUser userId).length : ℤ) < maxUserSessions

theorem oldest_order (userId : String) {s : SessionTable} (hs : Named s) (it : Iteration) :
    (oldest userId (it.order s.all)).Of userId s.all := by
  have hperm := it.perm s.all
  obtain ⟨hcount, hfound⟩ := oldest_of userId (l := it.order s.all)
    fun x hx => hs x (hperm.mem_iff.1 hx)
  refine ⟨hcount.trans (hperm.filter _).length_eq, hfound.imp_right ?_⟩
  rintro ⟨x, hx, hid, htoken, hne, hexp, hmin⟩
  exact ⟨x, hperm.mem_iff.1 hx, hid, htoken, hne, hexp, fun y hy => hmin y (hperm.mem_iff.2 hy)⟩

theorem evict_evicted {maxUserSessions : ℤ} (hmax : 0 < maxUserSessions) (order : ℕ → Iteration) :
    ∀ {rounds : ℕ} {s : SessionTable}, Named s → s.all.length < rounds →
      Evicted maxUserSessions userId s (evict maxUserSessions userId order rounds s)
  | 0, s, _, h => absurd h (Nat.not_lt_zero _)
  | rounds + 1, s, hs, h => by
    obtain ⟨hcount, hfound⟩ := oldest_order userId hs (order rounds)
    rw [evict]
    split_ifs with hlt
    · refine ⟨List.Subset.refl _, fun x hx hnot => absurd hx hnot, ?_⟩
      rwa [hcount] at hlt
    · -- there is a session of the user, and the oldest is deleted
      obtain ⟨x, hx, hid, htoken, -, hexp, hmin⟩ := hfound.resolve_left fun h0 => by
        rw [h0.1] at hlt
        exact hlt hmax
      rw [← htoken]
      have hlen := SessionTable.length_delete_lt hx
      have hnamed : Named (s.delete x.token) := fun y hy => hs y (SessionTable.mem_delete.1 hy).1
      have ih := evict_evicted hmax order hnamed (Nat.lt_of_lt_of_le hlen (Nat.lt_succ_iff.1 h))
      refine ⟨fun y hy => (SessionTable.mem_delete.1 (ih.subset hy)).1, fun y hy hnot => ?_, ih.count⟩
      by_cases hyx : y.token = x.token
      · obtain rfl := SessionTable.eq_of_token hy hx hyx
        refine ⟨hid, fun z hz hzid => ?_⟩
        rw [hexp]
        exact hmin z (SessionTable.mem_delete.1 (ih.subset hz)).1 hzid
      · exact ih.deleted y (SessionTable.mem_delete.2 ⟨hy, hyx⟩) hnot

theorem evict_subset (maxUserSessions : ℤ) (order : ℕ → Iteration) :
    ∀ (rounds : ℕ) (s : SessionTable), (evict maxUserSessions userId order rounds s).all ⊆ s.all
  | 0, _ => List.Subset.refl _
  | rounds + 1, s => by
    rw [evict]
    split_ifs
    · exact List.Subset.refl _
    · exact fun x hx =>
        (SessionTable.mem_delete.1 (evict_subset maxUserSessions order rounds _ hx)).1

theorem enforceUserSessionLimit_subset (maxUserSessions : ℤ) (order : ℕ → Iteration)
    (s : SessionTable) : (enforceUserSessionLimit maxUserSessions userId order s).all ⊆ s.all := by
  unfold enforceUserSessionLimit
  split_ifs
  · exact List.Subset.refl _
  · exact evict_subset _ _ _ _

theorem enforceUserSessionLimit_evicted {maxUserSessions : ℤ} (hmax : 0 < maxUserSessions)
    (order : ℕ → Iteration) {s : SessionTable} (hs : Named s) :
    Evicted maxUserSessions userId s
      (enforceUserSessionLimit maxUserSessions userId order s) := by
  rw [enforceUserSessionLimit, if_neg (by omega)]
  exact evict_evicted hmax order hs (by omega)

end Evictions

section Histories

variable {sessionTTL : ℤ} {token : String} {user : User} {h : List Happening} {now : ℤ}

/-- Who has a token that was not evicted, revoked or left to expire, and its latest use. -/
def status (sessionTTL : ℤ) (token : String) : List Happening → Option (User × ℤ)
  | [] => none
  | .issued t user now :: h => if t = token then some (user, now) else status sessionTTL token h
  | .evicted t :: h => if t = token then none else status sessionTTL token h
  | .revoked userId :: h => (status sessionTTL token h).filter fun p => decide (p.1.id ≠ userId)
  | .presented t now :: h =>
    if t = token then
      (status sessionTTL token h).bind fun p =>
        if now < p.2 + sessionTTL then some (p.1, now) else none
    else status sessionTTL token h

def IssuedOnce (h : List Happening) : Prop :=
  h.Pairwise fun a b => ∀ token, a.issues token = true → b.issues token = false

theorem LiveAs.issued (hl : LiveAs sessionTTL h token user now) : ∃ a ∈ h, a.issues token = true := by
  obtain ⟨after, t, before, rfl, -⟩ := hl
  exact ⟨.issued token user t, by simp, by simp [Happening.issues]⟩

theorem liveAs_cons {a : Happening} (hne : a.presentedAt token = none) :
    LiveAs sessionTTL (a :: h) token user now ↔
      (∃ t, a = .issued token user t ∧ now < t + sessionTTL) ∨
      (a ≠ .evicted token ∧ a ≠ .revoked user.id ∧ LiveAs sessionTTL h token user now) := by
  constructor
  · rintro ⟨after, t, before, heq, hev, hrev, hchain⟩
    rcases List.cons_eq_append_iff.1 heq with ⟨rfl, heq⟩ | ⟨rest, rfl, rfl⟩
    · obtain ⟨rfl, rfl⟩ := List.cons.inj heq
      exact .inl ⟨t, rfl, by simpa using hchain⟩
    · rw [List.mem_cons, not_or] at hev hrev
      rw [List.filterMap_cons_none hne] at hchain
      exact .inr ⟨Ne.symm hev.1, Ne.symm hrev.1, rest, t, before, rfl, hev.2, hrev.2, hchain⟩
  · rintro (⟨t, rfl, hlt⟩ | ⟨hev, hrev, rest, t, before, rfl, hev', hrev', hchain⟩)
    · exact ⟨[], t, h, rfl, by simp, by simp, by simpa using hlt⟩
    · refine ⟨a :: rest, t, before, rfl, ?_, ?_, ?_⟩
      · simp [Ne.symm hev, hev']
      · simp [Ne.symm hrev, hrev']
      · rw [List.filterMap_cons_none hne]
        exact hchain

theorem liveAs_presented {t : ℤ} :
    LiveAs sessionTTL (.presented token t :: h) token user now ↔
      now < t + sessionTTL ∧ LiveAs sessionTTL h token user t := by
  have hp : Happening.presentedAt token (.presented token t) = some t := by
    simp [Happening.presentedAt]
  constructor
  · rintro ⟨after, t', before, heq, hev, hrev, hchain⟩
    rcases List.cons_eq_append_iff.1 heq with ⟨rfl, heq⟩ | ⟨rest, rfl, rfl⟩
    · simp at heq
    · rw [List.filterMap_cons_some hp, List.cons_append, List.isChain_cons_cons] at hchain
      rw [List.mem_cons, not_or] at hev hrev
      exact ⟨hchain.1, rest, t', before, rfl, hev.2, hrev.2, hchain.2⟩
  · rintro ⟨hlt, rest, t', before, rfl, hev, hrev, hchain⟩
    refine ⟨.presented token t :: rest, t', before, rfl, by simpa using hev, by simpa using hrev, ?_⟩
    rw [List.filterMap_cons_some hp, List.cons_append, List.isChain_cons_cons]
    exact ⟨hlt, hchain⟩

theorem liveAs_iff_status (hone : IssuedOnce h) : LiveAs sessionTTL h token user now ↔
    ∃ last, status sessionTTL token h = some (user, last) ∧ now < last + sessionTTL := by
  induction h generalizing now with
  | nil => simp [LiveAs, status]
  | cons a h ih =>
    obtain ⟨hfirst, htail⟩ := List.pairwise_cons.1 hone
    rcases a with ⟨t, u, at'⟩ | t | userId | ⟨t, at'⟩
    · rw [liveAs_cons rfl, status]
      split_ifs with ht
      · subst ht
        have hnot : ¬LiveAs sessionTTL h t user now := fun hl => by
          obtain ⟨b, hb, hissues⟩ := hl.issued
          rw [hfirst b hb t (by simp [Happening.issues])] at hissues
          simp at hissues
        simp only [hnot, and_false, or_false, Happening.issued.injEq, true_and, Option.some.injEq,
          Prod.mk.injEq]
      · simp [ht, ih htail]
    · rw [liveAs_cons rfl, status]
      split_ifs with ht
      · simp [ht]
      · simp [ht, ih htail]
    · rw [liveAs_cons rfl, status, ih htail]
      simp only [reduceCtorEq, false_and, exists_false, false_or, ne_eq, not_false_eq_true, true_and,
        Happening.revoked.injEq, Option.filter_eq_some_iff, decide_eq_true_eq]
      constructor
      · rintro ⟨hid, last, hs, hlt⟩
        exact ⟨last, ⟨hs, fun h => hid h.symm⟩, hlt⟩
      · rintro ⟨last, ⟨hs, hid⟩, hlt⟩
        exact ⟨fun h => hid h.symm, last, hs, hlt⟩
    · rw [status]
      split_ifs with ht
      · subst ht
        rw [liveAs_presented, ih htail]
        simp only [Option.bind_eq_some_iff, Prod.exists, Option.ite_none_right_eq_some,
          Option.some.injEq, Prod.mk.injEq]
        constructor
        · rintro ⟨hlt, last, hs, hlast⟩
          exact ⟨at', ⟨user, last, hs, hlast, rfl, rfl⟩, hlt⟩
        · rintro ⟨_, ⟨u, last, hs, hlast, rfl, rfl⟩, hlt⟩
          exact ⟨hlt, last, hs, hlast⟩
      · rw [liveAs_cons (by simp [Happening.presentedAt, ht]), ih htail]
        simp

theorem issued_of_status (hone : IssuedOnce h) {last : ℤ}
    (hs : status sessionTTL token h = some (user, last)) : ∃ b ∈ h, b.issues token = true :=
  LiveAs.issued ((liveAs_iff_status hone).2
    ⟨last, hs, (by omega : last + sessionTTL - 1 < last + sessionTTL)⟩)

end Histories

section Runs

variable {sessionTTL maxUserSessions : ℤ} {a : Authenticator}

/-- The table has what is live, and only what was not evicted or revoked. -/
structure Inv (sessionTTL maxUserSessions : ℤ) (a : Authenticator) : Prop where
  named : Named a.sessions
  bounded : ∀ userId, ((a.sessions.ofUser userId).length : ℤ) ≤ maxUserSessions
  once : IssuedOnce a.history
  sound : ∀ x ∈ a.sessions.all,
    status sessionTTL x.token a.history = some (x.user, x.expiresAt - sessionTTL)
  complete : ∀ token user last, status sessionTTL token a.history = some (user, last) →
    a.clock < last + sessionTTL → ⟨token, user, last + sessionTTL⟩ ∈ a.sessions.all

variable {h : List Happening} {token : String}

theorem status_evicted : ∀ {l : List Session},
    status sessionTTL token (l.map (fun x => .evicted x.token) ++ h) =
      if token ∈ l.map Session.token then none else status sessionTTL token h
  | [] => by simp
  | x :: l => by
    rw [List.map_cons, List.cons_append, status, status_evicted]
    by_cases hx : x.token = token
    · simp [hx]
    · simp [hx, Ne.symm hx]

theorem IssuedOnce.cons (hone : IssuedOnce h) {b : Happening}
    (hb : ∀ token, b.issues token = true → ∀ c ∈ h, c.issues token = false) :
    IssuedOnce (b :: h) :=
  List.pairwise_cons.2 ⟨fun c hc token ht => hb token ht c hc, hone⟩

theorem IssuedOnce.evicted (hone : IssuedOnce h) : ∀ l : List Session,
    IssuedOnce (l.map (fun x => .evicted x.token) ++ h)
  | [] => hone
  | x :: l => IssuedOnce.cons (hone.evicted l) (by simp [Happening.issues])

variable {s : SessionTable} {now : ℤ} {x : Session}

theorem mem_deleteExpiredSessions :
    x ∈ (deleteExpiredSessions s now).all ↔ x ∈ s.all ∧ now < x.expiresAt := by
  rw [deleteExpiredSessions, SessionTable.mem_keep, decide_eq_true_eq]

theorem Inv.kept (h : Inv sessionTTL maxUserSessions a) (hmax : 0 < maxUserSessions) (user : User)
    (now : ℤ) (order : ℕ → Iteration) :
    Evicted maxUserSessions user.id (deleteExpiredSessions a.sessions now)
      (a.kept maxUserSessions user now order) :=
  enforceUserSessionLimit_evicted hmax order
    fun x hx => h.named x (mem_deleteExpiredSessions.1 hx).1

variable {user : User}

theorem mem_evictions {order : ℕ → Iteration} :
    x ∈ a.evictions maxUserSessions user now order ↔
      x ∈ a.sessions.all ∧ now < x.expiresAt ∧ x ∉ (a.kept maxUserSessions user now order).all := by
  rw [Authenticator.evictions, List.mem_filter, mem_deleteExpiredSessions, decide_eq_true_eq,
    and_assoc]

theorem Inv.login (h : Inv sessionTTL maxUserSessions a) (hmax : 0 < maxUserSessions)
    (order : ℕ → Iteration) (hclock : a.clock ≤ now) (hne : token ≠ "")
    (hnew : ¬a.history.any (Happening.issues token)) :
    Inv sessionTTL maxUserSessions
      (a.login sessionTTL maxUserSessions user token now order) := by
  have hkept := h.kept hmax user now order
  -- a session that is kept is one the login found, and its token is not evicted
  have hold : ∀ x ∈ (a.kept maxUserSessions user now order).all, x ∈ a.sessions.all :=
    fun x hx => (mem_deleteExpiredSessions.1 (hkept.subset hx)).1
  have hstatus : ∀ t, t ≠ token →
      status sessionTTL t (a.login sessionTTL maxUserSessions user token now order).history =
        if t ∈ (a.evictions maxUserSessions user now order).map Session.token then none
        else status sessionTTL t a.history := by
    intro t ht
    rw [Authenticator.login, List.cons_append, status, if_neg (Ne.symm ht), status_evicted]
  have hself : status sessionTTL token
      (a.login sessionTTL maxUserSessions user token now order).history = some (user, now) := by
    rw [Authenticator.login, List.cons_append, status, if_pos rfl]
  refine ⟨fun x hx => ?_, fun userId => ?_, ?_, fun x hx => ?_, fun t u last ht hlast => ?_⟩
  · rcases SessionTable.mem_put.1 hx with ⟨hx, -⟩ | rfl
    · exact h.named x (hold x hx)
    · exact hne
  · by_cases hid : user.id = userId
    · subst hid
      have hput := (a.kept maxUserSessions user now order).length_ofUser_put
        ⟨token, user, now + sessionTTL⟩ user.id
      have hcount := hkept.count
      change (((a.kept maxUserSessions user now order).put
        ⟨token, user, now + sessionTTL⟩).ofUser user.id).length ≤ maxUserSessions
      omega
    · have hput := (a.kept maxUserSessions user now order).length_ofUser_put_of_ne
        (x := ⟨token, user, now + sessionTTL⟩) hid
      have hmono := SessionTable.length_ofUser_mono hold userId
      have hbound := h.bounded userId
      change (((a.kept maxUserSessions user now order).put
        ⟨token, user, now + sessionTTL⟩).ofUser userId).length ≤ maxUserSessions
      omega
  · refine (h.once.evicted _).cons fun t ht c hc => ?_
    obtain rfl : token = t := by simpa [Happening.issues] using ht
    rcases List.mem_append.1 hc with hc | hc
    · obtain ⟨x, -, rfl⟩ := List.mem_map.1 hc
      rfl
    · simpa using fun hissues => hnew (List.any_eq_true.2 ⟨c, hc, hissues⟩)
  · rcases SessionTable.mem_put.1 hx with ⟨hx, htoken⟩ | rfl
    · have hnot : x.token ∉ (a.evictions maxUserSessions user now order).map Session.token := by
        intro hmem
        obtain ⟨y, hy, hyx⟩ := List.mem_map.1 hmem
        obtain ⟨hy, -, hgone⟩ := mem_evictions.1 hy
        rw [SessionTable.eq_of_token hy (hold x hx) hyx] at hgone
        exact hgone hx
      rw [hstatus _ htoken, if_neg hnot]
      exact h.sound x (hold x hx)
    · rw [hself]
      simp
  · by_cases htoken : t = token
    · subst htoken
      obtain ⟨rfl, rfl⟩ := Prod.mk.inj (Option.some.inj (hself.symm.trans ht))
      exact SessionTable.mem_put.2 (.inr rfl)
    · rw [hstatus t htoken] at ht
      split_ifs at ht with hev
      have hlast' : now < last + sessionTTL := hlast
      have hmem := h.complete t u last ht (hclock.trans_lt hlast')
      refine SessionTable.mem_put.2 (.inl ⟨?_, htoken⟩)
      by_contra hgone
      exact hev (List.mem_map.2 ⟨_, mem_evictions.2 ⟨hmem, hlast', hgone⟩, rfl⟩)

theorem Inv.validateToken (h : Inv sessionTTL maxUserSessions a) (token : String)
    (hclock : a.clock ≤ now) : Inv sessionTTL maxUserSessions
      ⟨(Sessions.validateToken sessionTTL a.sessions token now).1, now,
        .presented token now :: a.history⟩ := by
  have hone : IssuedOnce (.presented token now :: a.history) :=
    h.once.cons (by simp [Happening.issues])
  have hother : ∀ t, t ≠ token → status sessionTTL t (.presented token now :: a.history) =
      status sessionTTL t a.history := fun t ht => by rw [status, if_neg (Ne.symm ht)]
  have hself : ∀ u last, status sessionTTL token (.presented token now :: a.history) =
      some (u, last) → last = now ∧ ∃ x ∈ a.sessions.all, x.token = token ∧ x.user = u ∧
        now < x.expiresAt := by
    intro u last hs
    rw [status, if_pos rfl] at hs
    obtain ⟨⟨v, l⟩, hv, hs⟩ := Option.bind_eq_some_iff.1 hs
    split_ifs at hs with hlt
    cases hs
    exact ⟨rfl, _, h.complete token v l hv (hclock.trans_lt hlt), rfl, rfl, hlt⟩
  -- a token that is not accepted leaves no trace in the table
  have hrefused : (∀ x ∈ a.sessions.all, x.token = token → ¬now < x.expiresAt) →
      Inv sessionTTL maxUserSessions
        ⟨a.sessions.delete token, now, .presented token now :: a.history⟩ := by
    intro hno
    refine ⟨fun x hx => h.named x (SessionTable.mem_delete.1 hx).1, fun userId => ?_, hone,
      fun x hx => ?_, fun t u last ht hlast => ?_⟩
    · have hmono := SessionTable.length_ofUser_mono (s := a.sessions.delete token)
        (fun x hx => (SessionTable.mem_delete.1 hx).1) userId
      have hbound := h.bounded userId
      simp only
      omega
    · obtain ⟨hx, htoken⟩ := SessionTable.mem_delete.1 hx
      rw [hother _ htoken]
      exact h.sound x hx
    · by_cases htoken : t = token
      · subst htoken
        obtain ⟨-, x, hx, hxt, -, hlt⟩ := hself u last ht
        exact absurd hlt (hno x hx hxt)
      · rw [hother t htoken] at ht
        have hmem := h.complete t u last ht (hclock.trans_lt hlast)
        exact SessionTable.mem_delete.2 ⟨hmem, htoken⟩
  unfold Sessions.validateToken
  split
  · rename_i hget
    refine hrefused fun x hx hxt => ?_
    rw [SessionTable.get_eq_some.2 ⟨hx, hxt⟩] at hget
    simp at hget
  · rename_i x hget
    obtain ⟨hx, rfl⟩ := SessionTable.get_eq_some.1 hget
    split_ifs with hlt
    · have hstatus : status sessionTTL x.token (.presented x.token now :: a.history) =
          some (x.user, now) := by
        rw [status, if_pos rfl, h.sound x hx]
        simp [hlt]
      refine ⟨fun y hy => ?_, fun userId => ?_, hone, fun y hy => ?_, fun t u last ht hlast => ?_⟩
      · rcases SessionTable.mem_put.1 hy with ⟨hy, -⟩ | rfl
        · exact h.named y hy
        · exact h.named x hx
      · have hput := SessionTable.length_ofUser_replace
          (y := { x with expiresAt := now + sessionTTL }) hx rfl rfl userId
        have hbound := h.bounded userId
        simp only
        omega
      · rcases SessionTable.mem_put.1 hy with ⟨hy, htoken⟩ | rfl
        · rw [hother _ htoken]
          exact h.sound y hy
        · simpa using hstatus
      · by_cases htoken : t = x.token
        · subst htoken
          obtain ⟨rfl, rfl⟩ := Prod.mk.inj (Option.some.inj (hstatus.symm.trans ht))
          exact SessionTable.mem_put.2 (.inr rfl)
        · rw [hother t htoken] at ht
          have hmem := h.complete t u last ht (hclock.trans_lt hlast)
          exact SessionTable.mem_put.2 (.inl ⟨hmem, htoken⟩)
    · refine hrefused fun y hy hyx => ?_
      rwa [SessionTable.eq_of_token hy hx hyx]

theorem mem_validateToken (hx : x ∈ (Sessions.validateToken sessionTTL s token now).1.all) :
    ∃ y ∈ s.all, x.token = y.token ∧ x.user = y.user := by
  unfold Sessions.validateToken at hx
  split at hx
  · exact ⟨x, (SessionTable.mem_delete.1 hx).1, rfl, rfl⟩
  · rename_i y hget
    obtain ⟨hy, -⟩ := SessionTable.get_eq_some.1 hget
    split_ifs at hx
    · rcases SessionTable.mem_put.1 hx with ⟨hx, -⟩ | rfl
      · exact ⟨x, hx, rfl, rfl⟩
      · exact ⟨y, hy, rfl, rfl⟩
    · exact ⟨x, (SessionTable.mem_delete.1 hx).1, rfl, rfl⟩

theorem mem_revokeUserSessions {userId : String} :
    x ∈ (Sessions.revokeUserSessions s userId).all ↔ x ∈ s.all ∧ x.user.id ≠ userId := by
  rw [Sessions.revokeUserSessions, SessionTable.mem_keep, decide_eq_true_eq]

theorem Inv.revokeUserSessions (h : Inv sessionTTL maxUserSessions a) (userId : String) :
    Inv sessionTTL maxUserSessions
      ⟨Sessions.revokeUserSessions a.sessions userId, a.clock, .revoked userId :: a.history⟩ where
  named x hx := h.named x (mem_revokeUserSessions.1 hx).1
  bounded u := by
    have hmono := SessionTable.length_ofUser_mono (s := Sessions.revokeUserSessions a.sessions userId)
      (fun x hx => (mem_revokeUserSessions.1 hx).1) u
    have hbound := h.bounded u
    simp only
    omega
  once := h.once.cons (by simp [Happening.issues])
  sound x hx := by
    obtain ⟨hx, hid⟩ := mem_revokeUserSessions.1 hx
    rw [status, h.sound x hx, Option.filter_some, if_pos (by simpa using hid)]
  complete token u last hs hlast := by
    rw [status, Option.filter_eq_some_iff, decide_eq_true_eq] at hs
    exact mem_revokeUserSessions.2 ⟨h.complete token u last hs.1 hlast, hs.2⟩

theorem Inv.step (h : Inv sessionTTL maxUserSessions a) (hmax : 0 < maxUserSessions)
    {a' : Authenticator} {c : Action}
    (hs : a.step sessionTTL maxUserSessions c = some a') : Inv sessionTTL maxUserSessions a' := by
  rcases c with ⟨user, token, now, order⟩ | ⟨token, now⟩ | userId <;>
    simp only [Authenticator.step] at hs
  · split_ifs at hs with hguard
    cases hs
    exact h.login hmax order hguard.1 hguard.2.1 hguard.2.2
  · split_ifs at hs with hclock
    cases hs
    exact h.validateToken token hclock
  · cases hs
    exact h.revokeUserSessions userId

theorem Inv.validateToken_iff (h : Inv sessionTTL maxUserSessions a) (hclock : a.clock ≤ now) :
    (Sessions.validateToken sessionTTL a.sessions token now).2 = some user ↔
      LiveAs sessionTTL a.history token user now := by
  rw [liveAs_iff_status h.once, Sessions.validateToken]
  constructor
  · intro hv
    split at hv
    · simp at hv
    · rename_i x hget
      obtain ⟨hx, rfl⟩ := SessionTable.get_eq_some.1 hget
      split_ifs at hv with hlt
      cases hv
      exact ⟨_, h.sound x hx, by simpa using hlt⟩
  · rintro ⟨last, hs, hlt⟩
    have hmem := h.complete token user last hs (hclock.trans_lt hlt)
    rw [SessionTable.get_eq_some.2 ⟨hmem, rfl⟩]
    simp [hlt]

/-- Users have no more sessions than allowed; a login evicts the oldest of its user's and purges what
has expired; a revocation removes the sessions of its user; and a token is accepted where it is
live. -/
theorem sessionTable_contract (hmax : 0 < maxUserSessions) {clock : ℤ} {cs : List Action}
    (hr : Transition.run (Authenticator.step sessionTTL maxUserSessions)
      (Authenticator.initial clock) cs = some a) :
    (∀ userId, ((a.sessions.ofUser userId).length : ℤ) ≤ maxUserSessions) ∧
    (∀ user token now order a',
      a.step sessionTTL maxUserSessions (.login user token now order) = some a' →
      (∀ x ∈ a.evictions maxUserSessions user now order, x.user.id = user.id ∧ now < x.expiresAt ∧
        ∀ y ∈ a'.sessions.all, y.user.id = user.id → y.token ≠ token →
          x.expiresAt ≤ y.expiresAt) ∧
      ∀ x ∈ a.sessions.all, x ∉ a'.sessions.all →
        x ∈ a.evictions maxUserSessions user now order ∨ x.expiresAt ≤ now) ∧
    (∀ userId a', a.step sessionTTL maxUserSessions (.revokeUserSessions userId) = some a' →
      ∀ x, x ∈ a'.sessions.all ↔ x ∈ a.sessions.all ∧ x.user.id ≠ userId) ∧
    ∀ token now, a.clock ≤ now → ∀ user,
      (validateToken sessionTTL a.sessions token now).2 = some user ↔
        LiveAs sessionTTL a.history token user now := by
  have h0 : Inv sessionTTL maxUserSessions (Authenticator.initial clock) :=
    ⟨by simp [Named, Authenticator.initial, SessionTable.empty],
      fun _ => by simpa [Authenticator.initial, SessionTable.ofUser, SessionTable.empty] using hmax.le,
      List.Pairwise.nil, by simp [Authenticator.initial, SessionTable.empty],
      by simp [Authenticator.initial, status]⟩
  have h := Transition.run_invariant (I := Inv sessionTTL maxUserSessions)
    (fun _ _ _ h hs => h.step hmax hs) h0 hr
  refine ⟨h.bounded, fun user token now order a' hs => ?_, fun userId a' hs x => ?_,
    fun token now hclock user => h.validateToken_iff hclock⟩
  · simp only [Authenticator.step] at hs
    split_ifs at hs with hguard
    cases hs
    have hkept := h.kept hmax user now order
    constructor
    · intro x hx
      obtain ⟨hx, hlt, hgone⟩ := mem_evictions.1 hx
      obtain ⟨hid, hmin⟩ := hkept.deleted x (mem_deleteExpiredSessions.2 ⟨hx, hlt⟩) hgone
      refine ⟨hid, hlt, fun y hy hyid hytoken => ?_⟩
      rcases SessionTable.mem_put.1 hy with ⟨hy, -⟩ | rfl
      · exact hmin y hy hyid
      · exact absurd rfl hytoken
    · intro x hx hnot
      by_cases hlt : now < x.expiresAt
      · refine .inl (mem_evictions.2 ⟨hx, hlt, fun hk => hnot ?_⟩)
        refine SessionTable.mem_put.2 (.inl ⟨hk, fun (htoken : x.token = token) => hguard.2.2 ?_⟩)
        obtain ⟨b, hb, hissues⟩ := issued_of_status h.once (h.sound x hx)
        exact List.any_eq_true.2 ⟨b, hb, htoken ▸ hissues⟩
      · exact .inr (not_lt.1 hlt)
  · cases hs
    exact mem_revokeUserSessions

end Runs

def inOrder (_ : ℕ) : Iteration := ⟨id, List.Perm.refl⟩

def anna : User := ⟨"u1", "Anna", "anna", "h0", [.admin]⟩

/-- Two sessions are allowed. The first is used before a third one is issued. -/
def threeLogins : List Action :=
  [.login anna "t1" 0 inOrder, .login anna "t2" 1 inOrder, .validateToken "t1" 2,
    .login anna "t3" 3 inOrder]

theorem sessionTable_contract_threeLogins : ∃ a,
    Transition.run (Authenticator.step 10 2) (Authenticator.initial 0) threeLogins = some a ∧
    a.sessions.all.map Session.token = ["t1", "t3"] ∧ (a.sessions.ofUser "u1").length ≤ 2 ∧
    ((validateToken 10 a.sessions "t1" 11).2 = some anna ↔ LiveAs 10 a.history "t1" anna 11) := by
  obtain ⟨a, ha, hp⟩ := Transition.exists_run (Authenticator.initial 0) threeLogins
    (fun a => decide (a.sessions.all.map Session.token = ["t1", "t3"] ∧ a.clock = 3))
    (by decide +kernel : (Transition.run (Authenticator.step 10 2) _ _).any _ = true)
  obtain ⟨htokens, hclock⟩ := of_decide_eq_true hp
  obtain ⟨hbound, -, -, hlive⟩ := sessionTable_contract (by decide) ha
  exact ⟨a, ha, htokens, by exact_mod_cast hbound "u1", hlive "t1" 11 (by omega) anna⟩

end Orisun.Admin.Sessions
