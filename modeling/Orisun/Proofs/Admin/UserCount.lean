import Mathlib.Data.List.Perm.Subperm
import Orisun.Admin.UserCount
import Orisun.Proofs.Admin.UserProjection

/-!
# When the count of users is right

The number and the checkpoint move in two statements.
-/

namespace Orisun.Admin.Users

open OptimisticLog

variable {log : Log} {e : Entry Position Event}

theorem creations_append (log more : Log) :
    creations (log ++ more) = creations log + creations more :=
  List.countP_append ..

theorem deletions_append (log more : Log) :
    deletions (log ++ more) = deletions log + deletions more :=
  List.countP_append ..

theorem creations_le (more : Log) (h : log <+: more) : creations log ≤ creations more :=
  h.sublist.countP_le

def usersOf (eventType : String) (log : Log) : List String :=
  log.filterMap fun e => if e.event.eventType = eventType then e.event.field "user_id" else none

theorem mem_usersOf {eventType userId : String} : userId ∈ usersOf eventType log ↔
    ∃ f ∈ log, f.event.eventType = eventType ∧ f.event.field "user_id" = some userId := by
  simp only [usersOf, List.mem_filterMap]
  constructor
  · rintro ⟨f, hf, h⟩
    split_ifs at h with ht
    exact ⟨f, hf, ht, h⟩
  · rintro ⟨f, hf, ht, h⟩
    exact ⟨f, hf, by rw [if_pos ht, h]⟩

theorem length_usersOf_le (eventType : String) : ∀ log : Log, (usersOf eventType log).length ≤
    log.countP fun e => decide (e.event.eventType = eventType)
  | [] => by simp [usersOf]
  | e :: log => by
    have ih := length_usersOf_le eventType log
    unfold usersOf at ih ⊢
    by_cases ht : e.event.eventType = eventType
    · rw [List.filterMap_cons, if_pos ht, List.countP_cons_of_pos (by simpa using ht)]
      split
      · exact ih.trans (Nat.le_add_right ..)
      · exact Nat.add_le_add_right ih 1
    · rw [List.filterMap_cons, if_neg ht, List.countP_cons_of_neg (by simpa using ht)]
      exact ih

theorem DeletionsFollow.of_isPrefix {before : Log} (h : DeletionsFollow log)
    (hp : before <+: log) : DeletionsFollow before := by
  obtain ⟨rest, rfl⟩ := hp
  intro pre e post hpre hdel
  exact h pre e (post ++ rest) (by simp [hpre]) hdel

theorem DeletionsFollow.users (h : DeletionsFollow log) :
    (usersOf eventTypeUserDeleted log).Nodup ∧
      usersOf eventTypeUserDeleted log ⊆ usersOf eventTypeUserCreated log ∧
      (usersOf eventTypeUserDeleted log).length = deletions log := by
  induction log using List.reverseRecOn with
  | nil => simp [usersOf, deletions]
  | append_singleton log e ih =>
    obtain ⟨hnodup, hsub, hlen⟩ := ih (h.of_isPrefix (List.prefix_append ..))
    have hcreated : ∀ u ∈ usersOf eventTypeUserCreated log,
        u ∈ usersOf eventTypeUserCreated (log ++ [e]) := fun u hu => by
      rw [usersOf, List.filterMap_append]
      exact List.mem_append_left _ hu
    by_cases hdel : e.event.eventType = eventTypeUserDeleted
    · obtain ⟨u, hu, ⟨f, hf, hft, hfu⟩, hnew⟩ := h log e [] rfl hdel
      have happ : usersOf eventTypeUserDeleted (log ++ [e]) =
          usersOf eventTypeUserDeleted log ++ [u] := by
        simp [usersOf, hdel, hu]
      have hnot : u ∉ usersOf eventTypeUserDeleted log := by
        rw [mem_usersOf]
        rintro ⟨g, hg, hgt, hgu⟩
        exact hnew g hg hgt hgu
      rw [happ]
      refine ⟨?_, ?_, ?_⟩
      · refine List.nodup_append.2 ⟨hnodup, List.nodup_singleton u, fun a ha b hb he => hnot ?_⟩
        rw [List.mem_singleton.1 hb] at he
        exact he ▸ ha
      · intro a ha
        rcases List.mem_append.1 ha with ha | ha
        · exact hcreated a (hsub ha)
        · obtain rfl := List.mem_singleton.1 ha
          exact hcreated a (mem_usersOf.2 ⟨f, hf, hft, hfu⟩)
      · simp [hlen, deletions, hdel]
    · have happ : usersOf eventTypeUserDeleted (log ++ [e]) =
          usersOf eventTypeUserDeleted log := by
        simp [usersOf, hdel]
      rw [happ]
      exact ⟨hnodup, fun a ha => hcreated a (hsub ha),
        by simp [hlen, deletions, hdel]⟩

theorem DeletionsFollow.deletions_lt {before after : Log} (h : DeletionsFollow log)
    (hlog : log = before ++ e :: after) (hdel : e.event.eventType = eventTypeUserDeleted) :
    deletions before < creations before := by
  obtain ⟨hnodup, hsub, hlen⟩ := (h.of_isPrefix ⟨e :: after, hlog.symm⟩).users
  obtain ⟨u, -, ⟨f, hf, hft, hfu⟩, hnew⟩ := h before e after hlog hdel
  have hnot : u ∉ usersOf eventTypeUserDeleted before := by
    rw [mem_usersOf]
    rintro ⟨g, hg, hgt, hgu⟩
    exact hnew g hg hgt hgu
  have hcons : (u :: usersOf eventTypeUserDeleted before).Nodup := List.nodup_cons.2 ⟨hnot, hnodup⟩
  have hle := (hcons.subperm (List.cons_subset.2 ⟨mem_usersOf.2 ⟨f, hf, hft, hfu⟩, hsub⟩)).length_le
  have hcreated := length_usersOf_le eventTypeUserCreated before
  rw [List.length_cons, hlen] at hle
  exact lt_of_lt_of_le hle hcreated

/-- The number is right for the events up to a position. -/
def AccurateAt (log : Log) (count : UInt32) (p : Position) : Prop :=
  (count.toNat : ℤ) = creations (upTo log p) - deletions (upTo log p)

section Log

variable (hlog : Increasing notExistsPosition log) (hfollow : DeletionsFollow log)
  (hsmall : creations log < 2 ^ 32)

include hlog

theorem accurateAt_of_not_counted {p : Position} {count : UInt32}
    (hn : Projector.next log p = some e) (hnot : e.event.isCounted = false) :
    AccurateAt log count e.position ↔ AccurateAt log count p := by
  have hnot := of_decide_eq_false hnot
  rw [not_or] at hnot
  rw [AccurateAt, AccurateAt, upTo_next hlog.pairwise hn, creations_append, deletions_append]
  simp [creations, deletions, hnot.1, hnot.2]

include hfollow hsmall

theorem accurateAt_newCount {p : Position} {count count' : UInt32}
    (hn : Projector.next log p = some e) (h : AccurateAt log count p)
    (hnew : newCount e.event count = some count') :
    AccurateAt log count' e.position ∧
      (e.event.eventType = eventTypeUserDeleted → count'.toNat + 1 = count.toNat) := by
  have hup := upTo_next hlog.pairwise hn
  have hprefix := upTo_isPrefix hlog.pairwise e.position
  have hne : eventTypeUserCreated ≠ eventTypeUserDeleted := by decide
  rw [AccurateAt, hup, creations_append, deletions_append]
  unfold newCount at hnew
  split_ifs at hnew with hc hd
  · cases hnew
    have hle := creations_le log hprefix
    rw [hup, creations_append] at hle
    have hone : creations [e] = 1 ∧ deletions [e] = 0 := by
      simp [creations, deletions, hc, hne]
    have hadd : (count + 1).toNat = count.toNat + 1 := by
      rw [UInt32.toNat_add]
      have : (1 : UInt32).toNat = 1 := rfl
      unfold AccurateAt at h
      omega
    unfold AccurateAt at h
    refine ⟨?_, fun hdel => absurd (hc.symm.trans hdel) hne⟩
    rw [hadd, hone.1, hone.2]
    push_cast
    omega
  · cases hnew
    obtain ⟨after, hafter⟩ := hprefix
    have hsplit : log = upTo log p ++ e :: after := by
      rw [hup, List.append_assoc, List.singleton_append] at hafter
      exact hafter.symm
    have hlt := hfollow.deletions_lt hsplit hd
    have hone : creations [e] = 0 ∧ deletions [e] = 1 := by
      simp [creations, deletions, hd, hne.symm]
    unfold AccurateAt at h
    have hle : (1 : UInt32) ≤ count := by
      rw [UInt32.le_iff_toNat_le]
      have : (1 : UInt32).toNat = 1 := rfl
      omega
    have hsub : (count - 1).toNat = count.toNat - 1 := UInt32.toNat_sub_of_le _ _ hle
    rw [hsub, hone.1, hone.2]
    constructor
    · push_cast
      omega
    · intro _
      omega

end Log

namespace UserCount

variable {s s' : UserCount}

/-- The event is the next one, or one that is not counted and has its position stored. -/
def Current (log : Log) (s : UserCount) (e : Entry Position Event) : Prop :=
  Projector.next log s.checkpoint = some e ∨
    s.checkpoint = e.position ∧ e.event.isCounted = false

def Inv (log : Log) (s : UserCount) : Prop :=
  match s.process with
  | none => AccurateAt log s.count s.checkpoint
  | some (.waiting cursor) => cursor = s.checkpoint ∧ AccurateAt log s.count s.checkpoint
  | some (.projecting e) => Current log s e ∧ AccurateAt log s.count s.checkpoint
  | some (.saving e count) =>
    Projector.next log s.checkpoint = some e ∧ AccurateAt log s.count s.checkpoint ∧
      newCount e.event s.count = some count
  | some (.publishing e) =>
    Projector.next log s.checkpoint = some e ∧ e.event.isCounted = true ∧
      AccurateAt log s.count e.position
  | some (.storing e) => Current log s e ∧ AccurateAt log s.count e.position

theorem isCounted_of_newCount {count count' : UInt32} {event : Event}
    (h : newCount event count = some count') : event.isCounted = true := by
  unfold newCount at h
  unfold Event.isCounted
  split_ifs at h with hc hd
  · simp [hc]
  · simp [hd]

theorem not_counted_of_newCount {count : UInt32} {event : Event}
    (h : newCount event count = none) : event.isCounted = false := by
  unfold newCount at h
  split_ifs at h with hc hd
  simp [Event.isCounted, hc, hd]

section Steps

variable (hlog : Increasing notExistsPosition log) (hfollow : DeletionsFollow log)
  (hsmall : creations log < 2 ^ 32)

include hlog

theorem Current.accurate_iff (h : Current log s e) (hnot : e.event.isCounted = false) :
    AccurateAt log s.count e.position ↔ AccurateAt log s.count s.checkpoint := by
  rcases h with hn | ⟨hpos, -⟩
  · exact accurateAt_of_not_counted hlog hn hnot
  · rw [hpos]

include hfollow hsmall

theorem Inv.step (h : Inv log s) {a : Action} (ha : Uninterrupted s a)
    (hs : s.step log a = some s') : Inv log s' := by
  rcases s with ⟨count, checkpoint, process⟩
  cases a with
  | start =>
    rcases process with _ | pr <;> simp only [UserCount.step, reduceCtorEq] at hs
    cases hs
    exact ⟨rfl, h⟩
  | stop =>
    cases hs
    rcases process with _ | ⟨cursor⟩ | ⟨e⟩ | ⟨e, n⟩ | ⟨e⟩ | ⟨e⟩
    · exact h
    · exact h.2
    · exact h.2
    · exact h.2.1
    · exact absurd rfl (ha e).1
    · exact (Current.accurate_iff hlog h.1 ((ha e).2 rfl)).1 h.2
  | deliver =>
    rcases process with _ | ⟨cursor⟩ | ⟨e⟩ | ⟨e, n⟩ | ⟨e⟩ | ⟨e⟩ <;>
      simp only [UserCount.step, reduceCtorEq] at hs
    obtain ⟨e, hn, rfl⟩ := Option.map_eq_some_iff.1 hs
    obtain ⟨rfl, hacc⟩ := h
    exact ⟨.inl hn, hacc⟩
  | read fails =>
    rcases process with _ | ⟨cursor⟩ | ⟨e⟩ | ⟨e, n⟩ | ⟨e⟩ | ⟨e⟩ <;>
      simp only [UserCount.step, reduceCtorEq] at hs
    obtain ⟨hcur, hacc⟩ := h
    split at hs
    · rename_i hnone
      cases hs
      exact ⟨hcur, (Current.accurate_iff hlog hcur (not_counted_of_newCount hnone)).2 hacc⟩
    · rename_i n hnew
      split_ifs at hs
      · cases hs
        exact ⟨hcur, hacc⟩
      · cases hs
        rcases hcur with hn | ⟨-, hnot⟩
        · exact ⟨hn, hacc, hnew⟩
        · simp [isCounted_of_newCount hnew] at hnot
  | save fault =>
    rcases process with _ | ⟨cursor⟩ | ⟨e⟩ | ⟨e, n⟩ | ⟨e⟩ | ⟨e⟩ <;>
      simp only [UserCount.step, reduceCtorEq] at hs
    obtain ⟨hn, hacc, hnew⟩ := h
    have hnext := (accurateAt_newCount hlog hfollow hsmall hn hacc hnew).1
    rcases fault with _ | _ | _
    · cases hs
      exact ⟨hn, isCounted_of_newCount hnew, hnext⟩
    · exact absurd rfl ha
    · cases hs
      exact ⟨hn, isCounted_of_newCount hnew, hnext⟩
  | publish fails =>
    rcases process with _ | ⟨cursor⟩ | ⟨e⟩ | ⟨e, n⟩ | ⟨e⟩ | ⟨e⟩ <;>
      simp only [UserCount.step, reduceCtorEq] at hs
    obtain rfl : fails = false := ha
    cases hs
    exact ⟨.inl h.1, h.2.2⟩
  | store fault =>
    rcases process with _ | ⟨cursor⟩ | ⟨e⟩ | ⟨e, n⟩ | ⟨e⟩ | ⟨e⟩ <;>
      simp only [UserCount.step, reduceCtorEq] at hs
    obtain ⟨hcur, hacc⟩ := h
    rcases hcounted : e.event.isCounted with _ | _
    · rcases fault with _ | _ | _ <;> cases hs
      · exact ⟨rfl, hacc⟩
      · exact ⟨hcur, (Current.accurate_iff hlog hcur hcounted).1 hacc⟩
      · exact ⟨.inr ⟨rfl, hcounted⟩, hacc⟩
    · obtain rfl : fault = .none := ha e rfl hcounted
      cases hs
      exact ⟨rfl, hacc⟩

theorem Inv.noWrap (h : Inv log s) : s.NoWrap := by
  intro e count hp hdel
  simp only [Inv, hp] at h
  exact (accurateAt_newCount hlog hfollow hsmall h.1 h.2.1 h.2.2).2 hdel

end Steps

theorem Inv.accurate (h : Inv log s) (hrest : s.atRest = true) : s.Accurate log := by
  rcases s with ⟨count, checkpoint, process⟩
  rcases process with _ | ⟨cursor⟩ | ⟨e⟩ | ⟨e, n⟩ | ⟨e⟩ | ⟨e⟩ <;>
    simp only [atRest, Bool.false_eq_true] at hrest
  · exact h
  · exact h.2

theorem inv_initial (hlog : Increasing notExistsPosition log) : Inv log initial := by
  have hnil : upTo log notExistsPosition = [] := by
    rw [upTo, List.filter_eq_nil_iff]
    intro e he
    simpa using hlog.above e he
  simp [Inv, initial, AccurateAt, hnil, creations, deletions]

/-- Where every save takes effect and nothing comes between it and the checkpoint, the number is
right whenever no event is in progress, and it never wraps. -/
theorem userCount_accurate (log : Log) (hlog : Increasing notExistsPosition log)
    (hfollow : DeletionsFollow log) (hsmall : creations log < 2 ^ 32) (as : List Action)
    (s : UserCount) (hun : Transition.Along (UserCount.step log) Uninterrupted initial as)
    (hrun : Transition.run (UserCount.step log) initial as = some s) :
    (s.atRest = true → s.Accurate log) ∧ s.NoWrap := by
  have h : Inv log s := Transition.run_invariant_along
    (fun _ _ _ h ha hs => h.step hlog hfollow hsmall ha hs) (inv_initial hlog) hun hrun
  exact ⟨h.accurate, h.noWrap hlog hfollow hsmall⟩

def annaDeleted : Log := annaCreated ++ [⟨⟨1, 1⟩, .userDeleted "u1"⟩]

theorem annaDeleted_follow : DeletionsFollow annaDeleted := by
  intro before e after h hdel
  rcases before with _ | ⟨a, _ | ⟨b, before⟩⟩
  · simp only [annaDeleted, annaCreated, List.cons_append, List.nil_append, List.cons.injEq] at h
    obtain ⟨rfl, -⟩ := h
    exact absurd hdel (by decide)
  · simp only [annaDeleted, annaCreated, List.cons_append, List.nil_append, List.cons.injEq] at h
    obtain ⟨rfl, rfl, -⟩ := h
    exact ⟨"u1", rfl, ⟨_, List.mem_singleton_self _, rfl, rfl⟩, by decide⟩
  · simp [annaDeleted, annaCreated] at h

/-- Reads fail, a save is not acknowledged, and the projector is restarted between two events. -/
def readsFail : List Action :=
  [.start, .deliver, .read true, .read false, .save .unacknowledged, .publish false, .store .none,
    .stop, .start, .deliver, .read true, .stop, .start, .deliver, .read false, .save .none,
    .publish false, .store .none]

def uninterrupted (s : UserCount) : Action → Bool
  | .save fault => decide (fault ≠ .lost)
  | .publish fails => !fails
  | .store fault =>
    match s.process with
    | some (.storing e) => !e.event.isCounted || decide (fault = .none)
    | _ => true
  | .stop =>
    match s.process with
    | some (.publishing _) => false
    | some (.storing e) => !e.event.isCounted
    | _ => true
  | _ => true

theorem uninterrupted_of_check {a : Action} (h : uninterrupted s a = true) : Uninterrupted s a := by
  cases a with
  | save fault => exact of_decide_eq_true (p := fault ≠ .lost) h
  | publish fails => simpa [uninterrupted, Uninterrupted] using h
  | store fault =>
    intro e hp hcounted
    simpa [uninterrupted, hp, hcounted] using h
  | stop =>
    intro e
    constructor
    · intro hp
      simp [uninterrupted, hp] at h
    · intro hp
      simpa [uninterrupted, hp] using h
  | _ => trivial

theorem userCount_accurate_readsFail : ∃ s,
    Transition.run (UserCount.step annaDeleted) initial readsFail = some s ∧
    s.checkpoint = ⟨1, 1⟩ ∧ s.count = 0 ∧ s.Accurate annaDeleted ∧ s.NoWrap := by
  obtain ⟨s, hs, hp⟩ := Transition.exists_run initial readsFail
    (fun s => decide (s.atRest = true ∧ s.checkpoint = ⟨1, 1⟩ ∧ s.count = 0))
    (by decide +kernel : (Transition.run (UserCount.step annaDeleted) _ _).any _ = true)
  obtain ⟨hrest, hpos, hcount⟩ := of_decide_eq_true hp
  have h := userCount_accurate annaDeleted ⟨by decide +kernel, by decide +kernel⟩
    annaDeleted_follow (by decide +kernel) readsFail s
    (Transition.along_of_checkAlong (p := uninterrupted) (fun _ _ => uninterrupted_of_check)
      (by decide +kernel)) hs
  exact ⟨s, hs, hpos, hcount, h.1 hrest, h.2⟩

def checkpointFails : List Action :=
  [.start, .deliver, .read false, .save .none, .publish false, .store .lost,
    .read false, .save .none, .publish false, .store .none]

def saveFails : List Action :=
  [.start, .deliver, .read false, .save .lost, .publish false, .store .none, .deliver, .read false]

/-- After a checkpoint that fails a user is counted twice. After a save that fails the number wraps
below zero. -/
theorem userCount_inaccurate :
    (∃ s, Transition.run (UserCount.step annaCreated) initial checkpointFails = some s ∧
      s.atRest = true ∧ s.checkpoint = ⟨0, 0⟩ ∧ s.count = 2 ∧ ¬s.Accurate annaCreated) ∧
    ∃ s e, Transition.run (UserCount.step annaDeleted) initial saveFails = some s ∧
      s.count = 0 ∧ s.process = some (.saving e 4294967295) ∧ ¬s.NoWrap := by
  constructor
  · obtain ⟨s, hs, hp⟩ := Transition.exists_run initial checkpointFails
      (fun s => decide (s.atRest = true ∧ s.checkpoint = ⟨0, 0⟩ ∧ s.count = 2))
      (by decide +kernel : (Transition.run (UserCount.step annaCreated) _ _).any _ = true)
    obtain ⟨hrest, hpos, hcount⟩ := of_decide_eq_true hp
    refine ⟨s, hs, hrest, hpos, hcount, ?_⟩
    rw [Accurate, hpos, hcount]
    decide +kernel
  · obtain ⟨s, hs, hp⟩ := Transition.exists_run initial saveFails
      (fun s => decide (s.count = 0 ∧
        s.process = some (.saving ⟨⟨1, 1⟩, .userDeleted "u1"⟩ 4294967295)))
      (by decide +kernel : (Transition.run (UserCount.step annaDeleted) _ _).any _ = true)
    obtain ⟨hcount, hproc⟩ := of_decide_eq_true hp
    refine ⟨s, _, hs, hcount, hproc, fun h => ?_⟩
    have := h _ _ hproc rfl
    rw [hcount] at this
    exact absurd this (by decide)

end UserCount

end Orisun.Admin.Users
