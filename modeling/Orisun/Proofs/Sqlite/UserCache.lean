import Orisun.Proofs.Admin.UserProjection
import Orisun.Sqlite.UserCache

/-!
# Freshness of the cache of users

Every change empties the cache, but a lookup that has read the table before fills it after.
-/

namespace Orisun.Sqlite.UserCache

open Orisun.Admin.Users

namespace SqliteAdminDB

variable {s s' : SqliteAdminDB}

/-- The last version at which a change may have returned. -/
def lastSettled (s : SqliteAdminDB) : ℕ := if s.writer.isSome then s.version - 1 else s.version

theorem lastSettled_le (s : SqliteAdminDB) : s.lastSettled ≤ s.version := by
  unfold lastSettled
  split_ifs
  · exact Nat.sub_le _ _
  · exact le_rfl

theorem versions_version (s : SqliteAdminDB) : s.versions[s.version]? = some s.users := by
  rw [versions, version, List.getElem?_append_right le_rfl, Nat.sub_self]
  rfl

/-- What a lookup has found is not older than it may be. -/
def LookupFresh (s : SqliteAdminDB) : Lookup → Prop
  | .selecting _ since => ∀ id, since id ≤ s.version
  | .filling _ row since | .returned (some row) since => s.HadSince row since
  | .returned none _ => True

structure Inv (s : SqliteAdminDB) : Prop where
  changed : ∀ id, s.changed id ≤ s.lastSettled
  written : s.writer.isSome → 0 < s.version
  cached : ∀ username row, s.userCache username = some row → s.Tracked row
  stored : ∀ user, s.writer = some (.upserted user) → user ∈ s.users
  lookups : ∀ l ∈ s.lookups, s.LookupFresh l

theorem Tracked.hadSince {row : User} {since : String → ℕ} (h : s.Tracked row)
    (hv : ∀ id, since id ≤ s.lastSettled) : s.HadSince row since := by
  rcases h with hrow | ⟨hw, users, hlast, hrow⟩
  · exact ⟨s.version, s.users, (hv _).trans s.lastSettled_le, s.versions_version, hrow⟩
  · refine ⟨s.version - 1, users, (hv _).trans ?_, ?_, hrow⟩
    · rw [lastSettled, if_pos hw]
    · have hpos : 0 < s.past.length := by
        rcases hp : s.past with _ | ⟨_, _⟩ <;> simp [hp] at hlast ⊢
      rw [versions, version, List.getElem?_append_left (by omega), ← List.getLast?_eq_getElem?]
      exact hlast

theorem HadSince.grow {row : User} {since : String → ℕ} (h : s.HadSince row since)
    (hp : s.versions <+: s'.versions) : s'.HadSince row since := by
  obtain ⟨k, users, hk, hget, hrow⟩ := h
  obtain ⟨more, hmore⟩ := hp
  refine ⟨k, users, hk, ?_, hrow⟩
  rw [← hmore, List.getElem?_append_left (List.getElem?_eq_some_iff.1 hget).1]
  exact hget

theorem LookupFresh.grow {l : Lookup} (h : s.LookupFresh l) (hp : s.versions <+: s'.versions) :
    s'.LookupFresh l := by
  rcases l with ⟨username, since⟩ | ⟨username, row, since⟩ | ⟨_ | row, since⟩
  · intro id
    have hlen := hp.length_le
    simp only [versions, List.length_append, List.length_singleton] at hlen
    exact (h id).trans (by simpa [version] using hlen)
  · exact HadSince.grow h hp
  · trivial
  · exact HadSince.grow h hp

theorem Inv.settled (h : s.Inv) (hw : s.writer = none) (id : String) : (s.settled id).Inv where
  changed id' := by
    have hlast : (s.settled id).lastSettled = s.version := by
      simp [lastSettled, SqliteAdminDB.settled, hw, version]
    rw [hlast]
    simp only [SqliteAdminDB.settled, Function.update_apply]
    split_ifs
    · exact le_rfl
    · exact (h.changed id').trans s.lastSettled_le
  written := h.written
  cached := h.cached
  stored := h.stored
  lookups := h.lookups

theorem Inv.write (h : s.Inv) (hw : s.writer = none) {users : Table} {w : Write}
    (hstored : ∀ user, w = .upserted user → user ∈ users) : (s.write users w).Inv where
  changed id := by
    simpa [lastSettled, SqliteAdminDB.write, version, hw] using h.changed id
  written _ := by simp [SqliteAdminDB.write, version]
  cached username row hc := by
    -- what was cached is in the version before
    rcases h.cached username row hc with hrow | ⟨hsome, -⟩
    · exact .inr ⟨rfl, s.users, by simp [SqliteAdminDB.write], hrow⟩
    · simp [hw] at hsome
  stored user hu := hstored user (Option.some.inj hu)
  lookups l hl := (h.lookups l hl).grow (by simp [versions, SqliteAdminDB.write])

theorem Inv.resetCache (h : s.Inv) {w : Write} (hw : s.writer = some w) :
    Inv { s.settled w.id with userCache := Write.cache w, writer := none } where
  changed id := by
    change Function.update s.changed w.id s.version id ≤ s.version
    rw [Function.update_apply]
    split_ifs
    · exact le_rfl
    · exact (h.changed id).trans s.lastSettled_le
  written := by simp
  cached username row hc := by
    rcases w with user | id
    · simp only [Write.cache, Function.update_apply] at hc
      split_ifs at hc
      cases hc
      exact .inl (h.stored _ hw)
    · simp [Write.cache] at hc
  stored := by simp
  lookups l hl := (h.lookups l hl).grow List.prefix_rfl

theorem Inv.lookup (h : s.Inv) {lookups : List Lookup}
    (hl : ∀ l ∈ lookups, l ∈ s.lookups ∨ s.LookupFresh l) : Inv { s with lookups := lookups } where
  changed := h.changed
  written := h.written
  cached := h.cached
  stored := h.stored
  lookups l hmem := by
    have hfresh : s.LookupFresh l := (hl l hmem).elim (h.lookups l) id
    exact hfresh.grow List.prefix_rfl

theorem Inv.step (h : s.Inv) {a : Action} (hf : s.FillsTracked a) (hs : s.step a = some s') :
    s'.Inv := by
  rcases a with user | id | _ | username | i | i <;> simp only [SqliteAdminDB.step] at hs
  · rcases hw : s.writer with _ | w <;> rw [hw] at hs
    · rcases hu : s.users.upsert user with _ | users <;> rw [hu] at hs <;>
        cases hs
      · exact h.settled hw user.id
      · refine h.write hw fun u hu' => ?_
        obtain rfl := Write.upserted.inj hu'
        exact (Table.mem_upsert hu).2 (.inl rfl)
    · simp at hs
  · rcases hw : s.writer with _ | w <;> rw [hw] at hs
    · cases hs
      exact h.write hw (by simp)
    · simp at hs
  · obtain ⟨w, hw, rfl⟩ := Option.map_eq_some_iff.1 hs
    exact h.resetCache hw
  · cases hs
    refine h.lookup fun l hl => ?_
    rcases List.mem_append.1 hl with hl | hl
    · exact .inl hl
    · right
      rw [List.mem_singleton.1 hl]
      rcases hc : s.userCache username with _ | user
      · intro id
        exact (h.changed id).trans s.lastSettled_le
      · exact (h.cached username user hc).hadSince h.changed
  · split at hs
    · rename_i username since hi
      cases hs
      refine h.lookup fun l hl => ?_
      rcases List.mem_or_eq_of_mem_set hl with hl | rfl
      · exact .inl hl
      · right
        rcases hg : s.users.getByUsername username with _ | row
        · trivial
        · exact ⟨s.version, s.users, h.lookups _ (List.mem_of_getElem? hi) _, s.versions_version,
            List.mem_of_find?_eq_some hg⟩
    · simp at hs
  · split at hs
    · rename_i username row since hi
      cases hs
      have hl : Inv { s with lookups := s.lookups.set i (.returned (some row) since) } := by
        refine h.lookup fun l hl => ?_
        rcases List.mem_or_eq_of_mem_set hl with hl | rfl
        · exact .inl hl
        · have hfresh := h.lookups _ (List.mem_of_getElem? hi)
          exact .inr hfresh
      refine ⟨hl.changed, hl.written, fun k r hk => ?_, hl.stored, hl.lookups⟩
      simp only [Function.update_apply] at hk
      split_ifs at hk
      · cases hk
        exact hf i rfl username row since hi
      · exact h.cached k r hk
    · simp at hs

theorem initial_inv (users : Table) : (initial users).Inv :=
  ⟨by simp [initial], by simp [initial], by simp [initial], by simp [initial], by simp [initial]⟩

end SqliteAdminDB

/-- Where the cache is never filled with a row that was changed since it was read, a lookup returns a
row that the table had since the last change of the user that had returned when it started. -/
theorem lookups_fresh {users : Table} {as : List SqliteAdminDB.Action} {s : SqliteAdminDB}
    (hr : Transition.run SqliteAdminDB.step (SqliteAdminDB.initial users) as = some s)
    (hf : Transition.Along SqliteAdminDB.step SqliteAdminDB.FillsTracked
      (SqliteAdminDB.initial users) as) {row : User} {since : String → ℕ}
    (hl : .returned (some row) since ∈ s.lookups) : s.HadSince row since :=
  (Transition.run_invariant_along (I := SqliteAdminDB.Inv) (fun _ _ _ h hf hs => h.step hf hs)
    (SqliteAdminDB.initial_inv users) hf hr).lookups _ hl

/-- The row a lookup returned, and the version it may date from. -/
def Lookup.answer (id : String) : Lookup → Option (User × ℕ)
  | .returned (some row) since => some (row, since id)
  | _ => none

def Lookup.pending : Lookup → Option User
  | .filling _ row _ => some row
  | _ => none

theorem Lookup.answer_eq_some {id : String} {l : Lookup} {row : User} {n : ℕ}
    (h : l.answer id = some (row, n)) : ∃ since, l = .returned (some row) since ∧ since id = n := by
  rcases l with _ | _ | ⟨_ | r, since⟩ <;> simp only [Lookup.answer, reduceCtorEq] at h
  obtain ⟨rfl, hn⟩ := Prod.mk.inj (Option.some.inj h)
  exact ⟨since, rfl, hn⟩

def anna : User := ⟨"u1", "Anna", "anna", "h0", [.admin]⟩

/-- The row is cached, its password is changed while a lookup runs, and the new row is found. -/
def changedWhileRead : List SqliteAdminDB.Action :=
  [.getUserByUsername "anna", .select 0, .fill 0, .upsertUser { anna with hashedPassword := "h1" },
    .getUserByUsername "anna", .resetCache, .getUserByUsername "anna"]

theorem lookups_fresh_changedWhileRead : ∃ s,
    Transition.run SqliteAdminDB.step (SqliteAdminDB.initial [anna]) changedWhileRead = some s ∧
    ∃ since, s.lookups[2]? = some (.returned (some { anna with hashedPassword := "h1" }) since) ∧
      since "u1" = 1 ∧ s.HadSince { anna with hashedPassword := "h1" } since := by
  obtain ⟨s, hs, hp⟩ := Transition.exists_run (SqliteAdminDB.initial [anna]) changedWhileRead
    (fun s => decide (s.lookups[2]?.bind (Lookup.answer "u1") =
      some ({ anna with hashedPassword := "h1" }, 1)))
    (by decide +kernel : (Transition.run SqliteAdminDB.step _ _).any _ = true)
  obtain ⟨l, hl, ha⟩ := Option.bind_eq_some_iff.1 (of_decide_eq_true hp)
  obtain ⟨since, rfl, hsince⟩ := Lookup.answer_eq_some ha
  refine ⟨s, hs, since, hl, hsince, lookups_fresh hs ?_ (List.mem_of_getElem? hl)⟩
  -- the only row a lookup is about to fill the cache with is in the table
  refine Transition.along_of_checkAlong
    (p := fun s _ => s.lookups.all fun l => l.pending.all fun row => decide (row ∈ s.users)) ?_
    (by decide +kernel)
  intro s a hc i _ username row since hi
  have hrow := List.all_eq_true.1 hc _ (List.mem_of_getElem? hi)
  exact .inl (of_decide_eq_true hrow)

def deletedWhileRead : List SqliteAdminDB.Action :=
  [.getUserByUsername "anna", .select 0, .deleteUser "u1", .resetCache, .fill 0,
    .getUserByUsername "anna"]

/-- A user whose deletion has returned is found. -/
theorem deletedUser_returned : ∃ s,
    Transition.run SqliteAdminDB.step (SqliteAdminDB.initial [anna]) deletedWhileRead = some s ∧
    ∃ since, s.lookups[1]? = some (.returned (some anna) since) ∧ since "u1" = 1 ∧
      s.versions = [[anna], []] ∧ ¬s.HadSince anna since := by
  obtain ⟨s, hs, hp⟩ := Transition.exists_run (SqliteAdminDB.initial [anna]) deletedWhileRead
    (fun s => decide (s.lookups[1]?.bind (Lookup.answer "u1") = some (anna, 1) ∧
      s.versions = [[anna], []]))
    (by decide +kernel : (Transition.run SqliteAdminDB.step _ _).any _ = true)
  obtain ⟨hbind, hv⟩ := of_decide_eq_true hp
  obtain ⟨l, hl, ha⟩ := Option.bind_eq_some_iff.1 hbind
  obtain ⟨since, rfl, hsince⟩ := Lookup.answer_eq_some ha
  refine ⟨s, hs, since, hl, hsince, hv, ?_⟩
  rintro ⟨k, users, hk, hget, hrow⟩
  have hk1 : 1 ≤ k := hsince ▸ hk
  rw [hv] at hget
  rcases k with _ | _ | k
  · omega
  · cases hget
    simp at hrow
  · simp at hget

end Orisun.Sqlite.UserCache
