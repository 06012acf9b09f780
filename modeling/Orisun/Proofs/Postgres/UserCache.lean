import Orisun.Postgres.UserCache
import Orisun.Proofs.Admin.UserProjection

/-!
# Coherence of the cache of users

The cache is filled under usernames and never emptied. It agrees with the table as long as no row
that it holds is deleted or renamed.
-/

namespace Orisun.Postgres

open Orisun.Admin.Users

namespace PostgresAdminDB

variable {s : PostgresAdminDB}

/-- What is cached is the row of its username. -/
structure Coherent (s : PostgresAdminDB) : Prop where
  keyed : s.users.Keyed
  rows : ∀ r ∈ s.users, storedUser r = some r
  cached : ∀ username r, s.userCache username = some r → r ∈ s.users ∧ r.username = username

variable {r : User}

theorem uuid_of_stored (h : storedUser r = some r) : uuidIn r.id = some r.id := by
  obtain ⟨id, hid, h⟩ := Option.bind_eq_some_iff.1 h
  obtain ⟨name, -, h⟩ := Option.bind_eq_some_iff.1 h
  obtain ⟨username, -, h⟩ := Option.bind_eq_some_iff.1 h
  obtain ⟨hash, -, h⟩ := Option.bind_eq_some_iff.1 h
  exact hid.trans (by rw [← Option.some.inj h])

theorem text_of_stored (h : storedUser r = some r) :
    text r.username = some r.username := by
  obtain ⟨id, -, h⟩ := Option.bind_eq_some_iff.1 h
  obtain ⟨name, -, h⟩ := Option.bind_eq_some_iff.1 h
  obtain ⟨username, hu, h⟩ := Option.bind_eq_some_iff.1 h
  obtain ⟨hash, -, h⟩ := Option.bind_eq_some_iff.1 h
  have hname : r.username = username := by rw [← Option.some.inj h]
  change varchar 255 r.username = some username at hu
  rw [varchar] at hu
  split_ifs at hu
  rw [hname]
  unfold text at hu ⊢
  split_ifs at hu with hnul
  rw [← Option.some.inj hu, if_neg hnul]

theorem Coherent.id_ne (h : s.Coherent) (hr : r ∈ s.users) : r.id ≠ "" := by
  intro hid
  have huuid := uuid_of_stored (h.rows r hr)
  rw [hid] at huuid
  exact absurd huuid (by decide : uuidIn "" ≠ some "")

theorem update_eq_some {cache : String → Option User} {username k : String} {u : User}
    (h : Function.update cache username (some u) k = some r) :
    (k = username ∧ r = u) ∨ (k ≠ username ∧ cache k = some r) := by
  rw [Function.update_apply] at h
  split_ifs at h with hk
  · exact .inl ⟨hk, (Option.some.inj h).symm⟩
  · exact .inr ⟨hk, h⟩

theorem Coherent.getUserByUsername (h : s.Coherent) (username : String) :
    (∀ r, (s.getUserByUsername username).2 = .ok r ↔ r ∈ s.users ∧ r.username = username) ∧
      (s.getUserByUsername username).1.Coherent := by
  unfold PostgresAdminDB.getUserByUsername
  rcases hc : s.userCache username with _ | user
  · rcases htext : text username with _ | name
    · refine ⟨fun r => ⟨by simp, ?_⟩, h⟩
      rintro ⟨hr, rfl⟩
      rw [text_of_stored (h.rows r hr)] at htext
      simp at htext
    · obtain rfl : username = name := by
        unfold text at htext
        split_ifs at htext
        exact Option.some.inj htext
      rcases hg : s.users.getByUsername username with _ | row
      · simp only [hg]
        refine ⟨fun r => ⟨by simp, fun hr => ?_⟩, h⟩
        rw [(Table.getByUsername_eq_some h.keyed).2 hr] at hg
        simp at hg
      · obtain ⟨hrow, hname⟩ := (Table.getByUsername_eq_some h.keyed).1 hg
        simp only [hg, if_neg (h.id_ne hrow), Except.ok.injEq]
        constructor
        · intro r
          rw [← Table.getByUsername_eq_some h.keyed, hg, Option.some.injEq]
        · refine ⟨h.keyed, h.rows, fun k r hk => ?_⟩
          rcases update_eq_some hk with ⟨rfl, rfl⟩ | ⟨-, hk⟩
          · exact ⟨hrow, hname⟩
          · exact h.cached k r hk
  · obtain ⟨huser, hname⟩ := h.cached _ _ hc
    refine ⟨fun r => ?_, h⟩
    rw [← Table.getByUsername_eq_some h.keyed,
      (Table.getByUsername_eq_some h.keyed).2 ⟨huser, hname⟩]
    simp

theorem Coherent.upsertUser (h : s.Coherent) {user : User} (hc : s.Careful (.upsertUser user)) :
    (s.upsertUser user).1.Coherent := by
  unfold PostgresAdminDB.upsertUser
  rcases hu : (storedUser user).bind s.users.upsert with _ | users
  · exact h
  · obtain ⟨row, hrow, hup⟩ := Option.bind_eq_some_iff.1 hu
    obtain ⟨rfl, hfree⟩ := hc row hrow
    refine ⟨h.keyed.upsert hup, fun r hr => ?_, fun k r hk => ?_⟩
    · rcases (Table.mem_upsert hup).1 hr with rfl | ⟨hr, -⟩
      · exact hrow
      · exact h.rows r hr
    · rcases update_eq_some hk with ⟨rfl, rfl⟩ | ⟨hku, hk⟩
      · exact ⟨(Table.mem_upsert hup).2 (.inl rfl), rfl⟩
      · obtain ⟨hr, rfl⟩ := h.cached k r hk
        refine ⟨(Table.mem_upsert hup).2 (.inr ⟨hr, fun hid => ?_⟩), rfl⟩
        -- the old row of the user is not cached under another username
        rw [hfree r hr hid hku] at hk
        simp at hk

theorem Coherent.deleteUser (h : s.Coherent) {id : String} (hc : s.Careful (.deleteUser id)) :
    (s.deleteUser id).1.Coherent := by
  unfold PostgresAdminDB.deleteUser
  rcases hid : uuidIn id with _ | u
  · exact h
  · refine ⟨h.keyed.delete u, fun r hr => h.rows r (Table.mem_delete.1 hr).1, fun k r hk => ?_⟩
    obtain ⟨hr, rfl⟩ := h.cached k r hk
    refine ⟨Table.mem_delete.2 ⟨hr, fun hru => ?_⟩, rfl⟩
    rw [hc r hr (by rw [hid, hru])] at hk
    simp at hk

theorem Coherent.call (h : s.Coherent) {c : Call} (hc : s.Careful c) : (s.call c).Coherent := by
  rcases c with user | id | username
  · exact h.upsertUser hc
  · exact h.deleteUser hc
  · exact (h.getUserByUsername username).2

end PostgresAdminDB

/-- After calls that leave no cached row behind, a lookup returns the row of the username, and fails
where there is none. -/
theorem userCache_coherent {users : Table} (hk : users.Keyed)
    (hrows : ∀ r ∈ users, storedUser r = some r) {calls : List PostgresAdminDB.Call}
    {s : PostgresAdminDB}
    (hr : Transition.run (fun s c => some (PostgresAdminDB.call s c)) ⟨users, fun _ => none⟩ calls =
      some s)
    (hc : Transition.Along (fun s c => some (PostgresAdminDB.call s c)) PostgresAdminDB.Careful
      ⟨users, fun _ => none⟩ calls) (username : String) (r : User) :
    (s.getUserByUsername username).2 = .ok r ↔ r ∈ s.users ∧ r.username = username := by
  have h0 : PostgresAdminDB.Coherent ⟨users, fun _ => none⟩ := ⟨hk, hrows, by simp⟩
  have hs := Transition.run_invariant_along (I := PostgresAdminDB.Coherent)
    (fun s c t h hc ht => Option.some.inj ht ▸ h.call hc) h0 hc hr
  exact (hs.getUserByUsername username).1 r

def anna : User :=
  ⟨"0195c053-57e7-7a6d-8e17-a2a695f67d1f", "Anna", "anna", "h0", [.admin]⟩

def annie : User := { anna with username := "annie" }

def ben : User := ⟨"0195c053-57e7-7a6d-8e17-a2a695f67d20", "Ben", "ben", "h1", []⟩

theorem userCache_coherent_anna :
    let s := [.upsertUser annie, .getUserByUsername "annie", .deleteUser ben.id].foldl
      PostgresAdminDB.call ⟨[anna, ben], fun _ => none⟩
    s.users = [annie] ∧
      ∀ r, (s.getUserByUsername "annie").2 = .ok r ↔ r ∈ s.users ∧ r.username = "annie" := by
  have hrun : Transition.run (fun s c => some (PostgresAdminDB.call s c)) ⟨[anna, ben], fun _ => none⟩
      [.upsertUser annie, .getUserByUsername "annie", .deleteUser ben.id] = some _ := rfl
  refine ⟨by decide +kernel, userCache_coherent ⟨by decide +kernel, by decide +kernel⟩
    (by decide +kernel) hrun ⟨fun row hrow => ?_, ?_⟩ "annie"⟩
  · obtain rfl : annie = row := Option.some.inj
      ((by decide +kernel : storedUser annie = some annie).symm.trans hrow)
    exact ⟨rfl, fun _ _ _ _ => rfl⟩
  · rintro _ ⟨⟩
    refine ⟨trivial, ?_⟩
    rintro _ ⟨⟩
    exact ⟨by simp only [PostgresAdminDB.Careful]; decide +kernel, fun _ _ => trivial⟩

/-- A deleted user is still found by its username. -/
theorem deletedUser_found :
    let s := (PostgresAdminDB.call ⟨[], fun _ => none⟩ (.upsertUser anna)).call (.deleteUser anna.id)
    s.users = [] ∧ (s.getUserByUsername "anna").2 = .ok anna := by
  decide +kernel

end Orisun.Postgres
