import Mathlib.Data.List.Pairwise
import Orisun.Admin.UserProjection
import Orisun.Proofs.Admin.UserCommands

/-!
# The table of users is a fold of the log

The table holds the users of the events up to the checkpoint, or with the next event where that has
had its effect already.
-/

namespace Orisun.Admin.Users

open OptimisticLog

namespace Table

variable {t t' : Table} {u r : User} {id : String}

theorem find?_key {key : User → String} (h : (t.map key).Nodup) {k : String} :
    t.find? (fun r => decide (key r = k)) = some r ↔ r ∈ t ∧ key r = k := by
  constructor
  · intro hr
    exact ⟨List.mem_of_find?_eq_some hr, by simpa using List.find?_some hr⟩
  · rintro ⟨hr, rfl⟩
    rcases hf : t.find? (fun r' => decide (key r' = key r)) with _ | r'
    · simpa using List.find?_eq_none.1 hf r hr
    · have hkey : key r' = key r := by simpa using List.find?_some hf
      rw [List.inj_on_of_nodup_map h (List.mem_of_find?_eq_some hf) hr hkey]

theorem getById_eq_some (h : t.Keyed) : t.getById id = some r ↔ r ∈ t ∧ r.id = id :=
  find?_key h.ids

theorem getByUsername_eq_some (h : t.Keyed) {username : String} :
    t.getByUsername username = some r ↔ r ∈ t ∧ r.username = username :=
  find?_key h.usernames

theorem mem_delete : r ∈ t.delete id ↔ r ∈ t ∧ r.id ≠ id := by
  simp [delete]

theorem Keyed.delete (h : t.Keyed) (id : String) : (t.delete id).Keyed :=
  ⟨h.ids.sublist (List.filter_sublist.map _), h.usernames.sublist (List.filter_sublist.map _)⟩

theorem upsert_eq_some (hu : t.upsert u = some t') :
    (∀ r ∈ t, r.username = u.username → r.id = u.id) ∧
      ((∃ r ∈ t, r.id = u.id) ∧ t' = t.map (fun r => if r.id = u.id then u else r) ∨
        (∀ r ∈ t, r.id ≠ u.id) ∧ t' = t ++ [u]) := by
  unfold upsert at hu
  split_ifs at hu with hc he
  · refine ⟨by simpa using hc, .inl ⟨?_, (Option.some.inj hu).symm⟩⟩
    simpa using he
  · refine ⟨by simpa using hc, .inr ⟨?_, (Option.some.inj hu).symm⟩⟩
    simpa using he

theorem mem_upsert (hu : t.upsert u = some t') : r ∈ t' ↔ r = u ∨ r ∈ t ∧ r.id ≠ u.id := by
  obtain ⟨-, ⟨⟨r₀, hr₀, hid⟩, rfl⟩ | ⟨hne, rfl⟩⟩ := upsert_eq_some hu
  · rw [List.mem_map]
    constructor
    · rintro ⟨s, hs, rfl⟩
      split_ifs with hsid
      · exact .inl rfl
      · exact .inr ⟨hs, hsid⟩
    · rintro (rfl | ⟨hr, hrid⟩)
      · exact ⟨r₀, hr₀, if_pos hid⟩
      · exact ⟨r, hr, if_neg hrid⟩
  · rw [List.mem_append, List.mem_singleton, or_comm]
    exact or_congr_right ⟨fun h => ⟨h, hne r h⟩, fun h => h.1⟩

theorem Keyed.upsert (h : t.Keyed) (hu : t.upsert u = some t') : t'.Keyed := by
  obtain ⟨hfree, ⟨-, rfl⟩ | ⟨hne, rfl⟩⟩ := upsert_eq_some hu
  · have hids : (t.map fun r => if r.id = u.id then u else r).map User.id = t.map User.id := by
      rw [List.map_map]
      refine List.map_congr_left fun r _ => ?_
      by_cases hr : r.id = u.id <;> simp [hr]
    refine ⟨by rw [hids]; exact h.ids, ?_⟩
    rw [List.map_map]
    refine (List.Nodup.of_map _ h.ids).map_on fun x hx y hy hxy => ?_
    simp only [Function.comp_apply] at hxy
    split_ifs at hxy with hxid hyid hyid
    · exact List.inj_on_of_nodup_map h.ids hx hy (hxid.trans hyid.symm)
    · exact absurd (hfree y hy hxy.symm) hyid
    · exact absurd (hfree x hx hxy) hxid
    · exact List.inj_on_of_nodup_map h.usernames hx hy hxy
  · have hname : ∀ r ∈ t, r.username ≠ u.username := fun r hr hname => hne r hr (hfree r hr hname)
    constructor <;> rw [List.map_append, List.nodup_append] <;>
      refine ⟨?_, List.nodup_singleton _, ?_⟩
    · exact h.ids
    · simpa using hne
    · exact h.usernames
    · simpa using hname

end Table

section Users

variable {log : Log} {e : Entry Position Event} {r : User}

theorem isUser_id (h : IsUser log r) : ∃ f ∈ log, ∃ c, f.event = .userCreated c ∧ c.userId = r.id ∧
    (∀ g ∈ log, g.event ≠ .userDeleted r.id) ∧ latestHash log r.id = some r.hashedPassword ∧
    r = { c.user with hashedPassword := r.hashedPassword } := by
  obtain ⟨f, hf, c, hc, hdel, hhash, hr⟩ := h
  have hid : c.userId = r.id := by rw [hr]; rfl
  exact ⟨f, hf, c, hc, hid, hid ▸ hdel, hid ▸ hhash, hr⟩

theorem latestHash_append (log : Log) (e : Entry Position Event) (userId : String) :
    latestHash (log ++ [e]) userId = (e.event.hashFor userId).or (latestHash log userId) := by
  unfold latestHash
  rw [List.filterMap_append]
  rcases h : e.event.hashFor userId with _ | hash <;> simp [h]

variable {c : UserCreated}

theorem UniqueLifecycles.created_unique (hu : UniqueLifecycles log) {f g : Entry Position Event}
    (hf : f ∈ log) (hg : g ∈ log) {d : UserCreated} (hc : f.event = .userCreated c)
    (hd : g.event = .userCreated d) (hid : c.userId = d.userId) : c = d := by
  by_cases hfg : f = g
  · rw [hfg, hd] at hc
    exact (Event.userCreated.inj hc).symm
  · have : Std.Symm fun e f : Entry Position Event => ∀ c d, e.event = .userCreated c →
        f.event = .userCreated d → c.userId ≠ d.userId :=
      ⟨fun e f h c d hc hd hid => h d c hd hc hid.symm⟩
    exact absurd hid (hu.ids.forall hf hg hfg c d hc hd)

theorem exists_latestHash {f : Entry Position Event} (hf : f ∈ log) (hc : f.event = .userCreated c) :
    ∃ hash, latestHash log c.userId = some hash := by
  rcases h : latestHash log c.userId with _ | hash
  · have hnil := List.getLast?_eq_none_iff.1 h
    have hf' := List.filterMap_eq_nil_iff.1 hnil f hf
    simp [hc, Event.hashFor] at hf'
  · exact ⟨hash, rfl⟩

theorem isUser_unique (hu : UniqueLifecycles log) {r' : User} (h : IsUser log r)
    (h' : IsUser log r') (hid : r.id = r'.id) : r = r' := by
  obtain ⟨f, hf, c, hc, hcid, -, hhash, hr⟩ := isUser_id h
  obtain ⟨g, hg, d, hd, hdid, -, hhash', hr'⟩ := isUser_id h'
  obtain rfl := hu.created_unique hf hg hc hd (hcid.trans (hid.trans hdid.symm))
  rw [hid, hhash'] at hhash
  rw [hr, hr', Option.some.inj hhash]

theorem mem_append_singleton_event {P : Event → Prop} :
    (∀ f ∈ log ++ [e], P f.event) ↔ (∀ f ∈ log, P f.event) ∧ P e.event := by
  simp [or_imp, forall_and]

theorem isUser_append_created (hu : UniqueLifecycles (log ++ [e])) (hc : e.event = .userCreated c) :
    IsUser (log ++ [e]) r ↔ r = c.user ∨ IsUser log r := by
  have hlog := hu.of_isPrefix (List.prefix_append log [e])
  have hne : ∀ f ∈ log, ∀ d, f.event = .userCreated d → d.userId ≠ c.userId := fun f hf d hd =>
    (List.pairwise_append.1 hu.ids).2.2 f hf e (by simp) d c hd hc
  have hdel : ∀ f ∈ log, f.event ≠ .userDeleted c.userId := by
    intro f hf hdel
    obtain ⟨before, after, rfl⟩ := List.append_of_mem hf
    obtain ⟨g, hg, d, hd, hid⟩ := hlog.createdBefore before f after rfl _ hdel
    exact hne g (by simp [hg]) d hd hid
  have hhash : ∀ u, latestHash (log ++ [e]) u =
      if c.userId = u then some c.passwordHash else latestHash log u := by
    intro u
    rw [latestHash_append, hc, Event.hashFor]
    split_ifs <;> rfl
  constructor
  · rintro ⟨f, hf, d, hd, hnd, hlatest, hr⟩
    rw [hhash] at hlatest
    rcases List.mem_append.1 hf with hf | hf
    · rw [if_neg fun h => hne f hf d hd h.symm] at hlatest
      exact .inr ⟨f, hf, d, hd, fun g hg => hnd g (List.mem_append_left _ hg), hlatest, hr⟩
    · rw [List.mem_singleton.1 hf, hc] at hd
      obtain rfl := Event.userCreated.inj hd
      rw [if_pos rfl] at hlatest
      rw [hr, ← Option.some.inj hlatest]
      exact .inl rfl
  · rintro (rfl | ⟨f, hf, d, hd, hnd, hlatest, hr⟩)
    · refine ⟨e, by simp, c, hc, ?_, by rw [hhash, if_pos rfl]; rfl, rfl⟩
      exact (mem_append_singleton_event (P := (· ≠ .userDeleted c.userId))).2
        ⟨hdel, by rw [hc]; simp⟩
    · refine ⟨f, List.mem_append_left _ hf, d, hd, ?_, ?_, hr⟩
      · exact (mem_append_singleton_event (P := (· ≠ .userDeleted d.userId))).2
          ⟨hnd, by rw [hc]; simp⟩
      · rw [hhash, if_neg fun h => hne f hf d hd h.symm, hlatest]

theorem isUser_append_deleted {u : String} (hdel : e.event = .userDeleted u) :
    IsUser (log ++ [e]) r ↔ IsUser log r ∧ r.id ≠ u := by
  have hhash : ∀ v, latestHash (log ++ [e]) v = latestHash log v := by
    intro v
    rw [latestHash_append, hdel]
    rfl
  constructor
  · intro h
    obtain ⟨f, hf, c, hc, hid, hnd, hlatest, hr⟩ := isUser_id h
    rw [hhash] at hlatest
    obtain ⟨hnd, hne⟩ := (mem_append_singleton_event (P := (· ≠ .userDeleted r.id))).1 hnd
    rcases List.mem_append.1 hf with hf | hf
    · refine ⟨⟨f, hf, c, hc, hid ▸ hnd, hid ▸ hlatest, hr⟩, ?_⟩
      rintro rfl
      exact hne hdel
    · rw [List.mem_singleton.1 hf, hdel] at hc
      simp at hc
  · rintro ⟨h, hne⟩
    obtain ⟨f, hf, c, hc, hid, hnd, hlatest, hr⟩ := isUser_id h
    refine ⟨f, List.mem_append_left _ hf, c, hc, ?_, by rw [hhash, hid, hlatest], hr⟩
    refine (mem_append_singleton_event (P := (· ≠ .userDeleted c.userId))).2 ⟨hid ▸ hnd, ?_⟩
    rw [hdel, hid]
    exact fun h => hne (Event.userDeleted.inj h).symm

theorem isUser_append_changed {u hash : String} (hch : e.event = .userPasswordChanged u hash) :
    IsUser (log ++ [e]) r ↔
      (∃ r₀, IsUser log r₀ ∧ r₀.id = u ∧ r = { r₀ with hashedPassword := hash }) ∨
        IsUser log r ∧ r.id ≠ u := by
  have hhash : ∀ v, latestHash (log ++ [e]) v = if u = v then some hash else latestHash log v := by
    intro v
    rw [latestHash_append, hch, Event.hashFor]
    split_ifs <;> rfl
  have hnd : ∀ v, (∀ f ∈ log ++ [e], f.event ≠ .userDeleted v) ↔
      ∀ f ∈ log, f.event ≠ .userDeleted v := by
    intro v
    rw [mem_append_singleton_event (P := (· ≠ .userDeleted v)), hch]
    simp
  have hcr : ∀ f ∈ log ++ [e], ∀ c, f.event = .userCreated c → f ∈ log := by
    intro f hf c hc
    refine (List.mem_append.1 hf).resolve_right fun hf => ?_
    rw [List.mem_singleton.1 hf, hch] at hc
    simp at hc
  constructor
  · rintro ⟨f, hf, c, hc, hdel, hlatest, hr⟩
    have hf := hcr f hf c hc
    have hid : c.userId = r.id := by rw [hr]; rfl
    rw [hnd] at hdel
    rw [hhash] at hlatest
    split_ifs at hlatest with huc
    · obtain ⟨old, hold⟩ := exists_latestHash hf hc
      refine .inl ⟨{ c.user with hashedPassword := old }, ⟨f, hf, c, hc, hdel, hold, rfl⟩,
        huc.symm, ?_⟩
      rw [hr, ← Option.some.inj hlatest]
    · exact .inr ⟨⟨f, hf, c, hc, hdel, hlatest, hr⟩, fun h => huc (hid.trans h).symm⟩
  · rintro (⟨r₀, h, rfl, rfl⟩ | ⟨h, hne⟩)
    · obtain ⟨f, hf, c, hc, hid, hdel, -, hr⟩ := isUser_id h
      refine ⟨f, List.mem_append_left _ hf, c, hc, (hnd _).2 (hid ▸ hdel),
        by rw [hhash, if_pos hid.symm], ?_⟩
      rw [hr]
    · obtain ⟨f, hf, c, hc, hid, hdel, hlatest, hr⟩ := isUser_id h
      refine ⟨f, List.mem_append_left _ hf, c, hc, (hnd _).2 (hid ▸ hdel), ?_, hr⟩
      rw [hhash, if_neg fun h => hne (hid.symm.trans h.symm), hid, hlatest]

theorem isUser_append_other (hc : ∀ c, e.event ≠ .userCreated c)
    (hd : ∀ u, e.event ≠ .userDeleted u) (hch : ∀ u hash, e.event ≠ .userPasswordChanged u hash) :
    IsUser (log ++ [e]) r ↔ IsUser log r := by
  have hhash : ∀ v, latestHash (log ++ [e]) v = latestHash log v := by
    intro v
    rw [latestHash_append]
    rcases hev : e.event with c | u | ⟨u, h⟩ | u | ⟨t, u⟩ | t
    · exact absurd hev (hc c)
    · rfl
    · exact absurd hev (hch u h)
    · rfl
    · rfl
    · rfl
  constructor
  · rintro ⟨f, hf, c, hfc, hdel, hlatest, hr⟩
    rcases List.mem_append.1 hf with hf | hf
    · exact ⟨f, hf, c, hfc, fun g hg => hdel g (List.mem_append_left _ hg), hhash _ ▸ hlatest, hr⟩
    · rw [List.mem_singleton.1 hf] at hfc
      exact absurd hfc (hc c)
  · rintro ⟨f, hf, c, hfc, hdel, hlatest, hr⟩
    refine ⟨f, List.mem_append_left _ hf, c, hfc, ?_, (hhash _).trans hlatest, hr⟩
    exact (mem_append_singleton_event (P := (· ≠ .userDeleted c.userId))).2 ⟨hdel, hd _⟩

end Users

/-- The table holds the users of the log. -/
structure Represents (log : Log) (t : Table) : Prop where
  keyed : t.Keyed
  rows : ∀ r, r ∈ t ↔ IsUser log r

/-- The table holds the users before an event, or those after it. -/
def Near (log : Log) (e : Entry Position Event) (t : Table) : Prop :=
  Represents log t ∨ Represents (log ++ [e]) t

section Effect

variable {log : Log} {e : Entry Position Event} {t t' : Table}

theorem Near.keyed (h : Near log e t) : t.Keyed := h.elim (·.keyed) (·.keyed)

theorem Near.mem_iff (h : Near log e t) {r : User} {A : Prop}
    (hafter : IsUser (log ++ [e]) r ∧ A ↔ IsUser log r ∧ A) : r ∈ t ∧ A ↔ IsUser log r ∧ A := by
  rcases h with h | h
  · rw [h.rows]
  · rw [h.rows, hafter]

theorem Near.created_of_mem (h : Near log e t) {r : User} (hr : r ∈ t) : ∃ f ∈ log ++ [e],
    ∃ data, f.event = .userCreated data ∧ r.id = data.userId ∧ r.name = data.name ∧
      r.username = data.username := by
  rcases h with h | h
  · obtain ⟨f, hf, data, hdata, -, -, hrow⟩ := (h.rows r).1 hr
    exact ⟨f, List.mem_append_left _ hf, data, hdata, congrArg User.id hrow,
      congrArg User.name hrow, congrArg User.username hrow⟩
  · obtain ⟨f, hf, data, hdata, -, -, hrow⟩ := (h.rows r).1 hr
    exact ⟨f, hf, data, hdata, congrArg User.id hrow, congrArg User.name hrow,
      congrArg User.username hrow⟩

theorem represents_of_created (hu : UniqueLifecycles (log ++ [e])) {c : UserCreated}
    (hc : e.event = .userCreated c) (h : Near log e t) (ht : t.upsert c.user = some t') :
    Represents (log ++ [e]) t' where
  keyed := h.keyed.upsert ht
  rows r := by
    have hold : IsUser log r → r.id ≠ c.userId := fun hr => by
      obtain ⟨f, hf, d, hd, hid, -⟩ := isUser_id hr
      rw [← hid]
      exact (List.pairwise_append.1 hu.ids).2.2 f hf e (by simp) d c hd hc
    have hmem : r ∈ t ∧ r.id ≠ c.userId ↔ IsUser log r ∧ r.id ≠ c.userId := by
      refine h.mem_iff ?_
      rw [isUser_append_created hu hc]
      refine and_congr_left fun hne => or_iff_right ?_
      rintro rfl
      exact hne rfl
    rw [Table.mem_upsert ht, isUser_append_created hu hc]
    exact or_congr_right (hmem.trans (and_iff_left_of_imp hold))

theorem represents_of_deleted {u : String} (hd : e.event = .userDeleted u) (h : Near log e t) :
    Represents (log ++ [e]) (t.delete u) where
  keyed := h.keyed.delete u
  rows r := by
    rw [Table.mem_delete, isUser_append_deleted hd]
    refine h.mem_iff ?_
    rw [isUser_append_deleted hd, and_assoc, and_self]

theorem represents_of_changed (hu : UniqueLifecycles log) {u hash : String}
    (hch : e.event = .userPasswordChanged u hash) (h : Near log e t) {row : User} (hrow : row ∈ t)
    (hid : row.id = u) (ht : t.upsert { row with hashedPassword := hash } = some t') :
    Represents (log ++ [e]) t' where
  keyed := h.keyed.upsert ht
  rows r := by
    obtain ⟨r₀, hr₀, hr₀id, hset⟩ : ∃ r₀, IsUser log r₀ ∧ r₀.id = u ∧
        { row with hashedPassword := hash } = { r₀ with hashedPassword := hash } := by
      rcases h with h | h
      · exact ⟨row, (h.rows row).1 hrow, hid, rfl⟩
      · rcases (isUser_append_changed hch).1 ((h.rows row).1 hrow) with
          ⟨r₀, hr₀, hr₀id, hset⟩ | ⟨-, hne⟩
        · exact ⟨r₀, hr₀, hr₀id, by rw [hset]⟩
        · exact absurd hid hne
    have hmem : r ∈ t ∧ r.id ≠ u ↔ IsUser log r ∧ r.id ≠ u := by
      refine h.mem_iff ?_
      rw [isUser_append_changed hch, or_and_right, and_assoc, and_self]
      refine or_iff_right ?_
      rintro ⟨⟨r₁, -, hr₁, rfl⟩, hne⟩
      exact hne hr₁
    rw [Table.mem_upsert ht, isUser_append_changed hch]
    refine or_congr ?_ (by simpa [hid] using hmem)
    rw [hset]
    constructor
    · rintro rfl
      exact ⟨r₀, hr₀, hr₀id, rfl⟩
    · rintro ⟨r₁, hr₁, hr₁id, rfl⟩
      rw [isUser_unique hu hr₁ hr₀ (hr₁id.trans hr₀id.symm)]

theorem represents_of_other (hc : ∀ c, e.event ≠ .userCreated c)
    (hd : ∀ u, e.event ≠ .userDeleted u) (hch : ∀ u hash, e.event ≠ .userPasswordChanged u hash)
    (h : Near log e t) : Represents (log ++ [e]) t where
  keyed := h.keyed
  rows r := by
    rcases h with h | h
    · rw [h.rows, isUser_append_other hc hd hch]
    · exact h.rows r

end Effect

section UpTo

variable {log : Log} {e : Entry Position Event} {p : Position}

theorem upTo_eq_nil (h : ∀ e ∈ log, p < e.position) : upTo log p = [] := by
  refine List.filter_eq_nil_iff.2 fun e he => ?_
  simpa using h e he

theorem upTo_isPrefix (h : log.Pairwise fun e f => e.position < f.position) (p : Position) :
    upTo log p <+: log := by
  induction log with
  | nil => exact List.prefix_refl _
  | cons f log ih =>
    rw [List.pairwise_cons] at h
    by_cases hf : f.position ≤ p
    · rw [upTo, List.filter_cons_of_pos (by simpa using hf)]
      exact (List.prefix_cons_inj f).2 (ih h.2)
    · have hpf := not_le.1 hf
      rw [upTo_eq_nil (List.forall_mem_cons.2 ⟨hpf, fun g hg => hpf.trans (h.1 g hg)⟩)]
      exact List.nil_prefix

theorem upTo_next (h : log.Pairwise fun e f => e.position < f.position)
    (hn : Projector.next log p = some e) : upTo log e.position = upTo log p ++ [e] := by
  have hpe : p < e.position := by simpa using List.find?_some hn
  induction log with
  | nil => simp [Projector.next] at hn
  | cons f log ih =>
    rw [List.pairwise_cons] at h
    by_cases hf : p < f.position
    · have hfe : f = e := by simpa [Projector.next, hf] using hn
      subst hfe
      have h1 : upTo (f :: log) f.position = [f] := by
        rw [upTo, List.filter_cons_of_pos (by simp)]
        exact congrArg _ (upTo_eq_nil h.1)
      have h2 : upTo (f :: log) p = [] :=
        upTo_eq_nil (List.forall_mem_cons.2 ⟨hf, fun g hg => hf.trans (h.1 g hg)⟩)
      rw [h1, h2]
      rfl
    · have hn' : Projector.next log p = some e := by simpa [Projector.next, hf] using hn
      have hfp := not_lt.1 hf
      have ih := ih h.2 hn'
      unfold upTo at ih ⊢
      rw [List.filter_cons_of_pos (by simpa using hfp.trans hpe.le),
        List.filter_cons_of_pos (by simpa using hfp), ih, List.cons_append]

end UpTo

namespace Projector

variable {log : Log} {s s' : Projector} {e : Entry Position Event} {t : Table}

/-- The event a process works on: the next one, or the last one where its position is stored and the
answer was lost. -/
def Current (log : Log) (s : Projector) (e : Entry Position Event) : Prop :=
  ∃ q, next log q = some e ∧ (s.checkpoint = q ∨ s.checkpoint = e.position ∧ s.halfHandled = false)

def ProcessSound (log : Log) (s : Projector) : Process → Prop
  | .waiting cursor => cursor = s.checkpoint
  | .handling e => Current log s e
  | .writing e row hash =>
    Current log s e ∧ e.event = .userPasswordChanged row.id hash ∧ row ∈ s.table
  | .storing e => Current log s e ∧ Represents (upTo log e.position) s.table

structure Inv (log : Log) (s : Projector) : Prop where
  whole : s.halfHandled = false → Represents (upTo log s.checkpoint) s.table
  half : s.halfHandled = true → ∃ e, next log s.checkpoint = some e ∧
    Represents (upTo log e.position) s.table
  process : ∀ pr, s.process = some pr → ProcessSound log s pr

section Steps

theorem current_mem (h : Current log s e) : e ∈ log := by
  obtain ⟨q, hn, -⟩ := h
  exact List.mem_of_find?_eq_some hn

theorem row_of_keeps {cols : Columns} {u r : User} (hid : Columns.Keeps cols.id u.id)
    (hname : Columns.Keeps cols.text u.name) (husername : Columns.Keeps cols.text u.username)
    (hhash : Columns.Keeps cols.text u.hashedPassword) (h : cols.row u = some r) : r = u := by
  obtain ⟨id, h1, h⟩ := Option.bind_eq_some_iff.1 h
  obtain ⟨name, h2, h⟩ := Option.bind_eq_some_iff.1 h
  obtain ⟨username, h3, h⟩ := Option.bind_eq_some_iff.1 h
  obtain ⟨hash, h4, h⟩ := Option.bind_eq_some_iff.1 h
  rw [← Option.some.inj h, hid id h1, hname name h2, husername username h3, hhash hash h4]

theorem Inv.storing (h : Inv log s) (hc : Current log s e)
    (ht : Represents (upTo log e.position) s.table) :
    Inv log { s with process := some (.storing e) } := by
  refine ⟨h.whole, h.half, fun pr hpr => ?_⟩
  cases hpr
  exact ⟨hc, ht⟩

theorem Inv.effect (h : Inv log s) (hc : Current log s e)
    (ht : Represents (upTo log e.position) t) (fault : Fault) :
    Inv log (s.effect e t (.storing e) fault) := by
  obtain ⟨q, hn, hq⟩ := hc
  have hpe : q < e.position := by simpa using List.find?_some hn
  have hwritten : ∀ pr, (pr = .storing e ∨ pr = .handling e) → Inv log
      { s with
        table := t
        process := some pr
        halfHandled := s.halfHandled || decide (s.checkpoint < e.position) } := by
    intro pr hpr
    refine ⟨fun hwhole => ?_, fun hhalf => ?_, ?_⟩
    · simp only [Bool.or_eq_false_iff, decide_eq_false_iff_not, not_lt] at hwhole
      rcases hq with rfl | ⟨hq, -⟩
      · exact absurd hpe (not_lt.2 hwhole.2)
      · show Represents (upTo log s.checkpoint) t
        rwa [hq]
    · rcases hq with rfl | ⟨hq, hhalf'⟩
      · exact ⟨e, hn, ht⟩
      · simp [hq, hhalf'] at hhalf
    · intro pr' hpr'
      cases hpr'
      have hcur : Current log
          { s with
            table := t
            process := some pr
            halfHandled := s.halfHandled || decide (s.checkpoint < e.position) } e := by
        refine ⟨q, hn, hq.imp id fun hq => ⟨hq.1, ?_⟩⟩
        simp [hq.1, hq.2]
      rcases hpr with rfl | rfl
      · exact ⟨hcur, ht⟩
      · exact hcur
  rcases fault with _ | _ | _
  · exact hwritten _ (.inl rfl)
  · refine ⟨h.whole, h.half, fun pr hpr => ?_⟩
    cases hpr
    exact ⟨q, hn, hq⟩
  · exact hwritten _ (.inr rfl)

variable (hlog : Increasing notExistsPosition log) (hu : UniqueLifecycles log)

include hlog

theorem Inv.near (h : Inv log s) (hc : Current log s e) :
    ∃ q, upTo log e.position = upTo log q ++ [e] ∧ Near (upTo log q) e s.table := by
  obtain ⟨q, hn, hq⟩ := hc
  have hup := upTo_next hlog.pairwise hn
  refine ⟨q, hup, ?_⟩
  rcases hq with rfl | ⟨hq, hhalf⟩
  · rcases hh : s.halfHandled with _ | _
    · exact .inl (h.whole hh)
    · obtain ⟨e', hn', hr⟩ := h.half hh
      obtain rfl := Option.some.inj (hn.symm.trans hn')
      exact .inr (hup ▸ hr)
  · have := h.whole hhalf
    rw [hq, hup] at this
    exact .inr this

variable {cols : Columns} (hcols : ∀ e ∈ log, cols.KeepsEvent e.event)

include hu hcols

theorem Inv.handle (h : Inv log s) (hp : s.process = some (.handling e)) (fault : Fault) :
    Inv log (s.handle cols e fault) := by
  have hc : Current log s e := h.process _ hp
  have hkeeps := hcols e (current_mem hc)
  obtain ⟨q, hup, hnear⟩ := h.near hlog hc
  have hu' : UniqueLifecycles (upTo log q ++ [e]) :=
    hup ▸ hu.of_isPrefix (upTo_isPrefix hlog.pairwise e.position)
  have hother : (∀ c, e.event ≠ .userCreated c) → (∀ u, e.event ≠ .userDeleted u) →
      (∀ u hash, e.event ≠ .userPasswordChanged u hash) →
      Inv log { s with process := some (.storing e) } := fun h1 h2 h3 =>
    h.storing hc (hup ▸ represents_of_other h1 h2 h3 hnear)
  unfold Projector.handle
  rcases hev : e.event with c | u | ⟨u, hash⟩ | u | ⟨type, u⟩ | type <;> simp only <;>
    rw [hev] at hkeeps
  · rcases ht : (cols.row c.user).bind s.table.upsert with _ | t
    · exact h
    · obtain ⟨row, hrow, ht⟩ := Option.bind_eq_some_iff.1 ht
      obtain rfl := row_of_keeps hkeeps.1 hkeeps.2.1 hkeeps.2.2.1 hkeeps.2.2.2 hrow
      exact h.effect hc (hup ▸ represents_of_created hu' hev hnear ht) fault
  · split
    · exact h
    · rename_i id hid
      obtain rfl := hkeeps id hid
      exact h.effect hc (hup ▸ represents_of_deleted hev hnear) fault
  · split
    · rename_i row hrow
      obtain ⟨id, hstored, hfound⟩ := Option.bind_eq_some_iff.1 hrow
      obtain rfl := hkeeps.1 id hstored
      obtain ⟨hmem, hid⟩ := (Table.getById_eq_some hnear.keyed).1 hfound
      refine ⟨h.whole, h.half, fun pr hpr => ?_⟩
      cases hpr
      exact ⟨hc, hid ▸ hev, hmem⟩
    · exact h
  · exact hother (by simp [hev]) (by simp [hev]) (by simp [hev])
  · split_ifs
    · exact h
    · exact hother (by simp [hev]) (by simp [hev]) (by simp [hev])
  · exact hother (by simp [hev]) (by simp [hev]) (by simp [hev])

theorem Inv.step (h : Inv log s) {a : Action} (hs : s.step cols log a = some s') : Inv log s' := by
  rcases a with _ | _ | _ | fault | fault | fault
  · simp only [Projector.step] at hs
    split at hs
    · cases hs
      refine ⟨h.whole, h.half, fun pr hpr => ?_⟩
      cases hpr
      rfl
    · simp at hs
  · cases hs
    exact ⟨h.whole, h.half, by simp⟩
  · simp only [Projector.step] at hs
    split at hs
    · rename_i cursor hp
      obtain ⟨e, hn, rfl⟩ := Option.map_eq_some_iff.1 hs
      refine ⟨h.whole, h.half, fun pr hpr => ?_⟩
      cases hpr
      exact ⟨cursor, hn, .inl (h.process _ hp).symm⟩
    · simp at hs
  · simp only [Projector.step] at hs
    split at hs
    · cases hs
      exact h.handle hlog hu hcols ‹_› fault
    · simp at hs
  · simp only [Projector.step] at hs
    split at hs
    · rename_i e row hash hp
      obtain ⟨hc, hev, hrow⟩ := h.process _ hp
      rcases ht : (cols.row { row with hashedPassword := hash }).bind s.table.upsert with _ | t <;>
        rw [ht] at hs <;> cases hs
      · refine ⟨h.whole, h.half, fun pr hpr => ?_⟩
        cases hpr
        exact hc
      · obtain ⟨q, hup, hnear⟩ := h.near hlog hc
        obtain ⟨row', hrow', ht⟩ := Option.bind_eq_some_iff.1 ht
        obtain ⟨f, hf, data, hdata, hid, hname, husername⟩ := hnear.created_of_mem hrow
        have hfmem : f ∈ log := by
          rw [← hup] at hf
          exact (List.mem_filter.1 hf).1
        have hkeeps := hcols e (current_mem hc)
        have hkeeps' := hcols f hfmem
        rw [hev] at hkeeps
        rw [hdata] at hkeeps'
        obtain rfl := row_of_keeps (hid ▸ hkeeps'.1) (hname ▸ hkeeps'.2.1)
          (husername ▸ hkeeps'.2.2.1) hkeeps.2 hrow'
        have hu' := hu.of_isPrefix (upTo_isPrefix hlog.pairwise q)
        exact h.effect hc (hup ▸ represents_of_changed hu' hev hnear hrow rfl ht) fault
    · simp at hs
  · simp only [Projector.step] at hs
    split at hs
    · rename_i e hp
      obtain ⟨⟨q, hn, hq⟩, ht⟩ := h.process _ hp
      rcases fault with _ | _ | _ <;> cases hs
      · refine ⟨fun _ => ht, by simp, fun pr hpr => ?_⟩
        cases hpr
        rfl
      · refine ⟨h.whole, h.half, fun pr hpr => ?_⟩
        cases hpr
        exact ⟨q, hn, hq⟩
      · refine ⟨fun _ => ht, by simp, fun pr hpr => ?_⟩
        cases hpr
        exact ⟨q, hn, .inr ⟨rfl, rfl⟩⟩
    · simp at hs

end Steps

theorem initial_inv (hlog : Increasing notExistsPosition log) : Inv log initial := by
  have hnil : upTo log notExistsPosition = [] := by
    refine List.filter_eq_nil_iff.2 fun e he => ?_
    simpa using hlog.above e he
  refine ⟨fun _ => ?_, by simp [initial], by simp [initial]⟩
  show Represents (upTo log notExistsPosition) []
  rw [hnil]
  exact ⟨⟨List.nodup_nil, List.nodup_nil⟩, fun r => by simp [IsUser]⟩

end Projector

/-- Wherever the checkpoint is, the table holds the users of the events up to it, if no event above
it has had its effect: on SQLite for every log, on PostgreSQL for those whose values its columns
store as they are. -/
theorem usersTable_is_fold {log : Log} (hlog : Increasing notExistsPosition log)
    (hu : UniqueLifecycles log) {cols : Columns}
    (hcols : cols = .sqlite ∨ cols = .postgres ∧ ∀ e ∈ log, cols.KeepsEvent e.event)
    {as : List Projector.Action} {s : Projector}
    (hr : Transition.run (Projector.step cols log) Projector.initial as = some s)
    (hwhole : s.halfHandled = false) (r : User) : r ∈ s.table ↔ IsUser (upTo log s.checkpoint) r := by
  have hkeeps : ∀ e ∈ log, cols.KeepsEvent e.event := by
    rcases hcols with rfl | ⟨-, h⟩
    · have hkeep : ∀ s, Columns.Keeps some s := fun s s' h => (Option.some.inj h).symm
      intro e _
      rcases e.event with c | u | ⟨u, h⟩ | u | ⟨t, u⟩ | t <;>
        simp [Columns.KeepsEvent, Columns.sqlite, hkeep]
    · exact h
  have hinv := Transition.run_invariant (I := Projector.Inv log)
    (fun _ _ _ h hs => h.step hlog hu hkeeps hs) (Projector.initial_inv hlog) hr
  exact (hinv.whole hwhole).rows r

def annaCreated : Log := [⟨⟨0, 0⟩, .userCreated ⟨"Anna", "u1", "anna", [.admin], "h0"⟩⟩]

def annaChanged : Log := annaCreated ++ [⟨⟨1, 1⟩, .userPasswordChanged "u1" "h1"⟩]

def annaId : String := "123e4567-e89b-12d3-a456-426614174000"

def uuidCreated : Log := [⟨⟨0, 0⟩, .userCreated ⟨"Anna", annaId, "anna", [.admin], "h0"⟩⟩]

def uuidChanged : Log := uuidCreated ++ [⟨⟨1, 1⟩, .userPasswordChanged annaId "h1"⟩]

/-- The creation takes effect twice, and the position of the password change is stored in a call that
fails. -/
def crashes : List Projector.Action :=
  [.start, .deliver, .handle .unacknowledged, .stop, .start, .deliver, .handle .none, .store .none,
    .deliver, .handle .none, .write .lost, .handle .none, .write .none, .store .unacknowledged]

theorem usersTable_is_fold_crashes : ∃ s,
    Transition.run (Projector.step .postgres uuidChanged) Projector.initial crashes = some s ∧
    s.checkpoint = ⟨1, 1⟩ ∧ s.table = [⟨annaId, "Anna", "anna", "h1", [.admin]⟩] ∧
    ∀ r, r ∈ s.table ↔ IsUser (upTo uuidChanged s.checkpoint) r := by
  obtain ⟨s, hs, hp⟩ := Transition.exists_run Projector.initial crashes
    (fun s => decide (s.halfHandled = false ∧ s.checkpoint = ⟨1, 1⟩ ∧
      s.table = [⟨annaId, "Anna", "anna", "h1", [.admin]⟩]))
    (by decide +kernel : (Transition.run (Projector.step .postgres uuidChanged) _ _).any _ = true)
  obtain ⟨hwhole, hpos, htable⟩ := of_decide_eq_true hp
  have hkeep : ∀ {column : String → Option String} {s : String}, column s = some s →
      Columns.Keeps column s := fun h s' hs' => Option.some.inj (hs'.symm.trans h)
  have hkeeps : ∀ e ∈ uuidChanged, Columns.postgres.KeepsEvent e.event := by
    simp only [uuidChanged, uuidCreated, List.cons_append, List.nil_append, List.forall_mem_cons,
      List.not_mem_nil, false_implies, implies_true, and_true]
    exact ⟨⟨hkeep (by decide +kernel), hkeep (by decide +kernel), hkeep (by decide +kernel),
      hkeep (by decide +kernel)⟩, hkeep (by decide +kernel), hkeep (by decide +kernel)⟩
  refine ⟨s, hs, hpos, htable, usersTable_is_fold ⟨by decide +kernel, by decide +kernel⟩ ?_
    (.inr ⟨rfl, hkeeps⟩) hs hwhole⟩
  have hnot : ∀ e ∈ uuidChanged, ∀ u, e.event ≠ .userDeleted u := by
    simp [uuidChanged, uuidCreated]
  refine ⟨by simp [uuidChanged, uuidCreated], by simp [uuidChanged, uuidCreated],
    by simp [uuidChanged, uuidCreated], fun before e after heq u hu => ?_⟩
  exact absurd hu (hnot e (by simp [heq]) u)

/-- Two users whose ids are one `uuid`, written differently. -/
def oneUuid : Log := uuidCreated ++
  [⟨⟨1, 1⟩, .userCreated ⟨"Bob", "123E4567-E89B-12D3-A456-426614174000", "bob", [], "h1"⟩⟩]

/-- On PostgreSQL the second user takes the row of the first. -/
theorem oneUuid_one_row :
    (Transition.run (Projector.step .postgres oneUuid) Projector.initial
      [.start, .deliver, .handle .none, .store .none, .deliver, .handle .none, .store .none]).map
      (fun s => (s.checkpoint, s.halfHandled, s.table.map User.username))
        = some (⟨1, 1⟩, false, ["bob"]) ∧
    (oneUuid.map fun e => e.event.field "user_id").Nodup := by
  decide +kernel

end Orisun.Admin.Users
