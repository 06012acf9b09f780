import Orisun.Postgres.Cluster
import Orisun.Proofs.Postgres.InsertEventRequests

/-!
# The visibility barrier

XIDs grow and a writer takes its own after the lock, so writers mark their rows in the order of
their positions. Hidden rows are therefore followed by hidden rows, unless an initialisation unmarks
rows above them.
-/

namespace Orisun.Postgres

variable {st : Statement} {requests : List Request} {t t' : Tables}

theorem insertAccepted_marks {b : Batch} (h : insertAccepted st requests b t = .ok t') :
    ∃ new, t'.events = t.events ++ new ∧ ∀ row ∈ new, row.pgXactId = some st.currentXactId := by
  unfold insertAccepted at h
  obtain ⟨rows, hrows, h⟩ := Attempt.bind_eq_ok.1 h
  dsimp only at h
  split_ifs at h
  cases h
  refine ⟨rows, rfl, ?_⟩
  refine (Attempt.forall_mem_mapM (P := fun _ => True) (fun e row hrow => ?_) hrows).2 (by simp)
  simp only [iff_true]
  unfold insertedRow at hrow
  split at hrow
  · cases hrow
  · obtain ⟨document, -, hrow⟩ := Attempt.bind_eq_ok.1 hrow
    split_ifs at hrow
    rw [← Except.ok.inj hrow]

theorem insertEventRequestsV2_marks {rows : List ResultRow}
    (h : insertEventRequestsV2 st t requests = .ok (t', rows)) :
    ∃ new, t'.events = t.events ++ new ∧ ∀ row ∈ new, row.pgXactId = some st.currentXactId := by
  unfold insertEventRequestsV2 at h
  split_ifs at h
  obtain ⟨plan, -, h⟩ := Attempt.bind_eq_ok.1 h
  obtain ⟨b, -, h⟩ := Attempt.bind_eq_ok.1 h
  dsimp only at h
  split_ifs at h
  · obtain ⟨u, hu, h⟩ := Attempt.bind_eq_ok.1 h
    obtain rfl : u = t' := (Prod.mk.inj (Except.ok.inj h)).1
    exact insertAccepted_marks hu
  · obtain rfl : t = t' := (Prod.mk.inj (Except.ok.inj h)).1
    exact ⟨[], (List.append_nil _).symm, by simp⟩

theorem insertEventRequestsV2_adds {rows : List ResultRow} (hs : t.log.Sound)
    (hv : ∀ r ∈ requests, ValidRequest r) (h : insertEventRequestsV2 st t requests = .ok (t', rows)) :
    t'.log.Sound ∧ t.sequence ≤ t'.sequence ∧
      (∃ new, t'.events = t.events ++ new ∧ (new.map EventRow.position).Pairwise (· < ·) ∧
        (∀ row ∈ t.events, ∀ row' ∈ new, row.position < row'.position) ∧
        ∀ row ∈ new, row.pgXactId = some st.currentXactId) ∧
      ∃ writes, t'.writes = t.writes ++ writes := by
  obtain ⟨new, hnew, hmarks⟩ := insertEventRequestsV2_marks h
  obtain ⟨outs, hall, -⟩ := insertEventRequestsV2_eq_ok hs hv h
  obtain ⟨⟨hseq, ⟨stored, hstored, hsorted, hlt⟩, hwrites⟩, hsound⟩ := Log.extends_saveAll hs hall
  have hmap : new.map EventRow.stored = stored := by
    have he : t'.events.map EventRow.stored = t.events.map EventRow.stored ++ stored := hstored
    rw [hnew, List.map_append] at he
    exact List.append_cancel_left he
  refine ⟨hsound, hseq, ⟨new, hnew, ?_, fun row hrow row' hrow' => ?_, hmarks⟩, hwrites⟩
  · rw [← hmap, List.pairwise_map] at hsorted
    rw [List.pairwise_map]
    exact hsorted
  · have hle := (hs.events row.stored (List.mem_map_of_mem hrow)).2.2
    have hgt := hlt row'.stored (hmap ▸ List.mem_map_of_mem hrow')
    rw [Position.lt_iff]
    exact .inl (hle.trans_lt hgt)

namespace Cluster

variable {c c' : Cluster}

variable {x : ℤ}

theorem mem_inProgress : x ∈ c.inProgress ↔
    x ∈ c.others ∨ c.writer.xid = some x ∨ c.initializer.xid = some x := by
  unfold inProgress
  simp only [List.mem_append, Option.mem_toList, or_assoc]

theorem xmin_le (h : x ∈ c.inProgress) : c.xmin ≤ x := by
  unfold xmin
  rcases hm : c.inProgress.min? with _ | m
  · rw [List.min?_eq_none_iff] at hm
    rw [hm] at h
    cases h
  · exact (List.min?_eq_some_iff.1 hm).2 x h

theorem xmin_cases : c.xmin ∈ c.inProgress ∨ c.inProgress = [] ∧ c.xmin = c.nextXid := by
  unfold xmin
  rcases hm : c.inProgress.min? with _ | m
  · exact .inr ⟨List.min?_eq_none_iff.1 hm, rfl⟩
  · exact .inl (List.min?_mem hm)

theorem xmin_le_nextXid (h : ∀ x ∈ c.inProgress, x < c.nextXid) : c.xmin ≤ c.nextXid := by
  rcases c.xmin_cases with hm | ⟨-, hm⟩
  · exact (h _ hm).le
  · exact hm.le

/-- Transactions only end, or take an XID that is new. -/
structure Later (c c' : Cluster) : Prop where
  xids : ∀ x ∈ c'.inProgress, x < c'.nextXid
  nextXid : c.nextXid ≤ c'.nextXid
  inProgress : ∀ x ∈ c'.inProgress, x ∈ c.inProgress ∨ c.nextXid ≤ x

theorem Later.xmin_le (h : Later c c') (hx : ∀ x ∈ c.inProgress, x < c.nextXid) :
    c.xmin ≤ c'.xmin := by
  have hnext := xmin_le_nextXid hx
  rcases c'.xmin_cases with hm | ⟨-, hm⟩
  · rcases h.inProgress _ hm with hold | hnew
    · exact Cluster.xmin_le hold
    · exact hnext.trans hnew
  · rw [hm]
    exact hnext.trans h.nextXid

theorem readable_mono {row : EventRow} {y : ℤ} (hxy : x ≤ y) (h : row.readable x = true) :
    row.readable y = true := by
  unfold EventRow.readable at h ⊢
  rcases hm : row.pgXactId with _ | v
  · rfl
  · rw [hm] at h
    simp only [Option.all_some, decide_eq_true_eq] at h ⊢
    omega

theorem readable_eq_false {row : EventRow} :
    row.readable x = false ↔ ∃ v ∈ row.pgXactId, x ≤ v := by
  unfold EventRow.readable
  rcases row.pgXactId with _ | v <;> simp

theorem lock_eq_some (h : c.lock = some c') :
    c.writer = .free ∧ c' = { c with writer := .locked } := by
  unfold lock at h
  split at h
  · exact ⟨by assumption, (Option.some.inj h).symm⟩
  · cases h

theorem assign_eq_some (h : c.assign = some c') : c.writer = .locked ∧
    c' = { c with nextXid := c.nextXid + 1, writer := .begun c.nextXid } := by
  unfold assign at h
  split at h
  · exact ⟨by assumption, (Option.some.inj h).symm⟩
  · cases h

theorem insert_eq_some {st : Statement} {requests : List Request}
    (h : c.insert st requests = some c') : ∃ xid t rows, c.writer = .begun xid ∧
      (∀ r ∈ requests, ValidRequest r) ∧
      insertEventRequestsV2 { st with currentXactId := xid } c.tables requests = .ok (t, rows) ∧
      c' = { c with
        writer := .inserted xid (t.events.drop c.tables.events.length)
          (t.writes.drop c.tables.writes.length)
        tables := { c.tables with sequence := t.sequence } } := by
  unfold insert at h
  split at h
  case h_2 => cases h
  case h_1 xid hw =>
    split_ifs at h with hv
    split at h
    · cases h
    · rename_i t rows hins
      exact ⟨xid, t, rows, hw, hv, hins, (Option.some.inj h).symm⟩

theorem commit_eq_some (h : c.commit = some c') : ∃ xid events writes,
    c.writer = .inserted xid events writes ∧
      c' = { c with
        writer := .ended
        tables := { c.tables with
          events := c.tables.events ++ events
          writes := c.tables.writes ++ writes } } := by
  unfold commit at h
  split at h
  · exact ⟨_, _, _, by assumption, (Option.some.inj h).symm⟩
  · cases h

theorem abort_eq_some {drawn : ℕ} (h : c.abort drawn = some c') :
    ∃ sequence, c.tables.sequence ≤ sequence ∧
      c' = { c with writer := .ended, tables := { c.tables with sequence := sequence } } := by
  unfold abort at h
  split at h
  · exact ⟨_, le_rfl, (Option.some.inj h).symm⟩
  · exact ⟨_, Int.le_add_of_nonneg_right (Int.natCast_nonneg drawn), (Option.some.inj h).symm⟩
  · exact ⟨_, le_rfl, (Option.some.inj h).symm⟩
  · cases h

theorem release_eq_some (h : c.release = some c') :
    c.writer = .ended ∧ c' = { c with writer := .free } := by
  unfold release at h
  split at h
  · exact ⟨by assumption, (Option.some.inj h).symm⟩
  · cases h

theorem initBegin_eq_some (h : c.initBegin = some c') : c.initializer = .idle ∧
    c' = { c with nextXid := c.nextXid + 1, initializer := .begun c.nextXid } := by
  unfold initBegin at h
  split at h
  · exact ⟨by assumption, (Option.some.inj h).symm⟩
  · cases h

theorem initUpdate_eq_some (h : c.initUpdate = some c') : ∃ xid, c.initializer = .begun xid ∧
    c' = { c with
      initializer := .updated xid ((c.tables.events.filter fun row =>
        row.pgXactId.any fun v => v ≥ xid).map EventRow.globalId) } := by
  unfold initUpdate at h
  split at h
  · exact ⟨_, by assumption, (Option.some.inj h).symm⟩
  · cases h

theorem initCommit_eq_some (h : c.initCommit = some c') : ∃ xid nulled,
    c.initializer = .updated xid nulled ∧
      c' = { c with
        initializer := .idle
        tables := { c.tables with events := c.tables.events.map (EventRow.unmark nulled) }
        initialized := true } := by
  unfold initCommit at h
  split at h
  · exact ⟨_, _, by assumption, (Option.some.inj h).symm⟩
  · cases h

theorem initAbort_eq_some (h : c.initAbort = some c') : c' = { c with initializer := .idle } := by
  unfold initAbort at h
  split at h
  · cases h
  · exact (Option.some.inj h).symm

theorem Later.of (hx : ∀ x ∈ c.inProgress, x < c.nextXid) (hnext : c.nextXid ≤ c'.nextXid)
    (hin : ∀ x ∈ c'.inProgress, x ∈ c.inProgress ∨ c.nextXid ≤ x ∧ x < c'.nextXid) :
    Later c c' where
  xids := fun x h => (hin x h).elim (fun h => (hx x h).trans_le hnext) And.right
  nextXid := hnext
  inProgress := fun x h => (hin x h).imp_right And.left

theorem Later.same (hx : ∀ x ∈ c.inProgress, x < c.nextXid) (hnext : c'.nextXid = c.nextXid)
    (hin : ∀ x ∈ c'.inProgress, x ∈ c.inProgress) : Later c c' :=
  .of hx hnext.ge fun x h => .inl (hin x h)

theorem Later.take (hx : ∀ x ∈ c.inProgress, x < c.nextXid) (hnext : c'.nextXid = c.nextXid + 1)
    (hin : ∀ x ∈ c'.inProgress, x ∈ c.inProgress ∨ x = c.nextXid) : Later c c' :=
  .of hx (by omega) fun x h => (hin x h).imp_right fun he => by omega

theorem step_later {a : ClusterAction} (hx : ∀ x ∈ c.inProgress, x < c.nextXid)
    (hs : c.step a = some c') : Later c c' := by
  cases a with
  | begin =>
    cases hs
    refine .take hx rfl fun x h => ?_
    simp only [mem_inProgress, List.mem_append, List.mem_singleton] at h ⊢
    tauto
  | finish xid =>
    cases hs
    refine .same hx rfl fun x h => ?_
    rw [mem_inProgress] at h ⊢
    exact h.imp_left List.mem_of_mem_erase
  | lock =>
    obtain ⟨hw, rfl⟩ := lock_eq_some hs
    refine .same hx rfl fun x h => ?_
    simpa only [mem_inProgress, hw, Writer.xid] using h
  | assign =>
    obtain ⟨hw, rfl⟩ := assign_eq_some hs
    refine .take hx rfl fun x h => ?_
    simp only [mem_inProgress, Writer.xid, Option.some.injEq] at h ⊢
    tauto
  | insert st requests =>
    obtain ⟨xid, t, rows, hw, -, -, rfl⟩ := insert_eq_some hs
    refine .same hx rfl fun x h => ?_
    simpa only [mem_inProgress, hw, Writer.xid] using h
  | commit =>
    obtain ⟨xid, events, writes, hw, rfl⟩ := commit_eq_some hs
    refine .same hx rfl fun x h => ?_
    simp only [mem_inProgress, Writer.xid, reduceCtorEq, false_or] at h ⊢
    tauto
  | abort drawn =>
    obtain ⟨sequence, -, rfl⟩ := abort_eq_some hs
    refine .same hx rfl fun x h => ?_
    simp only [mem_inProgress, Writer.xid, reduceCtorEq, false_or] at h ⊢
    tauto
  | release =>
    obtain ⟨hw, rfl⟩ := release_eq_some hs
    refine .same hx rfl fun x h => ?_
    simpa only [mem_inProgress, hw, Writer.xid] using h
  | initBegin =>
    obtain ⟨hi, rfl⟩ := initBegin_eq_some hs
    refine .take hx rfl fun x h => ?_
    simp only [mem_inProgress, Initializer.xid, Option.some.injEq] at h ⊢
    tauto
  | initUpdate =>
    obtain ⟨xid, hi, rfl⟩ := initUpdate_eq_some hs
    refine .same hx rfl fun x h => ?_
    simpa only [mem_inProgress, hi, Initializer.xid] using h
  | initCommit =>
    obtain ⟨xid, nulled, hi, rfl⟩ := initCommit_eq_some hs
    refine .same hx rfl fun x h => ?_
    simp only [mem_inProgress, Initializer.xid, reduceCtorEq, or_false] at h ⊢
    tauto
  | initAbort =>
    obtain rfl := initAbort_eq_some hs
    refine .same hx rfl fun x h => ?_
    simp only [mem_inProgress, Initializer.xid, reduceCtorEq, or_false] at h ⊢
    tauto

/-- The rows a writer has inserted go above the committed ones and have its mark. -/
def Pending (c : Cluster) : Prop :=
  ∀ xid events writes, c.writer = .inserted xid events writes →
    ({ c.tables with
      events := c.tables.events ++ events
      writes := c.tables.writes ++ writes } : Tables).log.Sound ∧
    ((c.tables.events ++ events).map EventRow.position).Pairwise (· < ·) ∧
    ∀ row ∈ events, row.pgXactId = some xid

/-- The rows an initialisation does not unmark have marks of this cluster. Those it has not seen
follow the others, and their marks grow. -/
structure NulledRows (c : Cluster) (xid : ℤ) (nulled : List ℤ) : Prop where
  seen : ∀ g ∈ nulled, g ∈ c.tables.events.map EventRow.globalId
  marks : ∀ row ∈ c.tables.events, row.globalId ∉ nulled → ∀ v ∈ row.pgXactId, v < c.nextXid
  rows : c.tables.events.Pairwise fun row row' => row.globalId ∉ nulled →
    ∀ v ∈ row.pgXactId, xid ≤ v → row'.globalId ∉ nulled ∧ ∃ w ∈ row'.pgXactId, v ≤ w
  writer : ∀ x ∈ c.writer.xid, ∀ row ∈ c.tables.events, row.globalId ∉ nulled →
    ∀ v ∈ row.pgXactId, xid ≤ v → v ≤ x

def Nulled (c : Cluster) : Prop :=
  ∀ xid nulled, c.initializer = .updated xid nulled → c.NulledRows xid nulled

structure Inv (c : Cluster) : Prop where
  xids : ∀ x ∈ c.inProgress, x < c.nextXid
  sound : c.tables.log.Sound
  sorted : (c.tables.events.map EventRow.position).Pairwise (· < ·)
  pending : c.Pending
  nulled : c.Nulled
  initialized : c.initialized = true →
    c.Ordered ∧ ∀ row ∈ c.tables.events, ∀ v ∈ row.pgXactId, v < c.nextXid

theorem Quiet.inv (h : c.Quiet) : c.Inv where
  xids := fun x hx => by
    rw [mem_inProgress, h.writer, h.initializer] at hx
    rcases hx with hx | hx | hx
    · exact h.xids x hx
    · cases hx
    · cases hx
  sound := h.sound
  sorted := h.sorted
  pending := fun _ _ _ hw => by
    rw [h.writer] at hw
    cases hw
  nulled := fun _ _ hi => by
    rw [h.initializer] at hi
    cases hi
  initialized := h.initialized

theorem Ordered.move (h : c.Ordered) (hmin : c.xmin ≤ c'.xmin)
    (he : c'.tables.events = c.tables.events)
    (hmarks : ∀ row ∈ c.tables.events, ∀ v ∈ row.pgXactId, v < c.nextXid)
    (hw : ∀ x ∈ c'.writer.xid, x ∈ c.writer.xid ∨ c.nextXid ≤ x) : c'.Ordered where
  rows := by
    rw [he]
    exact h.rows.imp fun hrow v hv hle => hrow v hv (hmin.trans hle)
  writer := fun x hx row hrow v hv hle => by
    rw [he] at hrow
    rcases hw x hx with hx | hx
    · exact h.writer x hx row hrow v hv (hmin.trans hle)
    · exact (hmarks row hrow v hv).le.trans hx

theorem Inv.move (h : c.Inv) (hl : Later c c') (hs : c'.tables.log.Sound)
    (he : c'.tables.events = c.tables.events) (hi : c'.initialized = c.initialized)
    (hw : ∀ x ∈ c'.writer.xid, x ∈ c.writer.xid ∨ c.nextXid ≤ x) (hp : c'.Pending)
    (hn : c'.Nulled) : c'.Inv where
  xids := hl.xids
  sound := hs
  sorted := he ▸ h.sorted
  pending := hp
  nulled := hn
  initialized := fun hinit => by
    obtain ⟨hord, hmarks⟩ := h.initialized (hi ▸ hinit)
    refine ⟨hord.move (hl.xmin_le h.xids) he hmarks hw, fun row hrow v hv => ?_⟩
    rw [he] at hrow
    exact (hmarks row hrow v hv).trans_le hl.nextXid

theorem Nulled.mono (h : c.Nulled) (hi : c'.initializer = c.initializer)
    (he : c'.tables.events = c.tables.events) (hx : c.nextXid ≤ c'.nextXid)
    (hw : ∀ x ∈ c'.writer.xid, x ∈ c.writer.xid ∨ c.nextXid ≤ x) : c'.Nulled := by
  intro xid nulled hu
  obtain ⟨hseen, hmarks, hrows, hwriter⟩ := h xid nulled (hi ▸ hu)
  refine ⟨he ▸ hseen, ?_, he ▸ hrows, ?_⟩
  · intro row hrow hnot v hv
    rw [he] at hrow
    exact (hmarks row hrow hnot v hv).trans_le hx
  · intro x hx' row hrow hnot v hv hle
    rw [he] at hrow
    rcases hw x hx' with hold | hnew
    · exact hwriter x hold row hrow hnot v hv hle
    · exact (hmarks row hrow hnot v hv).le.trans hnew

theorem Inv.end_xid (h : c.Inv) (hl : Later c c') (ht : c'.tables = c.tables)
    (hi : c'.initialized = c.initialized) (hw : ∀ x ∈ c'.writer.xid, x ∈ c.writer.xid)
    (hp : c'.Pending) (hn : c'.Nulled) : c'.Inv :=
  h.move hl (ht ▸ h.sound) (by rw [ht]) hi (fun x hx => .inl (hw x hx)) hp hn

theorem Inv.writer (h : c.Inv) {w : Writer} (hw : w.xid = none) :
    ({ c with writer := w } : Cluster).Inv := by
  refine h.end_xid (.same h.xids rfl fun x hx => ?_) rfl rfl (fun x hx => ?_) ?_
    (h.nulled.mono rfl rfl le_rfl fun x hx => by simp [hw] at hx)
  · rw [mem_inProgress] at hx ⊢
    rcases hx with hx | hx | hx
    · exact .inl hx
    · simp only [hw, reduceCtorEq] at hx
    · exact .inr (.inr hx)
  · simp only [hw, Option.mem_def, reduceCtorEq] at hx
  · rintro xid events writes rfl
    cases hw

theorem Inv.assign (h : c.Inv) (hl : Later c c') (hc : c.assign = some c') : c'.Inv := by
  obtain ⟨hw, rfl⟩ := assign_eq_some hc
  exact h.move hl h.sound rfl rfl (fun x hx => .inr (Option.some.inj hx).le)
    (fun _ _ _ h => by cases h)
    (h.nulled.mono rfl rfl hl.nextXid fun x hx => .inr (Option.some.inj hx).le)

theorem Inv.insert (h : c.Inv) {st : Statement} {requests : List Request}
    (hl : Later c c') (hc : c.insert st requests = some c') : c'.Inv := by
  obtain ⟨xid, t, rows, hw, hv, hins, rfl⟩ := insert_eq_some hc
  obtain ⟨hsound, hseq, ⟨new, hnew, hsorted, hlt, hmarks⟩, ⟨writes, hwrites⟩⟩ :=
    insertEventRequestsV2_adds h.sound hv hins
  have hwriter : ∀ x ∈ (Writer.inserted xid (t.events.drop c.tables.events.length)
      (t.writes.drop c.tables.writes.length)).xid, x ∈ c.writer.xid ∨ c.nextXid ≤ x :=
    fun x hx => .inl (by rw [hw]; exact hx)
  refine h.move hl (h.sound.draw hseq) rfl rfl hwriter ?_ (h.nulled.mono rfl rfl le_rfl hwriter)
  rintro xid' events writes' heq
  obtain ⟨rfl, rfl, rfl⟩ := Writer.inserted.inj heq
  rw [hnew, hwrites, List.drop_left, List.drop_left]
  refine ⟨?_, ?_, hmarks⟩
  · rw [← hnew, ← hwrites]
    exact hsound
  · rw [List.map_append, List.pairwise_append]
    refine ⟨h.sorted, hsorted, ?_⟩
    simp only [List.forall_mem_map]
    exact hlt

theorem Ordered.commit (h : c.Ordered) {new : List EventRow} (hmin : c.xmin ≤ c'.xmin)
    (hx : c.writer.xid = some x) (hw : c'.writer.xid = none)
    (he : c'.tables.events = c.tables.events ++ new) (hnew : ∀ row ∈ new, row.pgXactId = some x) :
    c'.Ordered where
  rows := by
    rw [he, List.pairwise_append]
    refine ⟨h.rows.imp fun hrow v hv hle => hrow v hv (hmin.trans hle), ?_, ?_⟩
    · refine List.pairwise_of_forall_mem_list fun row hrow row' hrow' v hv _ => ?_
      rw [hnew row hrow] at hv
      exact ⟨x, hnew row' hrow', (Option.some.inj hv).ge⟩
    · intro row hrow row' hrow' v hv hle
      exact ⟨x, hnew row' hrow', h.writer x hx row hrow v hv (hmin.trans hle)⟩
  writer := fun x hx => by
    rw [hw] at hx
    cases hx

theorem NulledRows.commit {nulled : List ℤ} {xid : ℤ} {new : List EventRow}
    (h : c.NulledRows xid nulled) (hx : c.writer.xid = some x) (hxid : x < c.nextXid)
    (hnext : c'.nextXid = c.nextXid) (hw : c'.writer.xid = none)
    (he : c'.tables.events = c.tables.events ++ new) (hnew : ∀ row ∈ new, row.pgXactId = some x)
    (hids : ((c.tables.events ++ new).map EventRow.globalId).Nodup) :
    c'.NulledRows xid nulled where
  seen := fun g hg => by
    rw [he, List.map_append]
    exact List.mem_append_left _ (h.seen g hg)
  marks := fun row hrow hnot v hv => by
    rw [he] at hrow
    rw [hnext]
    rcases List.mem_append.1 hrow with hrow | hrow
    · exact h.marks row hrow hnot v hv
    · rw [hnew row hrow] at hv
      exact Option.some.inj hv ▸ hxid
  rows := by
    have hfresh : ∀ row ∈ new, row.globalId ∉ nulled := by
      intro row hrow hin
      rw [List.map_append] at hids
      exact (List.nodup_append.1 hids).2.2 _ (h.seen _ hin) _ (List.mem_map_of_mem hrow) rfl
    rw [he, List.pairwise_append]
    refine ⟨h.rows, ?_, ?_⟩
    · refine List.pairwise_of_forall_mem_list fun row hrow row' hrow' _ v hv _ => ?_
      rw [hnew row hrow] at hv
      exact ⟨hfresh row' hrow', x, hnew row' hrow', (Option.some.inj hv).ge⟩
    · intro row hrow row' hrow' hnot v hv hle
      exact ⟨hfresh row' hrow', x, hnew row' hrow', h.writer x hx row hrow hnot v hv hle⟩
  writer := fun x hx => by
    rw [hw] at hx
    cases hx

theorem globalIds_nodup {t : Tables} (h : t.log.Sound) : (t.events.map EventRow.globalId).Nodup := by
  have hids := h.globalIds
  rw [Tables.log, List.map_map] at hids
  exact hids

theorem Inv.commit (h : c.Inv) (hl : Later c c') (hc : c.commit = some c') : c'.Inv := by
  obtain ⟨xid, events, writes, hw, rfl⟩ := commit_eq_some hc
  obtain ⟨hsound, hsorted, hmarks⟩ := h.pending xid events writes hw
  have hx : c.writer.xid = some xid := by rw [hw]; rfl
  have hxid : xid < c.nextXid := h.xids xid (mem_inProgress.2 (.inr (.inl hx)))
  refine ⟨hl.xids, hsound, hsorted, (fun _ _ _ h => by cases h), ?_, fun hinit => ?_⟩
  · exact fun x nulled hu => (h.nulled x nulled hu).commit hx hxid rfl rfl rfl hmarks
      (globalIds_nodup hsound)
  · obtain ⟨hord, hall⟩ := h.initialized hinit
    refine ⟨hord.commit (hl.xmin_le h.xids) hx rfl rfl hmarks, fun row hrow v hv => ?_⟩
    rcases List.mem_append.1 hrow with hrow | hrow
    · exact hall row hrow v hv
    · rw [hmarks row hrow] at hv
      exact Option.some.inj hv ▸ hxid

theorem Inv.abort (h : c.Inv) (hl : Later c c') {drawn : ℕ} (hc : c.abort drawn = some c') :
    c'.Inv := by
  obtain ⟨sequence, hseq, rfl⟩ := abort_eq_some hc
  exact h.move hl (h.sound.draw hseq) rfl rfl (fun x hx => by cases hx)
    (fun _ _ _ h => by cases h) (h.nulled.mono rfl rfl le_rfl fun x hx => by cases hx)

theorem Inv.initUpdate (h : c.Inv) (hl : Later c c') (hc : c.initUpdate = some c') :
    c'.Inv := by
  obtain ⟨xid, hi, rfl⟩ := initUpdate_eq_some hc
  have hxid : xid < c.nextXid :=
    h.xids xid (mem_inProgress.2 (.inr (.inr (by rw [hi]; rfl))))
  refine h.end_xid hl rfl rfl (fun x hx => hx) h.pending ?_
  rintro xid' nulled heq
  obtain ⟨rfl, rfl⟩ := Initializer.updated.inj heq
  have hbelow : ∀ row ∈ c.tables.events, row.globalId ∉ ((c.tables.events.filter fun row =>
      row.pgXactId.any fun v => v ≥ xid).map EventRow.globalId) → ∀ v ∈ row.pgXactId, v < xid := by
    intro row hrow hnot v hv
    by_contra hge
    refine hnot (List.mem_map_of_mem (List.mem_filter.2 ⟨hrow, ?_⟩))
    rw [Option.mem_def] at hv
    simp only [hv, Option.any_some, decide_eq_true_eq]
    omega
  refine ⟨?_, fun row hrow hnot v hv => (hbelow row hrow hnot v hv).trans hxid, ?_, ?_⟩
  · exact fun g hg => List.map_subset _ (List.filter_subset_self _) hg
  · exact List.pairwise_of_forall_mem_list fun row hrow _ _ hnot v hv hle =>
      absurd (hbelow row hrow hnot v hv) (not_lt.2 hle)
  · exact fun _ _ row hrow hnot v hv hle => absurd (hbelow row hrow hnot v hv) (not_lt.2 hle)

@[simp] theorem stored_unmark (nulled : List ℤ) (row : EventRow) :
    (row.unmark nulled).stored = row.stored := by
  unfold EventRow.unmark
  split_ifs <;> rfl

theorem map_stored_unmark (nulled : List ℤ) (events : List EventRow) :
    (events.map (EventRow.unmark nulled)).map EventRow.stored = events.map EventRow.stored := by
  simp only [List.map_map, Function.comp_def, stored_unmark]

theorem map_position_unmark (nulled : List ℤ) (events : List EventRow) :
    (events.map (EventRow.unmark nulled)).map EventRow.position = events.map EventRow.position := by
  have h := congrArg (List.map StoredEvent.position) (map_stored_unmark nulled events)
  simpa only [List.map_map, Function.comp_def, EventRow.stored] using h

theorem mem_unmark {nulled : List ℤ} {row : EventRow} {v : ℤ} :
    v ∈ (row.unmark nulled).pgXactId ↔ row.globalId ∉ nulled ∧ v ∈ row.pgXactId := by
  unfold EventRow.unmark
  split_ifs with hin <;> simp [hin]

/-- What is hidden after the commit was so before it, and is kept in order. -/
theorem Inv.ordered_initCommit (h : c.Inv) (hl : Later c c') (hc : c.initCommit = some c')
    (ha : c.InitialisesInOrder .initCommit) : c'.Ordered := by
  obtain ⟨xid, nulled, hi, rfl⟩ := initCommit_eq_some hc
  have hmin := hl.xmin_le h.xids
  obtain ⟨-, -, hrows, hwriter⟩ := h.nulled xid nulled hi
  rcases hinit : c.initialized with _ | _ <;>
    simp only [InitialisesInOrder, hi, hinit] at ha
  · have hunseen : ∀ row ∈ c.tables.events, ∀ v ∈ row.pgXactId, c.xmin ≤ v → xid ≤ v :=
      fun row hrow v hv hle => not_lt.1 fun hlt => absurd (ha row hrow v hv hlt) (not_lt.2 hle)
    refine ⟨List.pairwise_map.2 (hrows.imp_of_mem fun hrow _ hpair v hv hle => ?_), ?_⟩
    · obtain ⟨hnot, hv⟩ := mem_unmark.1 hv
      obtain ⟨hnot', w, hw, hvw⟩ := hpair hnot v hv (hunseen _ hrow v hv (hmin.trans hle))
      exact ⟨w, mem_unmark.2 ⟨hnot', hw⟩, hvw⟩
    · intro x hx row hrow v hv hle
      obtain ⟨row, hmem, rfl⟩ := List.mem_map.1 hrow
      obtain ⟨hnot, hv⟩ := mem_unmark.1 hv
      exact hwriter x hx row hmem hnot v hv (hunseen row hmem v hv (hmin.trans hle))
  · obtain ⟨⟨hord, hordw⟩, -⟩ := h.initialized hinit
    refine ⟨List.pairwise_map.2 ((hord.and ha).imp fun hpair v hv hle => ?_), ?_⟩
    · obtain ⟨hnot, hv⟩ := mem_unmark.1 hv
      obtain ⟨w, hw, hvw⟩ := hpair.1 v hv (hmin.trans hle)
      refine ⟨w, mem_unmark.2 ⟨fun hin => ?_, hw⟩, hvw⟩
      have hfalse := readable_eq_false.2 ⟨v, hv, hmin.trans hle⟩
      rw [hpair.2 hin hnot] at hfalse
      cases hfalse
    · intro x hx row hrow v hv hle
      obtain ⟨row, hmem, rfl⟩ := List.mem_map.1 hrow
      exact hordw x hx row hmem v (mem_unmark.1 hv).2 (hmin.trans hle)

theorem Inv.initCommit (h : c.Inv) (hl : Later c c') (hc : c.initCommit = some c')
    (ha : c.InitialisesInOrder .initCommit) : c'.Inv := by
  have hord := h.ordered_initCommit hl hc ha
  obtain ⟨xid, nulled, hi, rfl⟩ := initCommit_eq_some hc
  refine ⟨hl.xids, ?_, ?_, fun x events writes hw => ?_, (fun _ _ h => by cases h),
    fun _ => ⟨hord, fun row hrow v hv => ?_⟩⟩
  · have hs := h.sound
    unfold Tables.log at hs ⊢
    rwa [map_stored_unmark]
  · dsimp only
    rw [map_position_unmark]
    exact h.sorted
  · obtain ⟨hs, hsorted, hmarks⟩ := h.pending x events writes hw
    refine ⟨?_, ?_, hmarks⟩
    · unfold Tables.log at hs ⊢
      dsimp only at hs ⊢
      rwa [List.map_append, map_stored_unmark, ← List.map_append]
    · dsimp only
      rwa [List.map_append, map_position_unmark, ← List.map_append]
  · obtain ⟨row, hmem, rfl⟩ := List.mem_map.1 hrow
    obtain ⟨hin, hv⟩ := mem_unmark.1 hv
    exact (h.nulled xid nulled hi).marks row hmem hin v hv

theorem inv_step {a : ClusterAction} (h : c.Inv) (ha : c.InitialisesInOrder a)
    (hc : c.step a = some c') : c'.Inv := by
  have hl := step_later h.xids hc
  cases a with
  | begin =>
    cases hc
    exact h.end_xid hl rfl rfl (fun x hx => hx) h.pending
      (h.nulled.mono rfl rfl hl.nextXid fun x hx => .inl hx)
  | finish xid =>
    cases hc
    exact h.end_xid hl rfl rfl (fun x hx => hx) h.pending
      (h.nulled.mono rfl rfl le_rfl fun x hx => .inl hx)
  | lock =>
    obtain ⟨-, rfl⟩ := lock_eq_some hc
    exact h.writer rfl
  | assign => exact h.assign hl hc
  | insert st requests => exact h.insert hl hc
  | commit => exact h.commit hl hc
  | abort drawn => exact h.abort hl hc
  | release =>
    obtain ⟨-, rfl⟩ := release_eq_some hc
    exact h.writer rfl
  | initBegin =>
    obtain ⟨-, rfl⟩ := initBegin_eq_some hc
    exact h.end_xid hl rfl rfl (fun x hx => hx) h.pending (fun _ _ h => by cases h)
  | initUpdate => exact h.initUpdate hl hc
  | initCommit => exact h.initCommit hl hc ha
  | initAbort =>
    obtain rfl := initAbort_eq_some hc
    exact h.end_xid hl rfl rfl (fun x hx => hx) h.pending (fun _ _ h => by cases h)

theorem Inv.stable (h : c.Inv) (hi : c.initialized = true) :
    c.tables.events.Pairwise fun row row' =>
      row'.readable c.xmin = true → row.readable c.xmin = true := by
  obtain ⟨hord, -⟩ := h.initialized hi
  refine hord.rows.imp fun {row row'} hrow hread => ?_
  by_contra hhidden
  obtain ⟨v, hv, hle⟩ := readable_eq_false.1 (Bool.eq_false_iff.2 hhidden)
  obtain ⟨w, hw, hvw⟩ := hrow v hv hle
  have hfalse := readable_eq_false.2 ⟨w, hw, hle.trans hvw⟩
  rw [hread] at hfalse
  cases hfalse

theorem Inv.stablePrefix (h : c.Inv) (hi : c.initialized = true) : c.StablePrefix := by
  intro row hrow row' hrow' hlt hread
  have hstable := List.pairwise_iff_getElem.1 (h.stable hi)
  have hsorted := List.pairwise_iff_getElem.1 (List.pairwise_map.1 h.sorted)
  obtain ⟨i, hi, rfl⟩ := List.mem_iff_getElem.1 hrow
  obtain ⟨j, hj, rfl⟩ := List.mem_iff_getElem.1 hrow'
  rcases lt_trichotomy i j with hij | rfl | hij
  · exact hstable i j hi hj hij hread
  · exact absurd hlt (lt_irrefl _)
  · exact absurd hlt (hsorted j i hj hi hij).asymm

end Cluster

/-- In a run whose initialisations unmark no row above a hidden one, and the first of which keeps no
mark that hides a row, readers always see a beginning of the boundary. -/
theorem cluster_stablePrefix (start : QuietCluster) (actions : List ClusterAction) (c : Cluster)
    (ha : Transition.Along Cluster.step Cluster.InitialisesInOrder start.cluster actions)
    (hrun : Transition.run Cluster.step start.cluster actions = some c)
    (hi : c.initialized = true) : c.StablePrefix := by
  have hinv : c.Inv := Transition.run_invariant_along
    (fun _ _ _ h ha hs => Cluster.inv_step h ha hs) start.quiet.inv ha hrun
  exact hinv.stablePrefix hi

/-- An empty boundary, with or without an initialisation behind it. -/
def emptyCluster (initialized : Bool) : QuietCluster where
  cluster := ⟨10, [], .free, .idle, freshBoundary.tables, initialized⟩
  quiet :=
    { xids := by simp
      writer := rfl
      initializer := rfl
      sound := freshBoundary.sound
      sorted := .nil
      initialized := fun _ => ⟨⟨.nil, by simp [freshBoundary]⟩, by simp [freshBoundary]⟩ }

def sampleWrite : List ClusterAction :=
  [.lock, .assign, .insert sampleStatement
    [⟨[], [⟨"1", "Opened", [], none⟩], by simp⟩], .commit, .release]

/-- An initialisation after a write that a transaction in progress hides; then another write. -/
theorem initialised_after_write : ∃ c, Transition.run Cluster.step (emptyCluster true).cluster
    ((.begin :: sampleWrite ++ [.initBegin, .initUpdate]) ++ .initCommit :: sampleWrite) = some c ∧
      (c.tables.events.map fun row => row.readable c.xmin) = [false, false] ∧ c.StablePrefix := by
  have hrun : (Transition.run Cluster.step (emptyCluster true).cluster
      ((.begin :: sampleWrite ++ [.initBegin, .initUpdate]) ++ .initCommit :: sampleWrite)).map
      (fun c => (c.initialized, c.tables.events.map fun row => row.readable c.xmin))
      = some (true, [false, false]) := by decide +kernel
  have hmid : (Transition.run Cluster.step (emptyCluster true).cluster
      (.begin :: sampleWrite ++ [.initBegin, .initUpdate])).map
      (fun c => (c.initialized, c.tables.events.length)) = some (true, 1) := by decide +kernel
  obtain ⟨c, hc, hf⟩ := Option.map_eq_some_iff.1 hrun
  obtain ⟨hi, hrows⟩ := Prod.mk.inj hf
  refine ⟨c, hc, hrows,
    cluster_stablePrefix (emptyCluster true) _ c (Transition.along_append ?_ ?_) hc hi⟩
  · exact Transition.along_of_mem _ (by simp [sampleWrite, Cluster.InitialisesInOrder])
  · intro m hm
    rw [hm, Option.map_some, Option.some.injEq, Prod.mk.injEq] at hmid
    refine ⟨?_, fun _ _ => Transition.along_of_mem _
      (by simp [sampleWrite, Cluster.InitialisesInOrder])⟩
    obtain ⟨row, hrow⟩ := List.length_eq_one_iff.1 hmid.2
    unfold Cluster.InitialisesInOrder
    split
    · simp [hrow]
    · simp_all
    · trivial

/-- The initialisation takes its XID between two writes, and the older one stays hidden behind a
transaction in progress. -/
def initialisedBetween : List ClusterAction :=
  .begin :: sampleWrite ++ [.initBegin] ++ sampleWrite ++ [.initUpdate, .initCommit]

theorem initialisedBetween_hides : ∃ c, Transition.run Cluster.step (emptyCluster false).cluster
    initialisedBetween = some c ∧ c.initialized = true ∧ ¬ c.StablePrefix := by
  have hrun : (Transition.run Cluster.step (emptyCluster false).cluster initialisedBetween).map
      (fun c => (c.initialized, c.tables.events.any fun row => c.tables.events.any fun row' =>
        row.position < row'.position && row'.readable c.xmin && !row.readable c.xmin))
      = some (true, true) := by decide +kernel
  obtain ⟨c, hc, hf⟩ := Option.map_eq_some_iff.1 hrun
  obtain ⟨hi, hhidden⟩ := Prod.mk.inj hf
  refine ⟨c, hc, hi, fun h => ?_⟩
  simp only [List.any_eq_true, Bool.and_eq_true, decide_eq_true_eq, Bool.not_eq_true'] at hhidden
  obtain ⟨row, hrow, row', hrow', ⟨hlt, hread⟩, hfalse⟩ := hhidden
  rw [h row hrow row' hrow' hlt hread] at hfalse
  cases hfalse

end Orisun.Postgres
