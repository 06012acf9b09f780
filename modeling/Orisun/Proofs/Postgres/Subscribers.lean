import Orisun.Postgres.Subscribers
import Orisun.Proofs.Delivery
import Orisun.Proofs.Postgres.Cluster

/-!
# Subscriptions behind the barrier

The rows an ascending read shows are a beginning of the boundary that grows at its end, so the
reader on a cluster is a reader of a growing log.
-/

namespace Orisun.Postgres

open GrowingLog

def Cluster.stable (c : Cluster) : List Event :=
  (c.tables.events.filter fun row => row.readable c.xmin).map EventRow.event

theorem criteriaSelect_eq {criteria : List EncodedCriterion} {parts : List (List SqlPart)}
    (h : criteria.mapM orisunCriterionSql = .ok parts) (data : Json) :
    criteriaSelect parts data = (criteria.isEmpty || queryHolds criteria data) := by
  have hany : (parts.any fun part => selects part data) = queryHolds criteria data :=
    Attempt.any_mapM (fun c part hpart => selects_orisunCriterionSql hpart data) h
  have hempty : parts.isEmpty = criteria.isEmpty := by
    have htrue := Attempt.any_mapM (P := fun _ => true) (Q := fun _ => true)
      (fun _ _ _ => rfl) h
    rcases parts with _ | ⟨part, parts⟩ <;> rcases criteria with _ | ⟨c, criteria⟩ <;>
      first | rfl | cases htrue
  unfold criteriaSelect
  rw [hany, hempty]

theorem getBatch_eq {events : List EventRow} {xmin : ℤ} {query : Option Query} {cursor : Position}
    {rows : List EventRow} (hs : (events.map EventRow.position).Pairwise (· < ·))
    (h : getBatch events xmin query ⟨.asc, SubscriptionDrain.batchSize, some cursor⟩ = .ok rows) :
    rows.map EventRow.event = Orisun.getBatch (matchesQuery query)
      ((events.filter fun row => row.readable xmin).map EventRow.event)
      ⟨.asc, SubscriptionDrain.batchSize, some cursor⟩ := by
  unfold getBatch at h
  obtain ⟨-, -, h⟩ := Attempt.bind_eq_ok.1 h
  dsimp only at h
  split at h
  · cases h
  · rename_i found hfound
    cases h
    unfold getMatchingEventsV4 at hfound
    obtain ⟨parts, hparts, hfound⟩ := Attempt.bind_eq_ok.1 hfound
    cases hfound
    have hcount : min (max (if SubscriptionDrain.batchSize = 0 then defaultReadBatchSize
        else min SubscriptionDrain.batchSize maxReadBatchSize) 1) 10000
        = SubscriptionDrain.batchSize := by decide
    rw [List.mergeSort_of_pairwise, hcount]
    · unfold Orisun.getBatch since
      simp only [List.filter_map, List.map_take, List.filter_filter]
      refine congrArg (fun l : List EventRow =>
        (l.map EventRow.event).take SubscriptionDrain.batchSize) (List.filter_congr fun row _ => ?_)
      simp only [criteriaSelect_eq hparts, Direction.before, Function.comp_apply, EventRow.event,
        matchesQuery, Option.all_some, bne_self_eq_false, Bool.false_or]
      ac_rfl
    · refine List.Pairwise.filter _ ((List.pairwise_map.1 hs).imp fun hlt => ?_)
      simpa [Direction.before] using hlt.le

namespace Cluster

variable {c c' : Cluster}

variable {a : ClusterAction}

theorem step_events (ha : a.isInitialisation = false) (hs : c.step a = some c') :
    c.tables.events <+: c'.tables.events ∧ c'.initialized = c.initialized := by
  cases a with
  | begin => exact Option.some.inj hs ▸ ⟨List.prefix_rfl, rfl⟩
  | finish xid => exact Option.some.inj hs ▸ ⟨List.prefix_rfl, rfl⟩
  | lock => exact (lock_eq_some hs).2 ▸ ⟨List.prefix_rfl, rfl⟩
  | assign => exact (assign_eq_some hs).2 ▸ ⟨List.prefix_rfl, rfl⟩
  | insert st requests =>
    obtain ⟨xid, t, rows, -, -, -, rfl⟩ := insert_eq_some hs
    exact ⟨List.prefix_rfl, rfl⟩
  | commit =>
    obtain ⟨xid, events, writes, -, rfl⟩ := commit_eq_some hs
    exact ⟨List.prefix_append .., rfl⟩
  | abort drawn =>
    obtain ⟨sequence, -, rfl⟩ := abort_eq_some hs
    exact ⟨List.prefix_rfl, rfl⟩
  | release => exact (release_eq_some hs).2 ▸ ⟨List.prefix_rfl, rfl⟩
  | initBegin => cases ha
  | initUpdate => cases ha
  | initCommit => cases ha
  | initAbort => cases ha

theorem initialisesInOrder_of (ha : a.isInitialisation = false) :
    c.InitialisesInOrder a := by
  cases a with
  | initCommit => cases ha
  | _ => trivial

theorem stable_grows (h : c.Inv) (hi : c.initialized = true) (ha : a.isInitialisation = false)
    (hs : c.step a = some c') : c.stable <+: c'.stable := by
  have h' := inv_step h (initialisesInOrder_of ha) hs
  have hmin := (step_later h.xids hs).xmin_le h.xids
  obtain ⟨hevents, hi'⟩ := step_events ha hs
  exact (filter_grows hevents (fun _ => readable_mono hmin) (h.stable hi)
    (h'.stable (hi'.trans hi))).map EventRow.event

theorem Inv.events_sorted (h : c.Inv) :
    Sorted Event.position (c.tables.events.map EventRow.event) :=
  List.pairwise_map.2 (List.pairwise_map.1 h.sorted)

theorem Inv.stable_sorted (h : c.Inv) : Sorted Event.position c.stable :=
  h.events_sorted.sublist (List.filter_sublist.map _)

end Cluster

namespace Subscriber

variable {query : Option Query} {start : Position} {s s' : Subscriber}

structure Inv (query : Option Query) (start : Position) (s : Subscriber) : Prop where
  cluster : s.cluster.Inv
  initialized : s.cluster.initialized = true
  reader : Reader.Inv (matchesQuery query) (some start) s.cluster.stable none s.reader

theorem inv_read (h : Inv query start s) (hs : s.read query = some s') : Inv query start s' := by
  unfold read at hs
  split at hs
  · cases hs
  · rename_i rows hrows
    obtain ⟨reader, hr, rfl⟩ := Option.map_eq_some_iff.1 hs
    obtain ⟨hinit, hcursor⟩ := h.reader.started rfl
    obtain ⟨cursor, hcursor⟩ := Option.isSome_iff_exists.1 hcursor
    have hreq : s.reader.drain.request = ⟨.asc, SubscriptionDrain.batchSize, some cursor⟩ := by
      unfold SubscriptionDrain.request
      rw [if_pos hinit, hcursor]
    rw [hreq] at hrows
    have hbatch := getBatch_eq h.cluster.sorted hrows
    rw [hbatch, ← hreq] at hr
    refine ⟨h.cluster, h.initialized, ?_⟩
    rw [← Cluster.stable, ← List.take_length (l := s.cluster.stable)] at hr
    have hread := h.reader.read le_rfl hr
    rwa [if_pos hinit] at hread

theorem inv_step {a : SubscriberAction} (h : Inv query start s) (hs : s.step query a = some s') :
    Inv query start s' := by
  cases a with
  | cluster a =>
    simp only [step] at hs
    split_ifs at hs with ha
    obtain ⟨c, hc, rfl⟩ := Option.map_eq_some_iff.1 hs
    have ha := Bool.eq_false_iff.2 ha
    have hinv := Cluster.inv_step h.cluster (Cluster.initialisesInOrder_of ha) hc
    obtain ⟨new, hnew⟩ := Cluster.stable_grows h.cluster h.initialized ha hc
    refine ⟨hinv, (Cluster.step_events ha hc).2.trans h.initialized, ?_⟩
    have hsorted : Sorted Event.position (s.cluster.stable ++ new) := by
      rw [hnew]
      exact hinv.stable_sorted
    obtain ⟨-, hn, habove⟩ := List.pairwise_append.1 hsorted
    have hgrow := h.reader.grow hn habove
    rwa [hnew] at hgrow
  | wake =>
    cases hs
    exact ⟨h.cluster, h.initialized, h.reader.wake⟩
  | read => exact inv_read h hs
  | reader a =>
    obtain ⟨reader, hr, rfl⟩ := Option.map_eq_some_iff.1 hs
    exact ⟨h.cluster, h.initialized, Reader.inv_step h.reader hr⟩
  | restart =>
    obtain ⟨reader, hr, rfl⟩ := Option.map_eq_some_iff.1 hs
    obtain ⟨-, rfl⟩ := Reader.restart_eq_some hr
    exact ⟨h.cluster, h.initialized, h.reader.restart⟩

theorem step_committed {a : SubscriberAction} (hs : s.step query a = some s') :
    s.cluster.tables.events <+: s'.cluster.tables.events := by
  cases a with
  | cluster a =>
    simp only [step] at hs
    split_ifs at hs with ha
    obtain ⟨c, hc, rfl⟩ := Option.map_eq_some_iff.1 hs
    exact (Cluster.step_events (Bool.eq_false_iff.2 ha) hc).1
  | wake => exact Option.some.inj hs ▸ List.prefix_rfl
  | read =>
    change s.read query = some s' at hs
    unfold read at hs
    split at hs
    · cases hs
    · obtain ⟨reader, -, rfl⟩ := Option.map_eq_some_iff.1 hs
      exact List.prefix_rfl
  | reader a =>
    obtain ⟨reader, -, rfl⟩ := Option.map_eq_some_iff.1 hs
    exact List.prefix_rfl
  | restart =>
    obtain ⟨reader, -, rfl⟩ := Option.map_eq_some_iff.1 hs
    exact List.prefix_rfl

theorem Inv.delivered_prefix (h : Inv query start s) :
    s.reader.delivered <+: s.cluster.committed query start := by
  have hstable : s.cluster.stable <+: s.cluster.tables.events.map EventRow.event :=
    (filter_isPrefix (h.cluster.stable h.initialized)).map _
  exact h.reader.delivered_prefix.trans ((hstable.filter _).filter _)

end Subscriber

/-- What a subscription from a position has delivered at any moment is a beginning of the matching
events that are committed after that position in the end, which are in order. -/
theorem subscriber_delivers_stablePrefix (start : QuietCluster) (hi : start.cluster.initialized = true)
    (query : Option Query) (after : Position) (actions more : List SubscriberAction)
    (s s' : Subscriber)
    (hrun : Transition.run (Subscriber.step query) ⟨start.cluster, .initial (some after)⟩ actions
      = some s)
    (hmore : Transition.run (Subscriber.step query) s more = some s') :
    s.reader.delivered <+: s'.cluster.committed query after ∧
      Sorted Event.position (s'.cluster.committed query after) := by
  have h0 : Subscriber.Inv query after ⟨start.cluster, .initial (some after)⟩ := by
    refine ⟨start.quiet.inv, hi, ?_⟩
    exact (Reader.inv_initial (some after)).grow start.quiet.inv.stable_sorted (by simp [Above])
  have h := Transition.run_invariant (fun _ _ _ h hs => Subscriber.inv_step h hs) h0 hrun
  have h' := Transition.run_invariant (fun _ _ _ h hs => Subscriber.inv_step h hs) h hmore
  have hgrows : s.cluster.tables.events <+: s'.cluster.tables.events :=
    Transition.run_invariant (I := fun t => s.cluster.tables.events <+: t.cluster.tables.events)
      (fun _ _ _ h hs => h.trans (Subscriber.step_committed hs)) List.prefix_rfl hmore
  refine ⟨h.delivered_prefix.trans (((hgrows.map _).filter _).filter _), ?_⟩
  exact (h'.cluster.events_sorted.filter _).filter _

def initialisedCluster : QuietCluster := emptyCluster true

/-- Another transaction begins between two writes; the first page has the older event only. -/
theorem subscriber_behind_barrier :
    ∃ s s', Transition.run (Subscriber.step none) ⟨initialisedCluster.cluster,
        .initial (some ⟨0, 0⟩)⟩ (sampleWrite.map .cluster ++ [.cluster .begin] ++
          sampleWrite.map .cluster ++ [.wake, .reader .receive, .reader (.check none none), .read,
            .reader (.handle none none none)]) = some s ∧
      Transition.run (Subscriber.step none) s [.cluster (.finish 11)] = some s' ∧
      s.reader.delivered.map Event.position = [⟨1, 0⟩] ∧
      s.reader.delivered <+: s'.cluster.committed none ⟨0, 0⟩ := by
  have hrun : (Transition.run (Subscriber.step none) ⟨initialisedCluster.cluster,
      .initial (some ⟨0, 0⟩)⟩ (sampleWrite.map .cluster ++ [.cluster .begin] ++
        sampleWrite.map .cluster ++ [.wake, .reader .receive, .reader (.check none none), .read,
          .reader (.handle none none none)])).map
        (fun s => s.reader.delivered.map Event.position) = some [⟨1, 0⟩] := by decide +kernel
  obtain ⟨s, hs, hdelivered⟩ := Option.map_eq_some_iff.1 hrun
  refine ⟨s, _, hs, rfl, hdelivered, ?_⟩
  exact (subscriber_delivers_stablePrefix initialisedCluster rfl none ⟨0, 0⟩ _ [.cluster (.finish 11)] s
    _ hs rfl).1

end Orisun.Postgres
