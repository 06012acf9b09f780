import Orisun.Admin.BoundaryProvisioning
import Orisun.Proofs.Admin.BoundaryRuntime

/-!
# Provisioning under the lease

A node becomes busy only by an event that is handed over, which the lease is checked for. So where
no node loses the lease while it is busy, whoever is busy holds it.
-/

namespace Orisun.Admin

variable {decode : Event → AdminEvent}

section Busy

variable {R : Type} {handler : EventHandler R} {p : Event → Bool} {exclusive : Bool}
  {log : List Event} {s s' : Subscriber R}

theorem Subscriber.busy_eq_true : s.busy = true ↔ s.loops ≠ [] ∨ s.main.current.isSome = true := by
  simp [Subscriber.busy]

theorem Subscriber.busy_of_run? {slot : Slot} {run : R} (h : s.run? slot = some run) :
    s.busy = true := by
  refine Subscriber.busy_eq_true.2 ?_
  rcases Subscriber.runs_of_run? h with ⟨source, event, hm⟩ | ⟨event, hmem⟩
  · exact .inr (by rw [hm]; rfl)
  · exact .inl (List.ne_nil_of_mem hmem)

theorem Subscriber.busy_source {a : SourceAction}
    (hs : s.step handler p exclusive log (.source a) = some s') : s'.busy = s.busy := by
  obtain ⟨m, hm, rfl⟩ := Option.map_eq_some_iff.1 hs
  simp only [Subscriber.busy, (MainState.current_step hm).1]

theorem Subscriber.busy_step {a : SubscriberAction R}
    (hs : s.step handler p exclusive log a = some s') (hb : s'.busy = true) :
    s.busy = true ∨ a = .hand := by
  cases a with
  | source a => exact .inl ((Subscriber.busy_source hs).symm.trans hb)
  | hand => exact .inr rfl
  | advance slot run =>
    obtain ⟨run', hrun, -⟩ := Option.map_eq_some_iff.1 hs
    exact .inl (Subscriber.busy_of_run? hrun)
  | returned =>
    simp only [Subscriber.step] at hs
    split at hs
    · rename_i source event run hm
      exact .inl (Subscriber.busy_eq_true.2 (.inr (by rw [hm]; rfl)))
    · cases hs
  | schedule =>
    simp only [Subscriber.step] at hs
    split at hs
    · rename_i source event hm
      exact .inl (Subscriber.busy_eq_true.2 (.inr (by rw [hm]; rfl)))
    · cases hs
  | setPosition =>
    simp only [Subscriber.step] at hs
    split at hs
    · rename_i source event hm
      exact .inl (Subscriber.busy_eq_true.2 (.inr (by rw [hm]; rfl)))
    · cases hs
  | fire i =>
    simp only [Subscriber.step] at hs
    split at hs
    · rename_i event hi
      exact .inl (Subscriber.busy_eq_true.2 (.inl (List.ne_nil_of_mem (List.mem_of_getElem? hi))))
    · cases hs
  | loopReturned i =>
    simp only [Subscriber.step] at hs
    split at hs
    · rename_i event run hi
      exact .inl (Subscriber.busy_eq_true.2 (.inl (List.ne_nil_of_mem (List.mem_of_getElem? hi))))
    · cases hs
  | leave i =>
    simp only [Subscriber.step] at hs
    split at hs
    · rename_i event hi
      exact .inl (Subscriber.busy_eq_true.2 (.inl (List.ne_nil_of_mem (List.mem_of_getElem? hi))))
    · cases hs

end Busy

namespace Cluster

variable {c c' : Cluster}

structure Inv (c : Cluster) : Prop where
  held : ∀ i s, c.nodes[i]? = some s → s.busy = true → c.holder = some i
  exclusive : Exclusive c

theorem inv_initial (n : ℕ) : (initial n).Inv where
  held i s hs hb := by
    rw [initial, List.getElem?_replicate] at hs
    split_ifs at hs
    cases hs
    cases hb
  exclusive i holder h := by cases h

variable {i : ℕ} {s : Subscriber ProvisionRun}

theorem Inv.setNode (h : c.Inv) (hs : s.busy = true → c.holder = some i) : (c.setNode i s).Inv where
  held j t hj hb := by
    by_cases hij : i = j
    · subst hij
      have hlt : i < c.nodes.length := by
        have := (List.getElem?_eq_some_iff.1 hj).1
        simpa [Cluster.setNode] using this
      rw [Cluster.setNode, List.getElem?_set_self hlt] at hj
      cases hj
      exact hs hb
    · rw [Cluster.setNode, List.getElem?_set_ne hij] at hj
      exact h.held j t hj hb
  exclusive := h.exclusive

theorem Inv.record (h : c.Inv) (hi : c.holder = some i) : (c.record i).Inv where
  held := h.held
  exclusive j holder hmem := by
    rcases List.mem_cons.1 hmem with heq | hmem
    · cases heq
      exact hi
    · exact h.exclusive j holder hmem

theorem command?_eq_some {slot : Slot} {d : Definition} {k : Handler}
    (h : c.command? i slot = some (s, d, k)) :
    c.nodes[i]? = some s ∧ s.run? slot = some (.command d k) := by
  obtain ⟨t, ht, h⟩ := Option.bind_eq_some_iff.1 h
  split at h
  · rename_i hrun
    cases h
    exact ⟨ht, hrun⟩
  · cases h

theorem Inv.held_of_command (h : c.Inv) {slot : Slot} {d : Definition} {k : Handler}
    (hc : c.command? i slot = some (s, d, k)) :
    c.holder = some i := by
  obtain ⟨hs, hrun⟩ := command?_eq_some hc
  exact h.held i s hs (Subscriber.busy_of_run? hrun)

theorem step_subscriber {a : SubscriberAction ProvisionRun}
    (hs : c.step decode (.subscriber i a) = some c') :
    (a = .hand → c.holder = some i) ∧ c.subscriber decode i a = some c' := by
  have hsub : a ≠ .hand → c.subscriber decode i a = some c' := by
    intro hne
    cases a with
    | hand => exact absurd rfl hne
    | advance slot run => cases hs
    | source a => cases a <;> first | exact hs | cases hs
    | _ => exact hs
  by_cases ha : a = .hand
  · subst ha
    simp only [step] at hs
    split_ifs at hs with hi
    exact ⟨fun _ => hi, hs⟩
  · exact ⟨fun h => absurd h ha, hsub ha⟩

theorem inv_step {a : ClusterAction} (h : c.Inv) (ha : a.Orderly c)
    (hs : c.step decode a = some c') : c'.Inv := by
  cases a with
  | append event =>
    obtain ⟨log', -, rfl⟩ := Option.map_eq_some_iff.1 hs
    exact ⟨h.held, h.exclusive⟩
  | acquire i =>
    simp only [step, Cluster.acquire] at hs
    split_ifs at hs with hnone
    obtain ⟨s, -, rfl⟩ := Option.map_eq_some_iff.1 hs
    have hidle : Inv { c with holder := some i } := by
      refine ⟨fun j t ht hb => ?_, h.exclusive⟩
      rw [h.held j t ht hb] at hnone
      cases hnone
    exact hidle.setNode fun _ => rfl
  | lose =>
    cases hs
    refine ⟨fun i s hnode hb => ?_, h.exclusive⟩
    rw [ha i s (h.held i s hnode hb) hnode] at hb
    cases hb
  | stop i =>
    obtain ⟨s', hs', rfl⟩ := Option.map_eq_some_iff.1 hs
    obtain ⟨s, hnode, hstep⟩ := Option.bind_eq_some_iff.1 hs'
    have hidle : s.busy = false := ha s hnode
    have hreleased : Inv { c with holder := if c.holder = some i then none else c.holder } := by
      refine ⟨fun j t ht hb => ?_, h.exclusive⟩
      have hj := h.held j t ht hb
      have hne : c.holder ≠ some i := by
        intro hi
        obtain rfl := Option.some.inj (hj.symm.trans hi)
        obtain rfl := Option.some.inj (ht.symm.trans hnode)
        rw [hidle] at hb
        cases hb
      show (if c.holder = some i then none else c.holder) = some j
      rw [if_neg hne, hj]
    refine hreleased.setNode fun hb => ?_
    rw [Subscriber.busy_source hstep, hidle] at hb
    cases hb
  | subscriber i a =>
    obtain ⟨hhand, hsub⟩ := step_subscriber hs
    obtain ⟨s, hnode, hsub⟩ := Option.bind_eq_some_iff.1 hsub
    obtain ⟨s', hstep, hsub⟩ := Option.bind_eq_some_iff.1 hsub
    cases hsub
    refine h.setNode fun hb => ?_
    rcases Subscriber.busy_step hstep hb with hbusy | heq
    · exact h.held i s hnode hbusy
    · exact hhand heq
  | load i slot =>
    obtain ⟨⟨s, d, k⟩, hc, hs⟩ := Option.bind_eq_some_iff.1 hs
    obtain ⟨k', -, hs⟩ := Option.bind_eq_some_iff.1 hs
    have hi := h.held_of_command hc
    have hset : (c.setNode i (s.setRun (.ofHandler d k') slot)).Inv := h.setNode fun _ => hi
    cases hs
    split
    · exact hset.record hi
    · exact hset
  | provision i slot error =>
    obtain ⟨⟨s, d, k⟩, hc, hs⟩ := Option.bind_eq_some_iff.1 hs
    obtain ⟨k', -, hs⟩ := Option.bind_eq_some_iff.1 hs
    cases hs
    exact h.setNode fun _ => h.held_of_command hc
  | appendOutcome i slot event fault =>
    obtain ⟨⟨s, d, k⟩, hc, hs⟩ := Option.bind_eq_some_iff.1 hs
    obtain ⟨⟨outcome, holds⟩, -, hs⟩ := Option.bind_eq_some_iff.1 hs
    have hi := h.held_of_command hc
    have hset : ∀ s' log, Inv { c.setNode i s' with log } := fun s' log =>
      ⟨(h.setNode fun _ => hi).held, h.exclusive⟩
    dsimp only at hs
    by_cases hdecode : decode event ≠ outcome
    · rw [if_pos hdecode] at hs
      cases hs
    · rw [if_neg hdecode] at hs
      obtain ⟨stored, -, hs⟩ := Option.bind_eq_some_iff.1 hs
      cases hs
      exact (hset _ _).record hi
  | ensureGlobal i slot ok =>
    obtain ⟨s, hnode, hs⟩ := Option.bind_eq_some_iff.1 hs
    split at hs
    · rename_i hrun
      cases hs
      exact h.setNode fun _ => h.held i s hnode (Subscriber.busy_of_run? hrun)
    · cases hs

end Cluster

/-- Where no node loses or gives up the lease while it is in a call of the handler or has a retry
loop, whoever starts to provision or sends an outcome holds it. -/
theorem provisioning_exclusive (decode : Event → AdminEvent) (n : ℕ) {as : List ClusterAction}
    {c : Cluster}
    (horderly : Transition.Along (Cluster.step decode) (fun c a => a.Orderly c) (Cluster.initial n)
      as)
    (hrun : Transition.run (Cluster.step decode) (Cluster.initial n) as = some c) :
    Exclusive c :=
  (Transition.run_invariant_along (fun _ _ _ h ha hs => Cluster.inv_step h ha hs)
    (Cluster.inv_initial n) horderly hrun).exclusive

/-- A definition reaches the node that holds the lease, which starts to provision. -/
def leasedRun : List ClusterAction :=
  [.append (lifecycleEvent "$BoundaryCreated" "orders" ⟨1, 0⟩), .acquire 0,
    .subscriber 0 (.source .wake), .subscriber 0 (.source (.reader .receive)),
    .subscriber 0 (.source (.reader (.check none none))), .subscriber 0 (.source (.read 1)),
    .subscriber 0 .hand, .load 0 .main]

theorem leasedRun_exclusive : ∃ c,
    Transition.run (Cluster.step sampleDecode) (Cluster.initial 2) leasedRun = some c ∧
      c.acted = [(0, some 0)] ∧ Exclusive c := by
  have hrun : (Transition.run (Cluster.step sampleDecode) (Cluster.initial 2) leasedRun).any
      (fun c => decide (c.acted = [(0, some 0)])) = true := by
    decide +kernel
  obtain ⟨c, hc, hacted⟩ := (Option.any_eq_true _ _).1 hrun
  refine ⟨c, hc, of_decide_eq_true hacted, provisioning_exclusive sampleDecode 2 ?_ hc⟩
  refine Transition.along_of_mem _ fun a ha c => ?_
  simp only [leasedRun, List.mem_cons, List.not_mem_nil, or_false] at ha
  rcases ha with rfl | rfl | rfl | rfl | rfl | rfl | rfl | rfl <;> trivial

/-- The provisioner fails, the lease goes to the other node, and the retry loop of the first starts
to provision again. -/
theorem retry_without_lease : ∃ c,
    Transition.run (Cluster.step sampleDecode) (Cluster.initial 2) (leasedRun ++
      [.provision 0 .main (some "timeout"),
        .appendOutcome 0 .main (lifecycleEvent "$BoundaryProvisioningFailed" "orders" ⟨2, 1⟩) .none,
        .subscriber 0 .returned, .subscriber 0 .schedule, .subscriber 0 .setPosition, .lose,
        .acquire 1, .subscriber 0 (.fire 0), .load 0 (.loop 0)]) = some c ∧
      (0, some 1) ∈ c.acted ∧ ¬ Exclusive c := by
  have hrun : (Transition.run (Cluster.step sampleDecode) (Cluster.initial 2) (leasedRun ++
      [.provision 0 .main (some "timeout"),
        .appendOutcome 0 .main (lifecycleEvent "$BoundaryProvisioningFailed" "orders" ⟨2, 1⟩) .none,
        .subscriber 0 .returned, .subscriber 0 .schedule, .subscriber 0 .setPosition, .lose,
        .acquire 1, .subscriber 0 (.fire 0), .load 0 (.loop 0)])).any
      (fun c => decide ((0, some 1) ∈ c.acted)) = true := by
    decide +kernel
  obtain ⟨c, hc, hacted⟩ := (Option.any_eq_true _ _).1 hrun
  have hmem := of_decide_eq_true hacted
  refine ⟨c, hc, hmem, fun hexclusive => ?_⟩
  cases hexclusive 0 (some 1) hmem

end Orisun.Admin
