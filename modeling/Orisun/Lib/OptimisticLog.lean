import Mathlib.Data.List.Infix
import Mathlib.Data.List.Sort

/-!
# Optimistic appends to a log

Entries are only added at the end, at increasing positions. A query stands at the position of the
last entry it selects.
-/

namespace OptimisticLog

structure Entry (P α : Type*) where
  position : P
  event : α
  deriving DecidableEq, Repr

variable {P α : Type*}

def select (q : α → Bool) (log : List (Entry P α)) : List (Entry P α) :=
  log.filter fun e => q e.event

def latest? (q : α → Bool) (log : List (Entry P α)) : Option (Entry P α) :=
  (select q log).getLast?

/-- Where a query stands: at `bottom` where it selects nothing. -/
def standsAt (bottom : P) (q : α → Bool) (log : List (Entry P α)) : P :=
  ((latest? q log).map Entry.position).getD bottom

structure Increasing [LT P] (bottom : P) (log : List (Entry P α)) : Prop where
  pairwise : log.Pairwise fun e f => e.position < f.position
  above : ∀ e ∈ log, bottom < e.position

theorem select_append (q : α → Bool) (log more : List (Entry P α)) :
    select q (log ++ more) = select q log ++ select q more :=
  List.filter_append log more

theorem select_singleton (q : α → Bool) (e : Entry P α) :
    select q [e] = if q e.event then [e] else [] := by
  by_cases h : q e.event <;> simp [select, h]

variable {q : α → Bool}

theorem mem_select {log : List (Entry P α)} {e : Entry P α} :
    e ∈ select q log ↔ e ∈ log ∧ q e.event = true :=
  List.mem_filter

theorem select_select {r : α → Bool} (h : ∀ a, r a = true → q a = true) (log : List (Entry P α)) :
    select r (select q log) = select r log := by
  unfold select
  rw [List.filter_filter]
  refine List.filter_congr fun e _ => ?_
  rcases hr : r e.event with _ | _
  · rfl
  · rw [h _ hr]
    rfl

theorem latest?_mem {log : List (Entry P α)} {e : Entry P α} (h : latest? q log = some e) :
    e ∈ log ∧ q e.event = true :=
  mem_select.1 (List.mem_of_getLast? h)

theorem latest?_eq_none {log : List (Entry P α)} :
    latest? q log = none ↔ select q log = [] :=
  List.getLast?_eq_none_iff

section Standing

variable {bottom : P} {log : List (Entry P α)}

variable {q : α → Bool}

theorem standsAt_of_latest? {e : Entry P α} (h : latest? q log = some e) :
    standsAt bottom q log = e.position := by
  rw [standsAt, h]
  rfl

theorem standsAt_of_select_eq_nil (h : select q log = []) :
    standsAt bottom q log = bottom := by
  rw [standsAt, latest?_eq_none.2 h]
  rfl

theorem length_select_lt {before : List (Entry P α)} (hp : before <+: log)
    (hs : standsAt bottom q log ≠ standsAt bottom q before) :
    (select q before).length < (select q log).length := by
  obtain ⟨more, rfl⟩ := hp
  rw [select_append, List.length_append]
  have hq : select q more ≠ [] := by
    intro hq
    refine hs ?_
    rw [standsAt, standsAt, latest?, latest?, select_append, hq, List.append_nil]
  have := List.length_pos_of_ne_nil hq
  omega

end Standing

section Ordered

variable [LinearOrder P] {bottom : P} {log more : List (Entry P α)}

theorem increasing_nil : Increasing bottom ([] : List (Entry P α)) :=
  ⟨List.Pairwise.nil, by simp⟩

theorem Increasing.append_singleton (h : Increasing bottom log) {e : Entry P α}
    (hbottom : bottom < e.position) (he : ∀ f ∈ log, f.position < e.position) :
    Increasing bottom (log ++ [e]) := by
  constructor
  · refine List.pairwise_append.2 ⟨h.pairwise, List.pairwise_singleton _ _, ?_⟩
    intro f hf g hg
    rw [List.mem_singleton.1 hg]
    exact he f hf
  · intro f hf
    rcases List.mem_append.1 hf with hf | hf
    · exact h.above f hf
    · rw [List.mem_singleton.1 hf]
      exact hbottom

theorem Increasing.of_isPrefix (h : Increasing bottom log) {before : List (Entry P α)}
    (hp : before <+: log) : Increasing bottom before :=
  ⟨h.pairwise.sublist hp.sublist, fun e he => h.above e (hp.subset he)⟩

variable {q : α → Bool}

theorem Increasing.standsAt_lt (h : Increasing bottom (log ++ more)) (hq : select q more ≠ []) :
    standsAt bottom q log < standsAt bottom q (log ++ more) := by
  have hne : select q (log ++ more) ≠ [] := by
    rw [select_append]
    exact List.append_ne_nil_of_right_ne_nil _ hq
  obtain ⟨e, he⟩ := Option.ne_none_iff_exists'.1 fun hnone => hne (latest?_eq_none.1 hnone)
  have hlast : e ∈ select q more := by
    rw [latest?, select_append, List.getLast?_append_of_ne_nil _ hq] at he
    exact List.mem_of_getLast? he
  have hmore := (mem_select.1 hlast).1
  rw [standsAt_of_latest? he]
  rcases hl : latest? q log with _ | f
  · rw [standsAt_of_select_eq_nil (latest?_eq_none.1 hl)]
    exact h.above e (List.mem_append_right _ hmore)
  · rw [standsAt_of_latest? hl]
    exact (List.pairwise_append.1 h.pairwise).2.2 f (latest?_mem hl).1 e hmore

theorem Increasing.select_of_standsAt (h : Increasing bottom log) {before : List (Entry P α)}
    (hp : before <+: log) (hs : standsAt bottom q log = standsAt bottom q before) :
    select q log = select q before := by
  obtain ⟨more, rfl⟩ := hp
  by_cases hq : select q more = []
  · rw [select_append, hq, List.append_nil]
  · exact absurd hs (h.standsAt_lt hq).ne'

theorem insertionSort_eq_of_perm {events sorted : List (Entry P α)} (hp : events.Perm sorted)
    (h : sorted.Pairwise fun e f => e.position < f.position) :
    events.insertionSort (fun e f => e.position ≤ f.position) = sorted := by
  have : Std.Total fun e f : Entry P α => e.position ≤ f.position :=
    ⟨fun e f => le_total e.position f.position⟩
  have : IsTrans (Entry P α) fun e f => e.position ≤ f.position :=
    ⟨fun _ _ _ => le_trans⟩
  have hnodup : (sorted.map Entry.position).Nodup :=
    List.pairwise_map.2 (h.imp ne_of_lt)
  have hperm := (List.perm_insertionSort (fun e f => e.position ≤ f.position) events).trans hp
  refine List.Perm.eq_of_pairwise ?_ (List.pairwise_insertionSort _ events) (h.imp le_of_lt) hperm
  intro e f he hf hef hfe
  exact List.inj_on_of_nodup_map hnodup (hperm.subset he) hf (le_antisymm hef hfe)

end Ordered

end OptimisticLog
