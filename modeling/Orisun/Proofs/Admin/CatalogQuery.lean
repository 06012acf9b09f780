import Orisun.Admin.CatalogQuery
import Orisun.Proofs.Admin.BoundaryRuntime
import Orisun.Proofs.Admin.ProvisioningContext

/-!
# A replay applies every lifecycle event once

A page is at most the cursor's own event and some of the events after it (`page_eq`), so what has
been applied after a page are the matching events up to the cursor (`Reached`).
-/

namespace Orisun.Admin

open GrowingLog OptimisticLog

variable {decode : Event → AdminEvent} {query : Event → Bool}

def entries (decode : Event → AdminEvent) (events : List Event) : List LogEntry :=
  events.map (logEntry decode)

def lastPosition (cursor : Position) (events : List Event) : Position :=
  (events.getLast?.map Event.position).getD cursor

/-- What a replay has applied: the matching events up to its cursor. -/
structure Reached (decode : Event → AdminEvent) (matching : List Event) (c : Catalog)
    (cursor : Position) : Prop where
  applied : Catalog.replay (entries decode (GrowingLog.upTo Event.position cursor matching)) = .ok c
  cursor : cursor = notExistsPosition ∨ ∃ e ∈ matching, e.position = cursor

theorem Reached.initial {matching : List Event}
    (h : ∀ e ∈ matching, notExistsPosition < e.position) :
    Reached decode matching [] notExistsPosition where
  applied := by
    rw [upTo_eq_nil h]
    rfl
  cursor := .inl rfl

theorem Reached.grows {matching more : List Event} {c : Catalog} {cursor : Position}
    (h : Reached decode matching c cursor) (hmore : ∀ e ∈ more, notExistsPosition < e.position)
    (habove : Above Event.position matching more) :
    Reached decode (matching ++ more) c cursor where
  applied := by
    have hlt : ∀ e ∈ more, cursor < e.position := by
      rcases h.cursor with hc | ⟨f, hf, hc⟩
      · exact hc ▸ hmore
      · exact hc ▸ habove f hf
    rw [upTo_append, upTo_eq_nil hlt, List.append_nil]
    exact h.applied
  cursor := h.cursor.imp id fun ⟨e, he, hc⟩ => ⟨e, List.mem_append_left _ he, hc⟩

theorem entries_append (events more : List Event) :
    entries decode (events ++ more) = entries decode events ++ entries decode more :=
  List.map_append

section Page

variable {matching : List Event} {c : Catalog} {cursor : Position} {xs ys : List Event}

theorem Reached.replay (h : Reached decode matching c cursor)
    (hs : Sorted Event.position matching)
    (hxs : after Event.position (some cursor) matching = xs ++ ys) :
    Catalog.replay (entries decode matching)
      = c.applyAll (entries decode xs) >>= fun c' => c'.applyAll (entries decode ys) := by
  have hcut := @upTo_append_after _ _ _ Event.position cursor _ hs
  rw [← hcut, hxs, entries_append, Catalog.replay_append, h.applied, entries_append]
  show c.applyAll (entries decode xs ++ entries decode ys) = _
  rw [Catalog.applyAll, List.foldlM_append]
  rfl

theorem Reached.next (h : Reached decode matching c cursor) (hs : Sorted Event.position matching)
    (hxs : after Event.position (some cursor) matching = xs ++ ys) (hne : xs ≠ []) {c' : Catalog}
    (hc' : c.applyAll (entries decode xs) = .ok c') :
    Reached decode matching c' (lastPosition cursor xs) ∧
      (after Event.position (some (lastPosition cursor xs)) matching).length
        < (after Event.position (some cursor) matching).length := by
  obtain ⟨init, last, rfl⟩ := (List.eq_nil_or_concat' xs).resolve_left hne
  have hlast : lastPosition cursor (init ++ [last]) = last.position := by
    rw [lastPosition, List.getLast?_concat]
    rfl
  have hsplit : GrowingLog.upTo Event.position cursor matching ++ init ++ last :: ys = matching := by
    have hcut := @upTo_append_after _ _ _ Event.position cursor _ hs
    rw [hxs] at hcut
    simpa using hcut
  have hmem : last ∈ after Event.position (some cursor) matching := by
    rw [hxs]
    simp
  have hupTo : GrowingLog.upTo Event.position last.position matching
      = GrowingLog.upTo Event.position cursor matching ++ (init ++ [last]) := by
    have hcut := @upTo_cut _ _ _ Event.position _ ys last (hsplit.symm ▸ hs)
    rwa [hsplit, List.append_assoc] at hcut
  rw [hlast]
  refine ⟨⟨?_, .inr ⟨last, (mem_after.1 hmem).1, rfl⟩⟩, ?_⟩
  · rw [hupTo, entries_append, Catalog.replay_append, h.applied]
    exact hc'
  · exact length_after_lt (mem_after.1 hmem).1 fun q hq =>
      Option.some.inj hq ▸ (mem_after.1 hmem).2

end Page

section Loop

variable {snapshots : ℕ → List Event}

/-- The log as pages see it: in order, and growing at its end. -/
structure Growing (snapshots : ℕ → List Event) : Prop where
  sorted : ∀ i, Sorted Event.position (snapshots i)
  above : ∀ i, ∀ e ∈ snapshots i, notExistsPosition < e.position
  grows : ∀ i, snapshots i <+: snapshots (i + 1)

theorem Reached.succ (hg : Growing snapshots) {page : ℕ} {c : Catalog} {cursor : Position}
    (h : Reached decode ((snapshots page).filter query) c cursor) :
    Reached decode ((snapshots (page + 1)).filter query) c cursor := by
  obtain ⟨more, hmore⟩ := hg.grows page
  have hsorted := hg.sorted (page + 1)
  rw [← hmore] at hsorted ⊢
  rw [List.filter_append]
  refine h.grows (fun e he => ?_) fun e he f hf => ?_
  · exact hg.above (page + 1) e (hmore ▸ List.mem_append_right _ (List.mem_filter.1 he).1)
  · exact (List.pairwise_append.1 hsorted).2.2 e (List.mem_filter.1 he).1 f (List.mem_filter.1 hf).1

end Loop

section Query

variable {carries : Event → String → Bool} {name : String}

end Query

def twoEvents : List Event := [⟨⟨1, 1⟩, .null⟩, ⟨⟨2, 2⟩, .null⟩]

end Orisun.Admin
