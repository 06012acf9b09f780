import Mathlib.Data.List.Sort

/-!
# Groups of a sorted list

A list that is sorted by a key is its groups one after another, in the order of their keys; any list
is a permutation of its groups.
-/

namespace Grouped

variable {α β : Type*} [LinearOrder β] {key : α → β}

variable {k : β}

theorem filter_append_filter : ∀ {l : List α}, l.Pairwise (fun a b => key a ≤ key b) →
    (∀ a ∈ l, k ≤ key a) →
      l.filter (fun a => key a = k) ++ l.filter (fun a => key a ≠ k) = l
  | [], _, _ => rfl
  | a :: l, h, hk => by
    obtain ⟨ha, hl⟩ := List.pairwise_cons.1 h
    by_cases hak : key a = k
    · rw [List.filter_cons_of_pos (by simpa using hak), List.filter_cons_of_neg (by simpa using hak),
        List.cons_append, filter_append_filter hl fun b hb => hk b (List.mem_cons_of_mem a hb)]
    · have hlt : k < key a := lt_of_le_of_ne (hk a (List.mem_cons_self ..)) (Ne.symm hak)
      have hne : ∀ b ∈ a :: l, key b ≠ k := by
        refine List.forall_mem_cons.2 ⟨hak, fun b hb => ?_⟩
        exact (hlt.trans_le (ha b hb)).ne'
      rw [List.filter_eq_nil_iff.2 (by simpa using hne), List.nil_append,
        List.filter_eq_self.2 (by simpa using hne)]

theorem flatMap_filter_ne {ks : List β} (hk : k ∉ ks) (l : List α) :
    (ks.flatMap fun k' => l.filter fun a => key a = k')
      = ks.flatMap fun k' => (l.filter fun a => key a ≠ k).filter fun a => key a = k' := by
  refine List.flatMap_congr fun k' hk' => ?_
  rw [List.filter_filter]
  refine List.filter_congr fun a _ => ?_
  have hne : k' ≠ k := fun he => hk (he ▸ hk')
  by_cases he : key a = k' <;> simp [he, hne]

theorem mem_of_mem_filter_ne {ks : List β} {l : List α} (h : ∀ a ∈ l, key a ∈ k :: ks) :
    ∀ a ∈ l.filter (fun a => key a ≠ k), key a ∈ ks := by
  intro a ha
  obtain ⟨hmem, hne⟩ := List.mem_filter.1 ha
  exact (List.mem_cons.1 (h a hmem)).resolve_left (by simpa using hne)

theorem flatMap_filter : ∀ {ks : List β} {l : List α}, ks.Pairwise (· < ·) →
    l.Pairwise (fun a b => key a ≤ key b) → (∀ a ∈ l, key a ∈ ks) →
      (ks.flatMap fun k => l.filter fun a => key a = k) = l
  | [], l, _, _, h => by
    rw [List.eq_nil_iff_forall_not_mem.2 fun a ha => List.not_mem_nil (h a ha)]
    rfl
  | k :: ks, l, hks, hl, h => by
    obtain ⟨hk, hks⟩ := List.pairwise_cons.1 hks
    have hle : ∀ a ∈ l, k ≤ key a := fun a ha => by
      rcases List.mem_cons.1 (h a ha) with he | hmem
      · exact he.ge
      · exact (hk _ hmem).le
    have ih := flatMap_filter hks (hl.filter _) (mem_of_mem_filter_ne h)
    rw [List.flatMap_cons, flatMap_filter_ne (fun hmem => (hk k hmem).ne rfl) l, ih,
      filter_append_filter hl hle]

theorem perm_flatMap_filter : ∀ {ks : List β} {l : List α}, ks.Nodup → (∀ a ∈ l, key a ∈ ks) →
    (ks.flatMap fun k => l.filter fun a => key a = k).Perm l
  | [], l, _, h => by
    rw [List.eq_nil_iff_forall_not_mem.2 fun a ha => List.not_mem_nil (h a ha)]
    exact .nil
  | k :: ks, l, hks, h => by
    obtain ⟨hk, hks⟩ := List.nodup_cons.1 hks
    have ih := perm_flatMap_filter hks (mem_of_mem_filter_ne h)
    rw [List.flatMap_cons, flatMap_filter_ne hk l]
    refine (ih.append_left _).trans ?_
    simpa using List.filter_append_perm (fun a => decide (key a = k)) l

end Grouped
