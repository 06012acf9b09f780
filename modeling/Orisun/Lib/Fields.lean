import Mathlib.Data.List.Nodup
import Mathlib.Data.String.Basic

/-!
# Fields by key

A list of fields in the order of their keys, each key once: an object of a document, or a map
printed in a fixed order. Shorter keys come first, keys of one length by their bytes. Setting one
field leaves the others as they are, fields of different keys can be set in either order, and the
order is kept.
-/

namespace Fields

variable {α : Type*}

def keyLt (k k' : String) : Bool :=
  k.utf8ByteSize < k'.utf8ByteSize || (k.utf8ByteSize == k'.utf8ByteSize && k < k')

/-- The fields with the key's value set, in place or at its place in the order. -/
def insert (k : String) (v : α) : List (String × α) → List (String × α)
  | [] => [(k, v)]
  | (k', v') :: fields =>
    if k = k' then (k, v) :: fields
    else if keyLt k k' then (k, v) :: (k', v') :: fields
    else (k', v') :: insert k v fields

/-- Every field of `b` set in `a`. -/
def concat (a b : List (String × α)) : List (String × α) :=
  b.foldl (fun fields f => insert f.1 f.2 fields) a

def Ordered (fields : List (String × α)) : Prop :=
  fields.Pairwise fun f g => keyLt f.1 g.1 = true

variable {k j : String}

theorem lookup_cons_ne (v : α) (h : j ≠ k) (fs : List (String × α)) :
    ((k, v) :: fs).lookup j = fs.lookup j := by
  rw [List.lookup_cons, beq_false_of_ne h]

theorem lookup_insert_self (k : String) (v : α) :
    ∀ fs : List (String × α), (insert k v fs).lookup k = some v
  | [] => by simp [insert]
  | (k', v') :: fs => by
    simp only [insert]
    split_ifs with h1 h2
    · exact List.lookup_cons_self
    · exact List.lookup_cons_self
    · rw [lookup_cons_ne v' h1, lookup_insert_self k v fs]

theorem lookup_insert_of_ne (v : α) (h : j ≠ k) :
    ∀ fs : List (String × α), (insert k v fs).lookup j = fs.lookup j
  | [] => lookup_cons_ne v h []
  | (k', v') :: fs => by
    simp only [insert]
    split_ifs with h1 h2
    · subst h1
      rw [lookup_cons_ne v h, lookup_cons_ne v' h]
    · exact lookup_cons_ne v h _
    · simp only [List.lookup_cons, lookup_insert_of_ne v h fs]

theorem keyLt_iff {k' : String} : keyLt k k' = true ↔ k.utf8ByteSize < k'.utf8ByteSize ∨
    k.utf8ByteSize = k'.utf8ByteSize ∧ k < k' := by
  simp [keyLt]

theorem keyLt_trans {a b c : String} (h : keyLt a b = true) (h' : keyLt b c = true) :
    keyLt a c = true := by
  rw [keyLt_iff] at *
  rcases h with h | ⟨h, hl⟩ <;> rcases h' with h' | ⟨h', hl'⟩
  · exact .inl (h.trans h')
  · exact .inl (h' ▸ h)
  · exact .inl (h ▸ h')
  · exact .inr ⟨h.trans h', hl.trans hl'⟩

theorem keyLt_irrefl (a : String) : keyLt a a = false := by
  simp [keyLt]

theorem keyLt_total {a b : String} (h : a ≠ b) : keyLt a b = true ∨ keyLt b a = true := by
  simp only [keyLt_iff]
  rcases lt_trichotomy a.utf8ByteSize b.utf8ByteSize with hs | hs | hs
  · exact .inl (.inl hs)
  · rcases lt_or_gt_of_ne h with hl | hl
    · exact .inl (.inr ⟨hs, hl⟩)
    · exact .inr (.inr ⟨hs.symm, hl⟩)
  · exact .inr (.inl hs)

theorem keyLt_asymm {a b : String} (h : keyLt a b = true) : keyLt b a = false := by
  rw [Bool.eq_false_iff]
  intro h'
  have := keyLt_trans h h'
  rw [keyLt_irrefl] at this
  exact Bool.false_ne_true this

theorem insert_comm {k' : String} (v v' : α) (h : k ≠ k') :
    ∀ fs : List (String × α),
      insert k v (insert k' v' fs) = insert k' v' (insert k v fs)
  | [] => by
    simp only [insert, h, h.symm, if_false]
    rcases keyLt_total h with hl | hl <;> simp [hl, keyLt_asymm hl]
  | (j, w) :: fs => by
    have ih := insert_comm v v' h fs
    rcases eq_or_ne k j with rfl | hk
    · rcases keyLt_total h.symm with hl | hl <;>
        simp [insert, h, h.symm, hl, keyLt_asymm hl]
    rcases eq_or_ne k' j with rfl | hk'
    · rcases keyLt_total h with hl | hl <;>
        simp [insert, h, h.symm, hl, keyLt_asymm hl]
    rcases hl : keyLt k j <;> rcases hl' : keyLt k' j
    · simp [insert, hk, hk', hl, hl', ih]
    · have hjk : keyLt j k = true := (keyLt_total hk).resolve_left (by simp [hl])
      have hkk := keyLt_trans hl' hjk
      simp [insert, hk, hk', hl, hl', h, keyLt_asymm hkk]
    · have hjk : keyLt j k' = true := (keyLt_total hk').resolve_left (by simp [hl'])
      have hkk := keyLt_trans hl hjk
      simp [insert, hk, hk', hl, hl', h.symm, keyLt_asymm hkk]
    · rcases keyLt_total h with hkk | hkk <;>
        simp [insert, hk, hk', hl, hl', h, h.symm, hkk, keyLt_asymm hkk]

variable {v : α}

theorem mem_insert {f : String × α} :
    ∀ {fs : List (String × α)}, f ∈ insert k v fs → f = (k, v) ∨ f ∈ fs
  | [], h => by simpa [insert] using h
  | (k', v') :: fs, h => by
    simp only [insert] at h
    split_ifs at h
    · rcases List.mem_cons.1 h with h | h
      · exact .inl h
      · exact .inr (List.mem_cons_of_mem _ h)
    · rcases List.mem_cons.1 h with h | h
      · exact .inl h
      · exact .inr h
    · rcases List.mem_cons.1 h with h | h
      · exact .inr (h ▸ List.mem_cons_self ..)
      · rcases mem_insert h with h | h
        · exact .inl h
        · exact .inr (List.mem_cons_of_mem _ h)

theorem ordered_insert (k : String) (v : α) :
    ∀ {fs : List (String × α)}, Ordered fs → Ordered (insert k v fs)
  | [], _ => List.pairwise_singleton _ _
  | (k', v') :: fs, h => by
    obtain ⟨h1, h2⟩ := List.pairwise_cons.1 h
    simp only [insert]
    split_ifs with hk hl
    · subst hk
      exact List.pairwise_cons.2 ⟨h1, h2⟩
    · refine List.pairwise_cons.2 ⟨fun f hf => ?_, h⟩
      rcases List.mem_cons.1 hf with rfl | hf
      · exact hl
      · exact keyLt_trans hl (h1 f hf)
    · refine List.pairwise_cons.2 ⟨fun f hf => ?_, ordered_insert k v h2⟩
      rcases mem_insert hf with rfl | hf
      · exact (keyLt_total hk).resolve_left hl
      · exact h1 f hf

variable {fs : List (String × α)}

theorem Ordered.nodup_keys (h : Ordered fs) : (fs.map Prod.fst).Nodup := by
  refine List.pairwise_map.2 (List.Pairwise.imp (fun {f g} hlt he => ?_) h)
  rw [he, keyLt_irrefl] at hlt
  cases hlt

theorem Ordered.map {β : Type*} (g : String × α → β) (h : Ordered fs) :
    Ordered (fs.map fun f => (f.1, g f)) :=
  List.pairwise_map.2 h

theorem Ordered.lookup_of_mem : ∀ {fs : List (String × α)} {k : String} {v : α}, Ordered fs →
    (k, v) ∈ fs → fs.lookup k = some v
  | (k', v') :: fs, k, v, h, hm => by
    obtain ⟨h1, h2⟩ := List.pairwise_cons.1 h
    rcases List.mem_cons.1 hm with he | ht
    · cases he
      exact List.lookup_cons_self
    · have hne : k ≠ k' := by
        rintro rfl
        have := h1 _ ht
        rw [keyLt_irrefl] at this
        exact Bool.false_ne_true this
      rw [lookup_cons_ne v' hne, Ordered.lookup_of_mem h2 ht]

theorem mem_of_lookup : ∀ {fs : List (String × α)},
    fs.lookup k = some v → (k, v) ∈ fs
  | (k', v') :: fs, h => by
    rcases eq_or_ne k k' with rfl | hk
    · rw [List.lookup_cons_self, Option.some.injEq] at h
      exact h ▸ List.mem_cons_self ..
    · rw [lookup_cons_ne v' hk] at h
      exact List.mem_cons_of_mem _ (mem_of_lookup h)

theorem lookup_filter (p : String → Bool) (k : String) : ∀ fs : List (String × α),
    (fs.filter fun f => p f.1).lookup k = if p k then fs.lookup k else none
  | [] => by simp
  | (k', v') :: fs => by
    have ih := lookup_filter p k fs
    rcases hp' : p k' with _ | _
    · rw [List.filter_cons_of_neg (by simp [hp']), ih]
      rcases eq_or_ne k k' with rfl | hk
      · simp [hp']
      · rw [lookup_cons_ne v' hk]
    · rw [List.filter_cons_of_pos (by simp [hp'])]
      rcases eq_or_ne k k' with rfl | hk
      · simp [hp']
      · rw [lookup_cons_ne v' hk, lookup_cons_ne v' hk, ih]

theorem ordered_concat : ∀ (b : List (String × α)) {a : List (String × α)}, Ordered a →
    Ordered (concat a b)
  | [], _, h => h
  | f :: b, _, h => ordered_concat b (ordered_insert f.1 f.2 h)

theorem lookup_concat (k : String) : ∀ {b : List (String × α)} (a : List (String × α)),
    (b.map Prod.fst).Nodup → (concat a b).lookup k = (b.lookup k).or (a.lookup k)
  | [], _, _ => rfl
  | (j, v) :: b, a, h => by
    obtain ⟨hj, hb⟩ := List.nodup_cons.1 h
    refine (lookup_concat k (insert j v a) hb).trans ?_
    rcases eq_or_ne k j with rfl | hk
    · have hnone : b.lookup k = none := by
        rcases hl : b.lookup k with _ | w
        · rfl
        · exact absurd (List.mem_map_of_mem (mem_of_lookup hl)) hj
      rw [hnone, lookup_insert_self, List.lookup_cons_self]
      rfl
    · rw [lookup_insert_of_ne v hk, lookup_cons_ne v hk]

theorem lookup_concat_reverse (k : String) : ∀ (b a : List (String × α)),
    (concat a b).lookup k = (b.reverse.lookup k).or (a.lookup k)
  | [], _ => rfl
  | (j, v) :: b, a => by
    refine (lookup_concat_reverse k b (insert j v a)).trans ?_
    rw [List.reverse_cons, List.lookup_append, Option.or_assoc]
    rcases eq_or_ne k j with rfl | hk
    · rw [lookup_insert_self, List.lookup_cons_self]
      rfl
    · rw [lookup_insert_of_ne v hk, lookup_cons_ne v hk]
      rfl

variable {a : List (String × α)}

theorem Ordered.ext {b : List (String × α)} (ha : Ordered a) (hb : Ordered b)
    (h : ∀ k, a.lookup k = b.lookup k) : a = b := by
  have hmem : ∀ {c d : List (String × α)}, Ordered c → (∀ k, c.lookup k = d.lookup k) →
      ∀ f ∈ c, f ∈ d := fun hc hl f hf =>
    mem_of_lookup ((hl f.1).symm.trans (hc.lookup_of_mem hf))
  have hnodup : ∀ {c : List (String × α)}, Ordered c → c.Nodup := fun hc =>
    List.Nodup.of_map Prod.fst hc.nodup_keys
  have hperm : a.Perm b := (List.perm_ext_iff_of_nodup (hnodup ha) (hnodup hb)).2 fun f =>
    ⟨hmem ha h f, hmem hb (fun k => (h k).symm) f⟩
  refine List.Perm.eq_of_pairwise (fun f g _ _ hf hg => ?_) ha hb hperm
  rw [keyLt_asymm hf] at hg
  cases hg

theorem Ordered.concat_nil (ha : Ordered a) : concat [] a = a :=
  (ordered_concat a List.Pairwise.nil).ext ha fun k => by
    rw [lookup_concat k [] ha.nodup_keys, List.lookup_nil, Option.or_none]

theorem concat_append (a b c : List (String × α)) : concat a (b ++ c) = concat (concat a b) c :=
  List.foldl_append

theorem concat_concat {b c : List (String × α)} (ha : Ordered a) (hb : Ordered b)
    (hc : (c.map Prod.fst).Nodup) : concat a (concat b c) = concat (concat a b) c := by
  have hbc := ordered_concat c hb
  refine (ordered_concat _ ha).ext (ordered_concat _ (ordered_concat _ ha)) fun k => ?_
  rw [lookup_concat k _ hbc.nodup_keys, lookup_concat k _ hc, lookup_concat k _ hc,
    lookup_concat k _ hb.nodup_keys, Option.or_assoc]

theorem mem_insert_self :
    ∀ {fs : List (String × α)}, (k, v) ∈ insert k v fs
  | [] => List.mem_singleton_self _
  | (k', v') :: fs => by
    simp only [insert]
    split_ifs
    · exact List.mem_cons_self ..
    · exact List.mem_cons_self ..
    · exact List.mem_cons_of_mem _ mem_insert_self

theorem mem_insert_of_ne {f : String × α} (hf : f.1 ≠ k) :
    ∀ {fs : List (String × α)}, f ∈ fs → f ∈ insert k v fs
  | (k', v') :: fs, h => by
    simp only [insert]
    split_ifs with hk
    · rcases List.mem_cons.1 h with rfl | h
      · exact absurd hk.symm hf
      · exact List.mem_cons_of_mem _ h
    · exact List.mem_cons_of_mem _ h
    · rcases List.mem_cons.1 h with rfl | h
      · exact List.mem_cons_self ..
      · exact List.mem_cons_of_mem _ (mem_insert_of_ne hf h)

theorem mem_keys_insert :
    k ∈ (insert j v fs).map Prod.fst ↔ k = j ∨ k ∈ fs.map Prod.fst := by
  constructor
  · intro h
    obtain ⟨f, hf, rfl⟩ := List.mem_map.1 h
    rcases mem_insert hf with rfl | hf
    · exact .inl rfl
    · exact .inr (List.mem_map_of_mem hf)
  · rintro (rfl | h)
    · exact List.mem_map_of_mem (f := Prod.fst) mem_insert_self
    · obtain ⟨f, hf, rfl⟩ := List.mem_map.1 h
      by_cases hk : f.1 = j
      · rw [hk]
        exact List.mem_map_of_mem (f := Prod.fst) mem_insert_self
      · exact List.mem_map_of_mem (mem_insert_of_ne hk hf)

theorem mem_keys_concat : ∀ {b a : List (String × α)},
    k ∈ (concat a b).map Prod.fst ↔ k ∈ a.map Prod.fst ∨ k ∈ b.map Prod.fst
  | [], a => by simp [concat]
  | f :: b, a => by
    have ih : k ∈ (concat a (f :: b)).map Prod.fst ↔ _ :=
      mem_keys_concat (b := b) (a := insert f.1 f.2 a)
    rw [ih, mem_keys_insert, List.map_cons, List.mem_cons, or_assoc, or_left_comm]

def Indexed (key : α → String) (fs : List (String × α)) : Prop := ∀ f ∈ fs, f.1 = key f.2

variable {key : α → String}

theorem Indexed.insert (h : Indexed key fs) (v : α) :
    Indexed key (insert (key v) v fs) := by
  intro f hf
  rcases mem_insert hf with rfl | hf
  · rfl
  · exact h f hf

theorem Indexed.mem_values_insert (hkey : Function.Injective key) (h : Indexed key fs) (v x : α) :
    x ∈ (Fields.insert (key v) v fs).map Prod.snd ↔ x = v ∨ x ∈ fs.map Prod.snd := by
  constructor
  · intro hx
    obtain ⟨f, hf, rfl⟩ := List.mem_map.1 hx
    rcases mem_insert hf with rfl | hf
    · exact .inl rfl
    · exact .inr (List.mem_map_of_mem hf)
  · rintro (rfl | hx)
    · exact List.mem_map_of_mem (f := Prod.snd) mem_insert_self
    · obtain ⟨f, hf, rfl⟩ := List.mem_map.1 hx
      by_cases hk : f.1 = key v
      · have hv : f.2 = v := hkey ((h f hf).symm.trans hk)
        rw [hv]
        exact List.mem_map_of_mem (f := Prod.snd) mem_insert_self
      · exact List.mem_map_of_mem (mem_insert_of_ne hk hf)

theorem Indexed.nodup_values (h : Indexed key fs) (ho : Ordered fs) : (fs.map Prod.snd).Nodup := by
  have hkeys : (fs.map Prod.snd).map key = fs.map Prod.fst := by
    rw [List.map_map]
    exact List.map_congr_left fun f hf => (h f hf).symm
  exact List.Nodup.of_map key (hkeys ▸ ho.nodup_keys)

theorem Indexed.eq_of_lookup (hkey : Function.Injective key) (h : Indexed key fs) {x : α}
    (hl : fs.lookup (key v) = some x) :
    x = v ∧ v ∈ fs.map Prod.snd := by
  have hm := mem_of_lookup hl
  have hx : x = v := (hkey (h _ hm)).symm
  exact ⟨hx, hx ▸ List.mem_map_of_mem (f := Prod.snd) hm⟩

end Fields
