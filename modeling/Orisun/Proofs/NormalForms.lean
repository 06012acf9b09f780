import Orisun.Proofs.Observations

/-!
# One normal form for every way of writing

A normal form is sorted and has no duplicates, so it is determined by the set of what it was made
from. The order in which observations, criteria and tags come, how often each is repeated and how
equality is written therefore do not matter, and the checks of an accepted list hold on a log where
the observations do.
-/

namespace Orisun

theorem ReadTag.rank_injective : Function.Injective ReadTag.rank := by
  rintro ⟨k, v, o⟩ ⟨k', v', o'⟩ h
  simp only [rank, toLex_inj, Prod.mk.injEq] at h
  obtain ⟨rfl, rfl, rfl⟩ := h
  rfl

variable {α : Type*}

theorem eq_of_sorted {β : Type*} [LinearOrder β] {key : α → β} (hkey : Function.Injective key)
    {l l' : List α} (hl : l.Pairwise fun a b => key a ≤ key b)
    (hl' : l'.Pairwise fun a b => key a ≤ key b) (hn : l.Nodup) (hn' : l'.Nodup)
    (h : ∀ a, a ∈ l ↔ a ∈ l') : l = l' := by
  have hperm : l.Perm l' := (List.perm_ext_iff_of_nodup hn hn').2 h
  exact hperm.eq_of_pairwise (fun a b _ _ hab hba => hkey (le_antisymm hab hba)) hl hl'

def SingleValued (tags : List (Option ReadTag)) : Prop :=
  ∀ t t', some t ∈ tags → some t' ∈ tags → canonicalTagOperator t.operator = some .eq →
    canonicalTagOperator t'.operator = some .eq → t.key = t'.key → t.value = t'.value

/-- What is asked of the tags of a criterion. -/
structure Criterion.Accepted (c : Criterion) : Prop where
  ne_nil : c.tags ≠ []
  valid : ∀ tag ∈ c.tags, ∃ t, tag = some t ∧ validateTag t = .ok ()
  single : SingleValued c.tags

/-- The normal form of a criterion: the set of its tags, sorted. -/
structure Criterion.Normal (c : Criterion) (n : ReadCriterion) : Prop where
  accepted : c.Accepted
  sorted : n.tags.Pairwise fun a b => a.rank ≤ b.rank
  nodup : n.tags.Nodup
  tags : ∀ x, x ∈ n.tags ↔ ∃ t, some t ∈ c.tags ∧ x = normalizedTag t

variable {c : Criterion} {n : ReadCriterion}

theorem Criterion.Normal.unique {n' : ReadCriterion} (h : c.Normal n) (h' : c.Normal n') :
    n = n' := by
  have htags : n.tags = n'.tags := eq_of_sorted ReadTag.rank_injective h.sorted h'.sorted
    h.nodup h'.nodup fun x => (h.tags x).trans (h'.tags x).symm
  rcases n with ⟨ts⟩
  rcases n' with ⟨ts'⟩
  exact congrArg ReadCriterion.mk htags

/-- The equalities collected are those of the tags so far. -/
def EqualitiesOf (tags : List (Option ReadTag)) (s : Predicates) : Prop :=
  ∀ key value, s.equalities.lookup key = some value ↔
    ∃ t, some t ∈ tags ∧ canonicalTagOperator t.operator = some .eq ∧ t.key = key ∧
      t.value = value

section Tags

variable {i j : ℕ} {s s' : Predicates} {tags : List (Option ReadTag)} {t : ReadTag}

theorem EqualitiesOf.append_other (h : EqualitiesOf tags s)
    (ht : canonicalTagOperator t.operator ≠ some .eq) : EqualitiesOf (tags ++ [some t]) s := by
  intro key value
  rw [h key value]
  constructor
  · rintro ⟨t', ht', h'⟩
    exact ⟨t', List.mem_append_left _ ht', h'⟩
  · rintro ⟨t', ht', h'⟩
    rcases List.mem_append.1 ht' with ht' | ht'
    · exact ⟨t', ht', h'⟩
    · obtain rfl := Option.some.inj (List.mem_singleton.1 ht')
      exact absurd h'.1 ht

theorem EqualitiesOf.append_eq (h : EqualitiesOf tags s)
    (ht : canonicalTagOperator t.operator = some .eq)
    (hl : (s.equalities.lookup t.key).any (· ≠ t.value) = false)
    (predicates : List (String × ReadTag)) :
    EqualitiesOf (tags ++ [some t])
      ⟨predicates, Fields.insert t.key t.value s.equalities⟩ := by
  intro key value
  by_cases hk : key = t.key
  · subst hk
    rw [Fields.lookup_insert_self]
    constructor
    · intro hv
      exact ⟨t, List.mem_append_right _ (List.mem_singleton_self _), ht, rfl, Option.some.inj hv⟩
    · rintro ⟨t', ht', he, hkey, rfl⟩
      rcases List.mem_append.1 ht' with ht' | ht'
      · rw [(h t.key t'.value).2 ⟨t', ht', he, hkey, rfl⟩] at hl
        simp only [Option.any_some, ne_eq, decide_not, Bool.not_eq_false',
          decide_eq_true_eq] at hl
        rw [hl]
      · obtain rfl := Option.some.inj (List.mem_singleton.1 ht')
        rfl
  · rw [Fields.lookup_insert_of_ne _ hk, h key value]
    constructor
    · rintro ⟨t', ht', h'⟩
      exact ⟨t', List.mem_append_left _ ht', h'⟩
    · rintro ⟨t', ht', h'⟩
      rcases List.mem_append.1 ht' with ht' | ht'
      · exact ⟨t', ht', h'⟩
      · obtain rfl := Option.some.inj (List.mem_singleton.1 ht')
        exact absurd h'.2.1.symm hk

theorem addTag_some (hv : validateTag t = .ok ()) : addTag i s (some t, j) =
    if canonicalTagOperator t.operator = some .eq then
      if (s.equalities.lookup t.key).any (· ≠ t.value)
      then .error (.repeatedKey i t.key)
      else .ok ⟨Fields.insert (tagIdentity (normalizedTag t)) (normalizedTag t) s.predicates,
        Fields.insert t.key t.value s.equalities⟩
    else .ok ⟨Fields.insert (tagIdentity (normalizedTag t)) (normalizedTag t) s.predicates,
      s.equalities⟩ := by
  simp only [addTag, hv]

theorem EqualitiesOf.addTag {tag : Option ReadTag} (h : EqualitiesOf tags s)
    (ha : addTag i s (tag, j) = .ok s') : EqualitiesOf (tags ++ [tag]) s' := by
  obtain ⟨t, rfl, hv, -⟩ := addTag_eq_ok ha
  rw [addTag_some hv] at ha
  split_ifs at ha with ht hl
  · cases ha
    exact h.append_eq ht (Bool.eq_false_iff.2 hl) _
  · cases ha
    exact h.append_other ht

theorem EqualitiesOf.addTags : ∀ {tags : List (Option ReadTag)} {before : List (Option ReadTag)}
    {j : ℕ} {s : Predicates}, EqualitiesOf before s →
    (tags.zipIdx j).foldlM (Orisun.addTag i) s = .ok s' → EqualitiesOf (before ++ tags) s'
  | [], before, j, s, h, ha => by
    obtain rfl : s = s' := Except.ok.inj ha
    rwa [List.append_nil]
  | tag :: tags, before, j, s, h, ha => by
    rw [List.zipIdx_cons, List.foldlM_cons, Attempt.bind_eq_ok] at ha
    obtain ⟨u, hu, ha⟩ := ha
    have := (h.addTag hu).addTags ha
    rwa [List.append_assoc] at this

theorem EqualitiesOf.single (h : EqualitiesOf tags s) : SingleValued tags := by
  intro t t' ht ht' he he' hk
  have h1 := (h t.key t.value).2 ⟨t, ht, he, rfl, rfl⟩
  have h2 := (h t.key t'.value).2 ⟨t', ht', he', hk.symm, rfl⟩
  exact Option.some.inj (h1.symm.trans h2)

theorem exists_addTag (h : EqualitiesOf tags s) (hv : validateTag t = .ok ())
    (hs : SingleValued (tags ++ [some t])) : ∃ s', addTag i s (some t, j) = .ok s' := by
  rw [addTag_some hv]
  split_ifs with ht hl
  · obtain ⟨v, hv, hne⟩ := (Option.any_eq_true _ _).1 hl
    obtain ⟨t', ht', he', hk, rfl⟩ := (h t.key v).1 hv
    have := hs t' t (List.mem_append_left _ ht')
      (List.mem_append_right _ (List.mem_singleton_self _)) he' ht hk
    exact absurd this (of_decide_eq_true hne)
  · exact ⟨_, rfl⟩
  · exact ⟨_, rfl⟩

theorem exists_addTags : ∀ {tags : List (Option ReadTag)} {before : List (Option ReadTag)} {j : ℕ}
    {s : Predicates}, EqualitiesOf before s →
    (∀ tag ∈ tags, ∃ t, tag = some t ∧ validateTag t = .ok ()) → SingleValued (before ++ tags) →
      ∃ s', (tags.zipIdx j).foldlM (addTag i) s = .ok s'
  | [], _, _, s, _, _, _ => ⟨s, rfl⟩
  | tag :: tags, before, j, s, h, hv, hs => by
    rw [List.append_cons] at hs
    obtain ⟨t, rfl, ht⟩ := hv tag List.mem_cons_self
    obtain ⟨u, hu⟩ := exists_addTag (i := i) (j := j) h ht fun a b ha hb =>
      hs a b (List.mem_append_left _ ha) (List.mem_append_left _ hb)
    obtain ⟨s', hs'⟩ := exists_addTags (h.addTag hu)
      (fun tag htag => hv tag (List.mem_cons_of_mem _ htag)) hs
    refine ⟨s', ?_⟩
    rw [List.zipIdx_cons, List.foldlM_cons, Attempt.bind_eq_ok]
    exact ⟨u, hu, hs'⟩

theorem indexed_addTags (h : Fields.Indexed tagIdentity s.predicates ∧ Fields.Ordered s.predicates)
    (ha : (tags.zipIdx j).foldlM (addTag i) s = .ok s') :
    Fields.Indexed tagIdentity s'.predicates ∧ Fields.Ordered s'.predicates := by
  refine Attempt.foldlM_invariant
    (P := fun s => Fields.Indexed tagIdentity s.predicates ∧ Fields.Ordered s.predicates)
    (fun s s' x _ hs hx => ?_) h ha
  obtain ⟨t, -, -, hp⟩ := addTag_eq_ok hx
  rw [hp]
  exact ⟨hs.1.insert _, Fields.ordered_insert _ _ hs.2⟩

end Tags

theorem equalitiesOf_empty : EqualitiesOf [] {} := by
  intro key value
  simp

theorem normal_of_normalizeCriterion {i : ℕ} {c : Option Criterion}
    (h : normalizeCriterion i c = .ok n) : ∃ c', c = some c' ∧ c'.Normal n := by
  unfold normalizeCriterion at h
  rcases c with _ | c
  · simp at h
  · dsimp only at h
    split_ifs at h with hne
    obtain ⟨s, hs, rfl⟩ := Attempt.map_eq_ok.1 h
    have hempty : Fields.Indexed tagIdentity ({} : Predicates).predicates ∧
        Fields.Ordered ({} : Predicates).predicates := ⟨nofun, List.Pairwise.nil⟩
    obtain ⟨hvalid, hmem⟩ := addTags_spec hempty.1 hs
    obtain ⟨hi, ho⟩ := indexed_addTags hempty hs
    refine ⟨c, rfl, ⟨hne, hvalid, (equalitiesOf_empty.addTags hs).single⟩, pairwise_sortedTags _,
      (List.mergeSort_perm _ _).nodup_iff.2 (hi.nodup_values ho), fun x => ?_⟩
    rw [List.mem_mergeSort, hmem]
    simp

theorem exists_normalizeCriterion {i : ℕ} (h : c.Accepted) :
    ∃ n, normalizeCriterion i (some c) = .ok n := by
  obtain ⟨s, hs⟩ := exists_addTags (i := i) (j := 0) equalitiesOf_empty h.valid h.single
  unfold normalizeCriterion
  dsimp only
  rw [if_neg h.ne_nil, hs]
  exact ⟨_, rfl⟩

theorem normalizeCriterion_eq_ok_iff {i : ℕ} :
    normalizeCriterion i (some c) = .ok n ↔ c.Normal n := by
  constructor
  · intro h
    obtain ⟨c', hc, h⟩ := normal_of_normalizeCriterion h
    cases hc
    exact h
  · intro h
    obtain ⟨n', hn'⟩ := exists_normalizeCriterion (i := i) h.accepted
    obtain ⟨c', hc, h'⟩ := normal_of_normalizeCriterion hn'
    cases hc
    rw [hn', h'.unique h]

/-- The normal form of a query: the set of the normal forms of its criteria, sorted. -/
structure Query.Normal (q : Query) (criteria : List ReadCriterion) : Prop where
  ne_nil : q.criteria ≠ []
  accepted : ∀ c ∈ q.criteria, ∃ c' n, c = some c' ∧ c'.Normal n
  sorted : criteria.Pairwise fun a b => criterionKey a ≤ criterionKey b
  nodup : criteria.Nodup
  criteria : ∀ n, n ∈ criteria ↔ ∃ c, some c ∈ q.criteria ∧ c.Normal n

variable {q : Query} {cs : List ReadCriterion}

theorem Query.Normal.unique {cs' : List ReadCriterion} (h : q.Normal cs) (h' : q.Normal cs') :
    cs = cs' :=
  eq_of_sorted criterionKey_injective h.sorted h'.sorted h.nodup h'.nodup fun n =>
    (h.criteria n).trans (h'.criteria n).symm

def queryKey (criteria : List ReadCriterion) : String :=
  Netstring.concat Netstring.encode (criteria.map criterionKey)

theorem queryKey_injective : Function.Injective queryKey := by
  have hne : ∀ s, Netstring.encode s ≠ "" := by
    intro s h
    have hl := congrArg String.toList h
    simp [Netstring.encode] at hl
  intro cs cs' h
  exact criterionKey_injective.list_map (Netstring.encode_selfDelimiting.concat_injective hne h)

theorem nodup_addCriterion {s s' : NormalizedCriteria} {c : Option Criterion × ℕ}
    (hs : Collected s) (hk : s.keys.Nodup) (h : addCriterion s c = .ok s') : s'.keys.Nodup := by
  obtain ⟨n, -, he⟩ := Attempt.map_eq_ok.1 h
  dsimp only at he
  split_ifs at he with hl
  · exact he ▸ hk
  · subst he
    refine List.nodup_append.2 ⟨hk, List.nodup_singleton _, ?_⟩
    rintro k hk _ hn rfl
    obtain rfl := List.mem_singleton.1 hn
    rw [hs.lookup ((hs.keys n).1 hk)] at hl
    exact hl rfl

theorem collected_addCriteria : ∀ {criteria : List (Option Criterion)} {i : ℕ}
    {s s' : NormalizedCriteria}, Collected s → s.keys.Nodup →
    (criteria.zipIdx i).foldlM addCriterion s = .ok s' → Collected s' ∧ s'.keys.Nodup ∧
      (∀ c ∈ criteria, ∃ c' n, c = some c' ∧ c'.Normal n) ∧
      ∀ n, n ∈ s'.criteriaByKey.map Prod.snd ↔
        n ∈ s.criteriaByKey.map Prod.snd ∨ ∃ c, some c ∈ criteria ∧ c.Normal n
  | [], i, s, s', hs, hn, h => by
    obtain rfl : s = s' := Except.ok.inj h
    exact ⟨hs, hn, by simp, by simp⟩
  | c :: criteria, i, s, s', hs, hk, h => by
    rw [List.zipIdx_cons, List.foldlM_cons, Attempt.bind_eq_ok] at h
    obtain ⟨u, hu, h⟩ := h
    obtain ⟨hcu, n, hok, hmem⟩ := addCriterion_spec hs hu
    obtain ⟨c', rfl, hn⟩ := normal_of_normalizeCriterion hok
    obtain ⟨hcs, hks, hall, hmem'⟩ := collected_addCriteria hcu (nodup_addCriterion hs hk hu) h
    refine ⟨hcs, hks, List.forall_mem_cons.2 ⟨⟨c', n, rfl, hn⟩, hall⟩, fun m => ?_⟩
    rw [hmem', hmem, or_assoc]
    refine or_congr_right ⟨?_, ?_⟩
    · rintro (rfl | ⟨d, hd, hdm⟩)
      · exact ⟨c', List.mem_cons_self, hn⟩
      · exact ⟨d, List.mem_cons_of_mem _ hd, hdm⟩
    · rintro ⟨d, hd, hdm⟩
      rcases List.mem_cons.1 hd with he | hd
      · cases he
        exact .inl (hdm.unique hn)
      · exact .inr ⟨d, hd, hdm⟩

theorem collected_empty : Collected {} :=
  ⟨by simp [Fields.Indexed], by simp [Fields.Ordered], by simp, by simp⟩

theorem Collected.map_criterionKey {s : NormalizedCriteria} (h : Collected s) {keys : List String}
    (hk : ∀ k ∈ keys, k ∈ s.keys) :
    (keys.map fun key => (s.criteriaByKey.lookup key).getD ⟨[]⟩).map criterionKey = keys := by
  rw [List.map_map]
  refine (List.map_congr_left fun k hk' => ?_).trans (List.map_id keys)
  obtain ⟨c, rfl⟩ := h.keyed k (hk k hk')
  simp only [Function.comp_apply, id, h.lookup ((h.keys c).1 (hk _ hk')), Option.getD_some]

theorem normal_of_normalizeConsistencyQuery {query : Option Query} {key : String}
    (h : normalizeConsistencyQuery query = .ok (cs, key)) :
    ∃ q, query = some q ∧ q.Normal cs ∧ key = queryKey cs := by
  unfold normalizeConsistencyQuery at h
  rcases query with _ | q
  · simp at h
  · dsimp only at h
    split_ifs at h with hne
    obtain ⟨s, hs, h⟩ := Attempt.map_eq_ok.1 h
    obtain ⟨hcs, hkey⟩ := Prod.mk.inj h
    obtain ⟨hcol, hnodup, hall, hmem⟩ := collected_addCriteria collected_empty List.nodup_nil hs
    have hsub : ∀ k ∈ s.keys.mergeSort fun a b => decide (a ≤ b), k ∈ s.keys :=
      fun k hk => List.mem_mergeSort.1 hk
    have hkeys := hcol.map_criterionKey hsub
    rw [hcs] at hkeys
    have hsorted : (cs.map criterionKey).Pairwise (· ≤ ·) := by
      rw [hkeys]
      refine (List.pairwise_mergeSort ?_ ?_ s.keys).imp fun {a b} h => of_decide_eq_true h
      · intro a b c hab hbc
        exact decide_eq_true ((of_decide_eq_true hab).trans (of_decide_eq_true hbc))
      · intro a b
        rw [Bool.or_eq_true, decide_eq_true_eq, decide_eq_true_eq]
        exact le_total a b
    have hunique : (cs.map criterionKey).Nodup := by
      rw [hkeys]
      exact (List.mergeSort_perm _ _).nodup_iff.2 hnodup
    refine ⟨q, rfl, ⟨hne, hall, List.pairwise_map.1 hsorted, List.Nodup.of_map _ hunique,
      fun n => ?_⟩, ?_⟩
    · have hn : n ∈ cs ↔ criterionKey n ∈ s.keys := by
        rw [← List.mem_map_of_injective criterionKey_injective, hkeys, List.mem_mergeSort]
      rw [hn, hcol.keys, hmem]
      simp
    · rw [← hkey, queryKey, hkeys]

theorem exists_normalizeConsistencyQuery (hne : q.criteria ≠ [])
    (h : ∀ c ∈ q.criteria, ∃ c' n, c = some c' ∧ c'.Normal n) :
    ∃ x, normalizeConsistencyQuery (some q) = .ok x := by
  have hstep : ∀ s, ∀ x ∈ q.criteria.zipIdx, ∃ s', addCriterion s x = .ok s' := by
    rintro s ⟨c, i⟩ hx
    obtain ⟨c', n, rfl, hn⟩ := h c (List.fst_mem_of_mem_zipIdx hx)
    rw [addCriterion, normalizeCriterion_eq_ok_iff.2 hn]
    exact ⟨_, rfl⟩
  obtain ⟨s, hs⟩ := Attempt.exists_foldlM {} hstep
  unfold normalizeConsistencyQuery
  dsimp only
  rw [if_neg hne, hs]
  exact ⟨_, rfl⟩

theorem normalizeConsistencyQuery_eq_ok_iff {key : String} :
    normalizeConsistencyQuery (some q) = .ok (cs, key) ↔ q.Normal cs ∧ key = queryKey cs := by
  constructor
  · intro h
    obtain ⟨q', hq, h⟩ := normal_of_normalizeConsistencyQuery h
    cases hq
    exact h
  · rintro ⟨h, rfl⟩
    obtain ⟨⟨cs', key'⟩, hx⟩ := exists_normalizeConsistencyQuery h.ne_nil h.accepted
    obtain ⟨q', hq, h', rfl⟩ := normal_of_normalizeConsistencyQuery hx
    cases hq
    rw [hx, h'.unique h]

/-- The check an observation becomes. -/
structure ConsistencyObservation.Normal (o : Option ConsistencyObservation)
    (check : ConsistencyCheck) : Prop where
  exists_query : ∃ q, o = some ⟨some q, some check.position⟩ ∧ q.Normal check.criteria
  valid : validConsistencyPosition check.position = true

open ConsistencyObservation (Normal)

variable {x : ConsistencyCheck}

theorem ConsistencyObservation.Normal.unique {o : Option ConsistencyObservation}
    {y : ConsistencyCheck} (hx : Normal o x) (hy : Normal o y) : x = y := by
  obtain ⟨⟨q, rfl, hq⟩, -⟩ := hx
  obtain ⟨⟨q', ho, hq'⟩, -⟩ := hy
  rcases x with ⟨cs, p⟩
  rcases y with ⟨cs', p'⟩
  obtain ⟨⟩ := ho
  obtain rfl : cs = cs' := hq.unique hq'
  rfl

theorem ConsistencyCheck.eq_of_queryKey {y : ConsistencyCheck}
    (hk : queryKey x.criteria = queryKey y.criteria) (hp : x.position = y.position) : x = y := by
  rcases x with ⟨cs, p⟩
  rcases y with ⟨cs', p'⟩
  obtain rfl : cs = cs' := queryKey_injective hk
  obtain rfl : p = p' := hp
  rfl

def ObservationState.Seen (s : ObservationState) : Prop :=
  ∀ key position, s.seen.lookup key = some position ↔
    ∃ x ∈ s.checks, queryKey x.criteria = key ∧ x.position = position

def criteriaCount (o : Option ConsistencyObservation) : ℕ :=
  (o.bind fun o => o.query.map fun q => q.criteria.length).getD 0

def tagCount (o : Option ConsistencyObservation) : ℕ :=
  (o.bind fun o => o.query.map Query.tagCount).getD 0

def ObservationState.count (s : ObservationState) (o : Option ConsistencyObservation) :
    ObservationState :=
  { s with
    totalCriteria := s.totalCriteria + criteriaCount o
    totalTags := s.totalTags + tagCount o }

def ObservationState.record (s : ObservationState) (x : ConsistencyCheck) : ObservationState :=
  { s with
    checks := s.checks ++ [x]
    seen := Fields.insert (queryKey x.criteria) x.position s.seen }

theorem ObservationState.Seen.record {s : ObservationState} (h : s.Seen)
    (hx : s.seen.lookup (queryKey x.criteria) = none) : (s.record x).Seen := by
  unfold ObservationState.record
  intro key position
  by_cases hk : key = queryKey x.criteria
  · subst hk
    rw [Fields.lookup_insert_self]
    constructor
    · intro hp
      exact ⟨x, List.mem_append_right _ (List.mem_singleton_self x), rfl, Option.some.inj hp⟩
    · rintro ⟨y, hy, hyk, rfl⟩
      rcases List.mem_append.1 hy with hy | hy
      · rw [(h _ y.position).2 ⟨y, hy, hyk, rfl⟩] at hx
        cases hx
      · rw [List.mem_singleton.1 hy]
  · rw [Fields.lookup_insert_of_ne _ hk, h key position]
    constructor
    · rintro ⟨y, hy, h'⟩
      exact ⟨y, List.mem_append_left _ hy, h'⟩
    · rintro ⟨y, hy, hyk, h'⟩
      rcases List.mem_append.1 hy with hy | hy
      · exact ⟨y, hy, hyk, h'⟩
      · obtain rfl := List.mem_singleton.1 hy
        exact absurd hyk.symm hk

section Observe

variable {s s' : ObservationState} {o : Option ConsistencyObservation} {i : ℕ}

theorem addObservation_normal {x : ConsistencyCheck} (hx : Normal o x)
    (hc : s.totalCriteria + criteriaCount o ≤ maxConsistencyCriteria)
    (ht : s.totalTags + tagCount o ≤ maxConsistencyTags) :
    addObservation s (o, i) =
      match s.seen.lookup (queryKey x.criteria) with
      | some previous =>
        if previous ≠ x.position then .error (.contradiction i) else .ok (s.count o)
      | none => .ok ((s.count o).record x) := by
  obtain ⟨⟨q, rfl, hq⟩, hv⟩ := hx
  have hok := normalizeConsistencyQuery_eq_ok_iff.2 ⟨hq, rfl⟩
  simp only [criteriaCount, tagCount, Option.bind_some, Option.map_some, Option.getD_some] at hc ht
  unfold addObservation
  simp only [Option.map_some, Option.getD_some, hv, hok, Bool.not_true, Bool.false_eq_true,
    ↓reduceIte, gt_iff_lt, not_lt.2 hc, not_lt.2 ht]
  rfl

theorem normal_of_addObservation (h : (∃ s', addObservation s (o, i) = .ok s') ∨
    ∃ j, addObservation s (o, i) = .error (.contradiction j)) :
    ∃ x, Normal o x ∧ s.totalCriteria + criteriaCount o ≤ maxConsistencyCriteria ∧
      s.totalTags + tagCount o ≤ maxConsistencyTags := by
  unfold addObservation at h
  rcases o with _ | ⟨query, _ | p⟩
  · simp at h
  · simp at h
  · dsimp only at h
    split_ifs at h with hv hc ht
    · simp at h
    · simp at h
    · simp at h
    · rcases hn : normalizeConsistencyQuery query with e | ⟨cs, key⟩
      · simp [hn] at h
      · obtain ⟨q, rfl, hq, -⟩ := normal_of_normalizeConsistencyQuery hn
        refine ⟨⟨cs, p⟩, ⟨⟨q, rfl, hq⟩, by simpa using hv⟩, ?_, ?_⟩
        · exact not_lt.1 hc
        · exact not_lt.1 ht

theorem addObservation_spec (hs : s.Seen) (h : addObservation s (o, i) = .ok s') :
    s'.Seen ∧ ∃ x, Normal o x ∧ ∀ y, y ∈ s'.checks ↔ y ∈ s.checks ∨ y = x := by
  obtain ⟨x, hx, hc, ht⟩ := normal_of_addObservation (.inl ⟨s', h⟩)
  rw [addObservation_normal hx hc ht] at h
  split at h
  next previous hl =>
    split_ifs at h with hp
    cases h
    obtain ⟨y, hy, hyk, hyp⟩ := (hs _ _).1 hl
    obtain rfl := ConsistencyCheck.eq_of_queryKey hyk (hyp.trans (not_not.1 hp))
    refine ⟨hs, y, hx, fun z => ⟨.inl, ?_⟩⟩
    rintro (hz | rfl)
    · exact hz
    · exact hy
  next hl =>
    cases h
    refine ⟨ObservationState.Seen.record (s := s.count o) hs hl, x, hx, fun y => ?_⟩
    simp [ObservationState.record, ObservationState.count]

theorem addObservations_spec : ∀ {obs : List (Option ConsistencyObservation)} {i : ℕ}
    {s : ObservationState}, s.Seen → (obs.zipIdx i).foldlM addObservation s = .ok s' →
      s'.Seen ∧ (∀ o ∈ obs, ∃ x, Normal o x) ∧
        ∀ x, x ∈ s'.checks ↔ x ∈ s.checks ∨ ∃ o ∈ obs, Normal o x
  | [], i, s, hs, h => by
    obtain rfl : s = s' := Except.ok.inj h
    exact ⟨hs, by simp, by simp⟩
  | o :: obs, i, s, hs, h => by
    rw [List.zipIdx_cons, List.foldlM_cons, Attempt.bind_eq_ok] at h
    obtain ⟨u, hu, h⟩ := h
    obtain ⟨hseen, x, hx, hmem⟩ := addObservation_spec hs hu
    obtain ⟨hseen', hall, hmem'⟩ := addObservations_spec hseen h
    refine ⟨hseen', List.forall_mem_cons.2 ⟨⟨x, hx⟩, hall⟩, fun y => ?_⟩
    rw [hmem', hmem, or_assoc, List.exists_mem_cons_iff]
    refine or_congr_right (or_congr_left ⟨?_, fun hy => hy.unique hx⟩)
    rintro rfl
    exact hx

theorem addObservations_contradiction : ∀ {obs : List (Option ConsistencyObservation)} {i j : ℕ}
    {s : ObservationState}, s.Seen →
    (obs.zipIdx i).foldlM addObservation s = .error (.contradiction j) →
      ∃ x y, (∃ o ∈ obs, Normal o x) ∧ (y ∈ s.checks ∨ ∃ o ∈ obs, Normal o y) ∧
        y.criteria = x.criteria ∧ y.position ≠ x.position
  | [], _, _, _, _, h => by cases h
  | o :: obs, i, j, s, hs, h => by
    rw [List.zipIdx_cons, List.foldlM_cons] at h
    rcases hu : addObservation s (o, i) with e | u
    · rw [hu] at h
      obtain rfl : e = .contradiction j := Except.error.inj h
      obtain ⟨x, hx, hc, ht⟩ := normal_of_addObservation (.inr ⟨j, hu⟩)
      rw [addObservation_normal hx hc ht] at hu
      split at hu
      next previous hl =>
        split_ifs at hu with hp
        obtain ⟨y, hy, hyk, rfl⟩ := (hs _ _).1 hl
        exact ⟨x, y, ⟨o, List.mem_cons_self, hx⟩, .inl hy, queryKey_injective hyk, hp⟩
      next => cases hu
    · rw [hu] at h
      obtain ⟨hseen, z, hz, hmem⟩ := addObservation_spec hs hu
      obtain ⟨x, y, ⟨o', ho', hx⟩, hy, he⟩ := addObservations_contradiction hseen h
      refine ⟨x, y, ⟨o', List.mem_cons_of_mem _ ho', hx⟩, ?_, he⟩
      rcases hy with hy | ⟨o'', ho'', hy⟩
      · rcases (hmem y).1 hy with hy | rfl
        · exact .inl hy
        · exact .inr ⟨o, List.mem_cons_self, hz⟩
      · exact .inr ⟨o'', List.mem_cons_of_mem _ ho'', hy⟩

def OnePosition (checks : ConsistencyCheck → Prop) : Prop :=
  ∀ x y, checks x → checks y → x.criteria = y.criteria → x.position = y.position

theorem ObservationState.Seen.agree (h : s.Seen) : OnePosition (· ∈ s.checks) := by
  intro x y hx hy hc
  have h1 := (h (queryKey x.criteria) x.position).2 ⟨x, hx, rfl, rfl⟩
  have h2 := (h (queryKey x.criteria) y.position).2 ⟨y, hy, by rw [hc], rfl⟩
  exact Option.some.inj (h1.symm.trans h2)

theorem exists_addObservations : ∀ {obs : List (Option ConsistencyObservation)} {i : ℕ}
    {s : ObservationState}, s.Seen →
    s.totalCriteria + (obs.map criteriaCount).sum ≤ maxConsistencyCriteria →
    s.totalTags + (obs.map tagCount).sum ≤ maxConsistencyTags →
    (∀ o ∈ obs, ∃ x, Normal o x) → OnePosition (fun x => x ∈ s.checks ∨ ∃ o ∈ obs, Normal o x) →
      ∃ s', (obs.zipIdx i).foldlM addObservation s = .ok s'
  | [], _, s, _, _, _, _, _ => ⟨s, rfl⟩
  | o :: obs, i, s, hs, hc, ht, hall, hagree => by
    rw [List.map_cons, List.sum_cons, ← Nat.add_assoc] at hc ht
    obtain ⟨x, hx⟩ := hall o List.mem_cons_self
    have hadd := addObservation_normal (i := i) hx (Nat.le_of_add_right_le hc)
      (Nat.le_of_add_right_le ht)
    obtain ⟨u, hu, hcriteria, htags⟩ : ∃ u, addObservation s (o, i) = .ok u ∧
        u.totalCriteria = s.totalCriteria + criteriaCount o ∧
        u.totalTags = s.totalTags + tagCount o := by
      rw [hadd]
      split
      next previous hl =>
        obtain ⟨y, hy, hyk, rfl⟩ := (hs _ _).1 hl
        have hp := hagree y x (.inl hy) (.inr ⟨o, List.mem_cons_self, hx⟩) (queryKey_injective hyk)
        rw [if_neg (not_not.2 hp)]
        exact ⟨_, rfl, rfl, rfl⟩
      next => exact ⟨_, rfl, rfl, rfl⟩
    obtain ⟨hseen, z, hz, hmem⟩ := addObservation_spec hs hu
    have hsub : ∀ y, (y ∈ u.checks ∨ ∃ o ∈ obs, Normal o y) →
        y ∈ s.checks ∨ ∃ o' ∈ o :: obs, Normal o' y := by
      rintro y (hy | ⟨o', ho', hy⟩)
      · rcases (hmem y).1 hy with hy | rfl
        · exact .inl hy
        · exact .inr ⟨o, List.mem_cons_self, hz⟩
      · exact .inr ⟨o', List.mem_cons_of_mem _ ho', hy⟩
    obtain ⟨s', hs'⟩ := exists_addObservations (i := i + 1) hseen (hcriteria ▸ hc) (htags ▸ ht)
      (fun o ho => hall o (List.mem_cons_of_mem _ ho))
      fun a b ha hb => hagree a b (hsub a ha) (hsub b hb)
    refine ⟨s', ?_⟩
    rw [List.zipIdx_cons, List.foldlM_cons, Attempt.bind_eq_ok]
    exact ⟨u, hu, hs'⟩

end Observe

theorem seen_empty : ObservationState.Seen {} := by
  intro key position
  simp

/-- The limits on a list of observations. -/
structure WithinLimits (obs : List (Option ConsistencyObservation)) : Prop where
  observations : obs.length ≤ maxConsistencyObservations
  criteria : (obs.map criteriaCount).sum ≤ maxConsistencyCriteria
  tags : (obs.map tagCount).sum ≤ maxConsistencyTags

section Checks

variable {obs : List (Option ConsistencyObservation)} {checks : List ConsistencyCheck}

theorem checks_of_accepted (h : consistencyChecksFromObservations obs = .ok checks) :
    (∀ o ∈ obs, ∃ x, Normal o x) ∧ OnePosition (fun x => ∃ o ∈ obs, Normal o x) ∧
      ∀ x, x ∈ checks ↔ ∃ o ∈ obs, Normal o x := by
  unfold consistencyChecksFromObservations at h
  split_ifs at h
  obtain ⟨s, hs, rfl⟩ := Attempt.map_eq_ok.1 h
  obtain ⟨hseen, hall, hmem⟩ := addObservations_spec seen_empty hs
  have hmem : ∀ x, x ∈ s.checks ↔ ∃ o ∈ obs, Normal o x := fun x => by simpa using hmem x
  exact ⟨hall, fun x y hx hy => hseen.agree x y ((hmem x).2 hx) ((hmem y).2 hy), hmem⟩

theorem exists_checks (hl : WithinLimits obs) (hall : ∀ o ∈ obs, ∃ x, Normal o x)
    (hagree : OnePosition fun x => ∃ o ∈ obs, Normal o x) :
    ∃ checks, consistencyChecksFromObservations obs = .ok checks := by
  obtain ⟨s, hs⟩ := exists_addObservations (i := 0) seen_empty
    ((Nat.zero_add _).symm ▸ hl.criteria) ((Nat.zero_add _).symm ▸ hl.tags) hall
    fun x y hx hy => hagree x y (by simpa using hx) (by simpa using hy)
  unfold consistencyChecksFromObservations
  rw [if_neg (not_lt.2 hl.observations), hs]
  exact ⟨_, rfl⟩

theorem contradiction_of_rejected {j : ℕ}
    (h : consistencyChecksFromObservations obs = .error (.contradiction j)) :
    ∃ x y, (∃ o ∈ obs, Normal o x) ∧ (∃ o ∈ obs, Normal o y) ∧ y.criteria = x.criteria ∧
      y.position ≠ x.position := by
  unfold consistencyChecksFromObservations at h
  split_ifs at h
  · cases h
  rcases hs : obs.zipIdx.foldlM addObservation {} with e | s
  · rw [hs] at h
    obtain rfl : e = .contradiction j := Except.error.inj h
    obtain ⟨x, y, hx, hy, he⟩ := addObservations_contradiction seen_empty hs
    exact ⟨x, y, hx, by simpa using hy, he⟩
  · rw [hs] at h
    cases h

end Checks

theorem limits_of_addObservations {s' : ObservationState} :
    ∀ {obs : List (Option ConsistencyObservation)} {i : ℕ} {s : ObservationState},
    s.totalCriteria ≤ maxConsistencyCriteria → s.totalTags ≤ maxConsistencyTags →
    (obs.zipIdx i).foldlM addObservation s = .ok s' →
      s.totalCriteria + (obs.map criteriaCount).sum ≤ maxConsistencyCriteria ∧
        s.totalTags + (obs.map tagCount).sum ≤ maxConsistencyTags
  | [], _, _, hc, ht, _ => ⟨hc, ht⟩
  | o :: obs, i, s, _, _, h => by
    rw [List.zipIdx_cons, List.foldlM_cons, Attempt.bind_eq_ok] at h
    obtain ⟨u, hu, h⟩ := h
    obtain ⟨x, hx, hc, ht⟩ := normal_of_addObservation (.inl ⟨u, hu⟩)
    have hcount : u.totalCriteria = s.totalCriteria + criteriaCount o ∧
        u.totalTags = s.totalTags + tagCount o := by
      rw [addObservation_normal hx hc ht] at hu
      split at hu
      · split_ifs at hu
        cases hu
        exact ⟨rfl, rfl⟩
      · cases hu
        exact ⟨rfl, rfl⟩
    rw [← hcount.1] at hc
    rw [← hcount.2] at ht
    have hrest := limits_of_addObservations hc ht h
    rwa [hcount.1, hcount.2, Nat.add_assoc, Nat.add_assoc] at hrest

/-- Observations are accepted exactly where they are within the limits, each of them has a normal
form, and those of one normal form were made at one position. -/
theorem observations_accepted_iff (obs : List (Option ConsistencyObservation)) :
    (∃ checks, consistencyChecksFromObservations obs = .ok checks) ↔
      WithinLimits obs ∧ (∀ o ∈ obs, ∃ x, Normal o x) ∧
        OnePosition fun x => ∃ o ∈ obs, Normal o x := by
  constructor
  · rintro ⟨checks, h⟩
    obtain ⟨hall, hagree, -⟩ := checks_of_accepted h
    refine ⟨?_, hall, hagree⟩
    unfold consistencyChecksFromObservations at h
    split_ifs at h with hlen
    obtain ⟨s, hs, -⟩ := Attempt.map_eq_ok.1 h
    obtain ⟨hc, ht⟩ := limits_of_addObservations (Nat.zero_le _) (Nat.zero_le _) hs
    exact ⟨not_lt.1 hlen, by simpa using hc, by simpa using ht⟩
  · rintro ⟨hl, hall, hagree⟩
    exact exists_checks hl hall hagree

/-- Every element of one list is related to one of the other, wherever and however often. -/
def SameUpTo {α : Type*} (R : α → α → Prop) (l l' : List (Option α)) : Prop :=
  (∀ a ∈ l, ∃ a' ∈ l', Option.Rel R a a') ∧ ∀ a' ∈ l', ∃ a ∈ l, Option.Rel R a a'

/-- The empty operator and `eq` are two spellings of one. -/
def ReadTag.Alike (t t' : ReadTag) : Prop :=
  t.key = t'.key ∧ t.value = t'.value ∧
    (t.operator = t'.operator ∨ t.operator ∈ ["", "eq"] ∧ t'.operator ∈ ["", "eq"])

def Criterion.Alike (c c' : Criterion) : Prop := SameUpTo ReadTag.Alike c.tags c'.tags

def Query.Alike (q q' : Query) : Prop := SameUpTo Criterion.Alike q.criteria q'.criteria

def ConsistencyObservation.Alike (o o' : ConsistencyObservation) : Prop :=
  Option.Rel Query.Alike o.query o'.query ∧ o.position = o'.position

theorem SameUpTo.symm {R : α → α → Prop} (hR : ∀ a b, R a b → R b a) {l l' : List (Option α)}
    (h : SameUpTo R l l') : SameUpTo R l' l := by
  have hrel : ∀ a b, Option.Rel R a b → Option.Rel R b a := by
    rintro _ _ (⟨h⟩ | _)
    · exact .some (hR _ _ h)
    · exact .none
  refine ⟨fun a ha => ?_, fun a ha => ?_⟩
  · obtain ⟨b, hb, h⟩ := h.2 a ha
    exact ⟨b, hb, hrel _ _ h⟩
  · obtain ⟨b, hb, h⟩ := h.1 a ha
    exact ⟨b, hb, hrel _ _ h⟩

theorem SameUpTo.of_some {R : α → α → Prop} {l l' : List (Option α)} (h : SameUpTo R l l') {a' : α}
    (ha' : some a' ∈ l') : ∃ a, some a ∈ l ∧ R a a' := by
  obtain ⟨a, ha, hrel⟩ := h.2 (some a') ha'
  cases hrel with
  | some hrel => exact ⟨_, ha, hrel⟩

theorem ReadTag.Alike.symm (t t' : ReadTag) (h : t.Alike t') : t'.Alike t :=
  ⟨h.1.symm, h.2.1.symm, h.2.2.imp Eq.symm And.symm⟩

theorem Criterion.Alike.symm (c c' : Criterion) (h : c.Alike c') : c'.Alike c :=
  SameUpTo.symm ReadTag.Alike.symm h

theorem Query.Alike.symm (q q' : Query) (h : q.Alike q') : q'.Alike q :=
  SameUpTo.symm Criterion.Alike.symm h

variable {t t' : ReadTag}

theorem ReadTag.Alike.canonicalTagOperator (h : t.Alike t') :
    canonicalTagOperator t.operator = canonicalTagOperator t'.operator := by
  rcases h.2.2 with h | ⟨h, h'⟩
  · rw [h]
  · have heq : ∀ o ∈ ["", "eq"], Orisun.canonicalTagOperator o = some .eq := by decide
    rw [heq _ h, heq _ h']

theorem ReadTag.Alike.validateTag (h : t.Alike t') (ht : validateTag t = .ok ()) :
    validateTag t' = .ok () := by
  rw [validateTag_ok] at ht ⊢
  rw [← h.1, ← h.2.1, ← h.canonicalTagOperator]
  exact ht

theorem ReadTag.Alike.normalizedTag (h : t.Alike t') :
    normalizedTag t = normalizedTag t' := by
  have hop := h.canonicalTagOperator
  obtain ⟨hk, hv, ho⟩ := h
  rcases t with ⟨k, v, o⟩
  rcases t' with ⟨k', v', o'⟩
  obtain rfl : k = k' := hk
  obtain rfl : v = v' := hv
  unfold Orisun.normalizedTag
  rw [← hop]
  split_ifs with he
  · rfl
  · rcases ho with rfl | ⟨ho, -⟩
    · rfl
    · have heq : ∀ o ∈ ["", "eq"], Orisun.canonicalTagOperator o = some .eq := by decide
      exact absurd (heq o ho) he

theorem Criterion.Alike.normal {c' : Criterion} (h : c.Alike c') (hn : c.Normal n) :
    c'.Normal n where
  accepted :=
    { ne_nil := by
        obtain ⟨tag, htag⟩ := List.exists_mem_of_ne_nil _ hn.accepted.ne_nil
        obtain ⟨tag', htag', -⟩ := h.1 tag htag
        exact List.ne_nil_of_mem htag'
      valid := fun tag' htag' => by
        obtain ⟨tag, htag, hrel⟩ := h.2 tag' htag'
        obtain ⟨t, rfl, ht⟩ := hn.accepted.valid tag htag
        cases hrel with
        | some hrel => exact ⟨_, rfl, hrel.validateTag ht⟩
      single := fun t₁' t₂' h₁' h₂' e₁ e₂ hk => by
        obtain ⟨t₁, h₁, r₁⟩ := h.of_some h₁'
        obtain ⟨t₂, h₂, r₂⟩ := h.of_some h₂'
        rw [← r₁.canonicalTagOperator] at e₁
        rw [← r₂.canonicalTagOperator] at e₂
        rw [← r₁.2.1, ← r₂.2.1]
        exact hn.accepted.single t₁ t₂ h₁ h₂ e₁ e₂ (r₁.1.trans (hk.trans r₂.1.symm)) }
  sorted := hn.sorted
  nodup := hn.nodup
  tags x := by
    rw [hn.tags x]
    constructor
    · rintro ⟨t, ht, rfl⟩
      obtain ⟨t', ht', hrel⟩ := (Criterion.Alike.symm _ _ h).of_some ht
      exact ⟨t', ht', (ReadTag.Alike.symm _ _ hrel).normalizedTag⟩
    · rintro ⟨t', ht', rfl⟩
      obtain ⟨t, ht, hrel⟩ := h.of_some ht'
      exact ⟨t, ht, hrel.normalizedTag.symm⟩

theorem Query.Alike.normal {q' : Query} (h : q.Alike q') (hq : q.Normal cs) : q'.Normal cs where
  ne_nil := by
    obtain ⟨c, hc⟩ := List.exists_mem_of_ne_nil _ hq.ne_nil
    obtain ⟨c', hc', -⟩ := h.1 c hc
    exact List.ne_nil_of_mem hc'
  accepted c' hc' := by
    obtain ⟨c, hc, hrel⟩ := h.2 c' hc'
    obtain ⟨d, n, rfl, hn⟩ := hq.accepted c hc
    cases hrel with
    | some hrel => exact ⟨_, n, rfl, Criterion.Alike.normal hrel hn⟩
  sorted := hq.sorted
  nodup := hq.nodup
  criteria n := by
    rw [hq.criteria n]
    constructor
    · rintro ⟨c, hc, hn⟩
      obtain ⟨c', hc', hrel⟩ := (Query.Alike.symm _ _ h).of_some hc
      exact ⟨c', hc', (Criterion.Alike.symm _ _ hrel).normal hn⟩
    · rintro ⟨c', hc', hn⟩
      obtain ⟨c, hc, hrel⟩ := h.of_some hc'
      exact ⟨c, hc, (Criterion.Alike.symm _ _ hrel).normal hn⟩

theorem ConsistencyObservation.Alike.symm (o o' : ConsistencyObservation) (h : o.Alike o') :
    o'.Alike o := by
  rcases o with ⟨q, p⟩
  rcases o' with ⟨q', p'⟩
  obtain ⟨hq, hp⟩ := h
  refine ⟨?_, hp.symm⟩
  cases hq with
  | some hq => exact .some (Query.Alike.symm _ _ hq)
  | none => exact .none

theorem ConsistencyObservation.Normal.of_alike {o o' : Option ConsistencyObservation}
    (h : Option.Rel ConsistencyObservation.Alike o o') (hx : Normal o x) :
    Normal o' x := by
  obtain ⟨⟨q, rfl, hq⟩, hv⟩ := hx
  cases h with
  | @some _ o' h =>
    obtain ⟨query, position⟩ := o'
    obtain ⟨hrel, hp⟩ := h
    obtain rfl : _ = position := hp
    cases hrel with
    | some hrel => exact ⟨⟨_, rfl, hrel.normal hq⟩, hv⟩

theorem normal_iff_of_sameUpTo {obs obs' : List (Option ConsistencyObservation)}
    (h : SameUpTo ConsistencyObservation.Alike obs obs') (x : ConsistencyCheck) :
    (∃ o ∈ obs, Normal o x) ↔ ∃ o ∈ obs', Normal o x := by
  constructor
  · rintro ⟨o, ho, hx⟩
    obtain ⟨o', ho', hrel⟩ := h.1 o ho
    exact ⟨o', ho', .of_alike hrel hx⟩
  · rintro ⟨o', ho', hx⟩
    obtain ⟨o, ho, hrel⟩ := (h.symm ConsistencyObservation.Alike.symm).1 o' ho'
    exact ⟨o, ho, .of_alike hrel hx⟩

theorem accepted_of_sameUpTo {obs obs' : List (Option ConsistencyObservation)}
    {checks : List ConsistencyCheck} (h : SameUpTo ConsistencyObservation.Alike obs obs')
    (hl : WithinLimits obs') (hok : consistencyChecksFromObservations obs = .ok checks) :
    ∃ checks', consistencyChecksFromObservations obs' = .ok checks' := by
  obtain ⟨hall, hagree, -⟩ := checks_of_accepted hok
  have hall' : ∀ o' ∈ obs', ∃ x, Normal o' x := by
    intro o' ho'
    obtain ⟨o, ho, hrel⟩ := h.2 o' ho'
    obtain ⟨x, hx⟩ := hall o ho
    exact ⟨x, .of_alike hrel hx⟩
  exact exists_checks hl hall' fun x y hx hy => hagree x y
    ((normal_iff_of_sameUpTo h x).2 hx) ((normal_iff_of_sameUpTo h y).2 hy)

/-- The position of the latest event that matches one of the criteria. -/
def latestMatch (tag : Meaning.TagHolds) (log : List Event) (criteria : List ReadCriterion) :
    Position :=
  latestPosition ((log.filter fun e => criteria.any fun c => Meaning.tags tag c.tags e.data).map
    Event.position)

def ConsistencyCheck.Holds (tag : Meaning.TagHolds) (log : List Event) (x : ConsistencyCheck) :
    Prop :=
  latestMatch tag log x.criteria = x.position

/-- An observation holds where its query, as it was given, stands at its position. -/
def ConsistencyObservation.Holds (tag : Meaning.TagHolds) (log : List Event)
    (o : ConsistencyObservation) : Prop :=
  ∀ q p, o.query = some q → o.position = some p → latestMatch tag log q.given = p

theorem Query.Normal.latestMatch (h : q.Normal cs) (tag : Meaning.TagHolds) (log : List Event) :
    latestMatch tag log cs = latestMatch tag log q.given := by
  obtain ⟨q', hq', hform⟩ :=
    normalizeConsistencyQuery_eq_ok (normalizeConsistencyQuery_eq_ok_iff.2 ⟨h, rfl⟩)
  cases hq'
  unfold Orisun.latestMatch
  simp only [hform.meaning tag]

theorem ConsistencyObservation.Normal.holds_iff {o : ConsistencyObservation} (h : Normal (some o) x)
    (tag : Meaning.TagHolds) (log : List Event) :
    x.Holds tag log ↔ o.Holds tag log := by
  obtain ⟨⟨q, ho, hq⟩, -⟩ := h
  cases ho
  rw [ConsistencyCheck.Holds, hq.latestMatch tag log]
  constructor
  · rintro h q' p ⟨⟩ ⟨⟩
    exact h
  · intro h
    exact h q x.position rfl rfl

/-- Normalising the observations of a save keeps what they say. -/
theorem observations_normalised (obs : List (Option ConsistencyObservation)) :
    (∀ checks, consistencyChecksFromObservations obs = .ok checks → ∀ tag log,
      (∀ x ∈ checks, x.Holds tag log) ↔ ∀ o, some o ∈ obs → o.Holds tag log) ∧
    (∀ obs', SameUpTo ConsistencyObservation.Alike obs obs' → WithinLimits obs →
      WithinLimits obs' →
      ((∃ checks, consistencyChecksFromObservations obs = .ok checks) ↔
        ∃ checks', consistencyChecksFromObservations obs' = .ok checks') ∧
      ∀ checks checks', consistencyChecksFromObservations obs = .ok checks →
        consistencyChecksFromObservations obs' = .ok checks' → ∀ x, x ∈ checks ↔ x ∈ checks') ∧
    ∀ j, consistencyChecksFromObservations obs = .error (.contradiction j) → ∀ tag log,
      ¬ ∀ o, some o ∈ obs → o.Holds tag log := by
  refine ⟨fun checks h tag log => ?_, fun obs' hsame hl hl' => ⟨⟨?_, ?_⟩, ?_⟩,
    fun j h tag log hall => ?_⟩
  · obtain ⟨hall, -, hmem⟩ := checks_of_accepted h
    constructor
    · intro hchecks o ho
      obtain ⟨x, hx⟩ := hall (some o) ho
      exact (hx.holds_iff tag log).1 (hchecks x ((hmem x).2 ⟨some o, ho, hx⟩))
    · intro hobs x hx
      obtain ⟨o, ho, hnormal⟩ := (hmem x).1 hx
      obtain ⟨q, rfl, -⟩ := hnormal.exists_query
      exact (hnormal.holds_iff tag log).2 (hobs _ ho)
  · rintro ⟨checks, h⟩
    exact accepted_of_sameUpTo hsame hl' h
  · rintro ⟨checks', h'⟩
    exact accepted_of_sameUpTo (hsame.symm ConsistencyObservation.Alike.symm) hl h'
  · intro checks checks' h h' x
    rw [(checks_of_accepted h).2.2 x, (checks_of_accepted h').2.2 x,
      normal_iff_of_sameUpTo hsame x]
  · obtain ⟨x, y, ⟨o, ho, hx⟩, ⟨o', ho', hy⟩, hc, hp⟩ := contradiction_of_rejected h
    obtain ⟨q, rfl, -⟩ := hx.exists_query
    obtain ⟨q', rfl, -⟩ := hy.exists_query
    have h1 := (hx.holds_iff tag log).2 (hall _ ho)
    have h2 := (hy.holds_iff tag log).2 (hall _ ho')
    rw [ConsistencyCheck.Holds, hc] at h2
    exact hp (h2.symm.trans h1)

def sampleObservation : ConsistencyObservation :=
  ⟨some ⟨[some ⟨[some ⟨"kind", "a", ""⟩]⟩]⟩, some ⟨-1, -1⟩⟩

def respelledObservation : ConsistencyObservation :=
  ⟨some ⟨[some ⟨[some ⟨"kind", "a", "eq"⟩, some ⟨"kind", "a", ""⟩]⟩]⟩, some ⟨-1, -1⟩⟩

theorem sample_alike : sampleObservation.Alike respelledObservation := by
  have hspelled : ReadTag.Alike ⟨"kind", "a", ""⟩ ⟨"kind", "a", "eq"⟩ := ⟨rfl, rfl, by decide⟩
  have hsame : ReadTag.Alike ⟨"kind", "a", ""⟩ ⟨"kind", "a", ""⟩ := ⟨rfl, rfl, .inl rfl⟩
  refine ⟨.some ⟨?_, ?_⟩, rfl⟩
  all_goals
    simp only [List.mem_singleton, forall_eq, exists_eq_left]
    refine .some ⟨?_, ?_⟩
    · simp only [List.mem_singleton, forall_eq]
      exact ⟨_, List.mem_cons_self, .some hspelled⟩
    · simp only [List.mem_cons, List.not_mem_nil, or_false, forall_eq_or_imp, forall_eq,
        exists_eq_left]
      exact ⟨.some hspelled, .some hsame⟩

theorem sample_sameUpTo : SameUpTo ConsistencyObservation.Alike [some sampleObservation]
    [some respelledObservation, some respelledObservation] := by
  refine ⟨fun o ho => ?_, fun o ho => ?_⟩
  · obtain rfl := List.mem_singleton.1 ho
    exact ⟨_, List.mem_cons_self, .some sample_alike⟩
  · obtain rfl : o = some respelledObservation := by simpa using ho
    exact ⟨_, List.mem_cons_self, .some sample_alike⟩

def sampleCheck : ConsistencyCheck := ⟨[⟨[⟨"kind", "a", ""⟩]⟩], ⟨-1, -1⟩⟩

theorem observations_normalised_sample :
    consistencyChecksFromObservations [some sampleObservation] = .ok [sampleCheck] ∧
    (∀ tag log, (∀ x ∈ [sampleCheck], x.Holds tag log) ↔
      ∀ o, some o ∈ [some sampleObservation] → o.Holds tag log) ∧
    (∃ checks, consistencyChecksFromObservations
      [some respelledObservation, some respelledObservation] = .ok checks) ∧
    ∀ tag log, ¬ ∀ o, some o ∈ [some sampleObservation,
      some { respelledObservation with position := some ⟨4, 0⟩ }] → o.Holds tag log := by
  have hok : consistencyChecksFromObservations [some sampleObservation] = .ok [sampleCheck] := by
    decide +kernel
  refine ⟨hok, (observations_normalised _).1 _ hok, ?_, ?_⟩
  · refine (((observations_normalised _).2.1 _ sample_sameUpTo ⟨?_, ?_, ?_⟩ ⟨?_, ?_, ?_⟩).1).1
      ⟨_, hok⟩
    all_goals decide
  · exact (observations_normalised _).2.2 1 (by decide +kernel)

end Orisun
