import Orisun.Lib.Attempt
import Orisun.Observations
import Orisun.Proofs.Meaning

/-!
# Normalising a query keeps its meaning

The identity of a tag determines it, and so does the key of a criterion, so collecting tags and
criteria by these texts loses none of them.
-/

namespace Orisun

/-- The order of the tags is that of their keys, then of their operators and values. -/
def ReadTag.rank (t : ReadTag) : String ×ₗ String ×ₗ String :=
  toLex (t.key, toLex (t.operator, t.value))

theorem tagLess_iff {a b : ReadTag} : tagLess a b = true ↔ a.rank < b.rank := by
  unfold tagLess ReadTag.rank
  rw [Prod.Lex.toLex_lt_toLex, Prod.Lex.toLex_lt_toLex]
  by_cases hk : a.key = b.key
  · by_cases ho : a.operator = b.operator
    · simp [hk, ho]
    · simp [hk, ho]
  · simp [hk]

theorem pairwise_sortedTags (ts : List ReadTag) :
    (ts.mergeSort fun a b => !tagLess b a).Pairwise fun a b => a.rank ≤ b.rank := by
  have hle : ∀ a b : ReadTag, (!tagLess b a) = true ↔ a.rank ≤ b.rank := by
    intro a b
    rw [Bool.not_eq_true', ← not_lt, ← tagLess_iff, Bool.not_eq_true]
  refine (List.pairwise_mergeSort ?_ ?_ ts).imp fun {a b} h => (hle a b).1 h
  · intro a b c hab hbc
    exact (hle a c).2 (((hle a b).1 hab).trans ((hle b c).1 hbc))
  · intro a b
    rw [Bool.or_eq_true, hle, hle]
    exact le_total _ _

theorem tagIdentity_selfDelimiting : Netstring.SelfDelimiting tagIdentity := by
  intro a b r r' h
  have henc := Netstring.encode_selfDelimiting
  obtain ⟨hab, hr⟩ := (henc.pair (henc.pair henc)) (a.key, a.operator, a.value)
    (b.key, b.operator, b.value) r r' h
  simp only [Prod.mk.injEq] at hab
  rcases a with ⟨k, v, o⟩
  rcases b with ⟨k', v', o'⟩
  simp only at hab
  obtain ⟨rfl, rfl, rfl⟩ := hab
  exact ⟨rfl, hr⟩

theorem tagIdentity_ne_empty (tag : ReadTag) : tagIdentity tag ≠ "" := by
  intro h
  have hl := congrArg String.toList h
  simp [tagIdentity, Netstring.encode] at hl

theorem tagIdentity_injective : Function.Injective tagIdentity := by
  intro a b h
  exact (tagIdentity_selfDelimiting a b "" "" (by rw [h])).1

theorem criterionKey_injective : Function.Injective criterionKey := by
  rintro ⟨ts⟩ ⟨ts'⟩ h
  exact congrArg ReadCriterion.mk
    (tagIdentity_selfDelimiting.concat_injective tagIdentity_ne_empty h)

theorem validateTag_ok {t : ReadTag} : validateTag t = .ok () ↔
    t.key ≠ "" ∧ (containsNul t.key = false ∧ containsNul t.value = false) ∧
      (canonicalTagOperator t.operator).isSome := by
  unfold validateTag
  split_ifs with h1 h2 h3
  · simp [h1]
  · simp only [Bool.or_eq_true] at h2
    simp only [ne_eq, false_iff]
    rintro ⟨-, ⟨hk, hv⟩, -⟩
    simp [hk, hv] at h2
  · simp [Option.isNone_iff_eq_none.1 h3]
  · simp only [Bool.or_eq_true, not_or, Bool.not_eq_true] at h2
    simp only [Option.isNone_iff_eq_none, ← ne_eq, Option.ne_none_iff_isSome] at h3
    simp [h1, h2, h3]

theorem canonicalTagOperator_normalizedTag (t : ReadTag) :
    canonicalTagOperator (normalizedTag t).operator = canonicalTagOperator t.operator := by
  unfold normalizedTag
  split_ifs with h
  · rw [h]
    rfl
  · rfl

theorem validateTag_normalizedTag {t : ReadTag} (h : validateTag t = .ok ()) :
    validateTag (normalizedTag t) = .ok () := by
  rw [validateTag_ok] at h ⊢
  rw [canonicalTagOperator_normalizedTag]
  unfold normalizedTag
  split_ifs <;> exact h

variable {ci : ℕ}

theorem addTag_eq_ok {j : ℕ} {s s' : Predicates} {tag : Option ReadTag}
    (h : addTag ci s (tag, j) = .ok s') : ∃ t, tag = some t ∧ validateTag t = .ok () ∧
      s'.predicates = Fields.insert (tagIdentity (normalizedTag t)) (normalizedTag t)
        s.predicates := by
  unfold addTag at h
  rcases tag with _ | t
  · simp at h
  · dsimp only at h
    rcases hv : validateTag t with e | ⟨⟩
    · simp [hv] at h
    · rw [hv] at h
      dsimp only at h
      split_ifs at h
      · cases h
        exact ⟨t, rfl, hv, rfl⟩
      · cases h
        exact ⟨t, rfl, hv, rfl⟩

theorem addTags_spec : ∀ {tags : List (Option ReadTag)} {j : ℕ} {s s' : Predicates},
    Fields.Indexed tagIdentity s.predicates →
    (tags.zipIdx j).foldlM (addTag ci) s = .ok s' →
      (∀ tag ∈ tags, ∃ t, tag = some t ∧ validateTag t = .ok ()) ∧
      ∀ x, x ∈ s'.predicates.map Prod.snd ↔
        x ∈ s.predicates.map Prod.snd ∨ ∃ t, some t ∈ tags ∧ x = normalizedTag t
  | [], j, s, s', _, h => by
    obtain rfl : s = s' := Except.ok.inj h
    simp
  | tag :: tags, j, s, s', hi, h => by
    rw [List.zipIdx_cons, List.foldlM_cons, Attempt.bind_eq_ok] at h
    obtain ⟨u, hu, h⟩ := h
    obtain ⟨t, rfl, hv, hp⟩ := addTag_eq_ok hu
    obtain ⟨hall, hmem⟩ := addTags_spec (hp ▸ hi.insert (normalizedTag t)) h
    refine ⟨List.forall_mem_cons.2 ⟨⟨t, rfl, hv⟩, hall⟩, fun x => ?_⟩
    · rw [hmem, hp, hi.mem_values_insert tagIdentity_injective]
      simp only [List.mem_cons, Option.some.injEq, or_and_right, exists_or, exists_eq_left]
      tauto

/-- A criterion as it is received, without its nil tags. -/
def Criterion.given (c : Criterion) : ReadCriterion := ⟨c.tags.filterMap id⟩

/-- What a normalised criterion has kept of the one it was made from. -/
structure Normalizes (c : Criterion) (n : ReadCriterion) : Prop where
  tags : ∀ x, x ∈ n.tags ↔ ∃ t ∈ c.given.tags, x = normalizedTag t
  ne_nil : n.tags ≠ []
  valid : ∀ t ∈ n.tags, validateTag t = .ok ()

theorem normalizeCriterion_eq_ok {c : Option Criterion} {n : ReadCriterion}
    (h : normalizeCriterion ci c = .ok n) : ∃ c', c = some c' ∧ Normalizes c' n := by
  unfold normalizeCriterion at h
  rcases c with _ | c
  · simp at h
  · dsimp only at h
    split_ifs at h with hne
    obtain ⟨s, hs, rfl⟩ := Attempt.map_eq_ok.1 h
    obtain ⟨hv, hmem⟩ := addTags_spec (fun f hf => by simp at hf) hs
    have htags : ∀ x, x ∈ (s.predicates.map Prod.snd).mergeSort (fun a b => !tagLess b a) ↔
        ∃ t ∈ c.given.tags, x = normalizedTag t := by
      intro x
      rw [List.mem_mergeSort, hmem]
      simp [Criterion.given]
    refine ⟨c, rfl, htags, ?_, ?_⟩
    · obtain ⟨tag, htag⟩ := List.exists_mem_of_ne_nil c.tags hne
      obtain ⟨t, rfl, -⟩ := hv tag htag
      exact List.ne_nil_of_mem ((htags _).2 ⟨t, by simpa [Criterion.given] using htag, rfl⟩)
    · intro x hx
      obtain ⟨t, ht, rfl⟩ := (htags x).1 hx
      obtain ⟨t', he, ht'⟩ := hv (some t) (by simpa [Criterion.given] using ht)
      exact validateTag_normalizedTag (Option.some.inj he ▸ ht')

theorem Normalizes.meaning {c : Criterion} {n : ReadCriterion} (h : Normalizes c n)
    (tag : Meaning.TagHolds) (data : Json) :
    Meaning.tags tag n.tags data = Meaning.tags tag c.given.tags data := by
  unfold Meaning.tags
  have hnormal : ∀ t : ReadTag, ((canonicalTagOperator (normalizedTag t).operator).any fun op =>
      tag op (normalizedTag t).key (normalizedTag t).value data)
      = (canonicalTagOperator t.operator).any fun op => tag op t.key t.value data := by
    intro t
    rw [canonicalTagOperator_normalizedTag]
    unfold normalizedTag
    split_ifs <;> rfl
  rw [Bool.eq_iff_iff, List.all_eq_true, List.all_eq_true]
  constructor
  · intro hall t ht
    rw [← hnormal]
    exact hall _ ((h.tags _).2 ⟨t, ht, rfl⟩)
  · intro hall x hx
    obtain ⟨t, ht, rfl⟩ := (h.tags x).1 hx
    rw [hnormal]
    exact hall t ht

/-- The criteria collected so far lie under their keys, and every key has one. -/
structure Collected (s : NormalizedCriteria) : Prop where
  indexed : Fields.Indexed criterionKey s.criteriaByKey
  ordered : Fields.Ordered s.criteriaByKey
  keys : ∀ c, criterionKey c ∈ s.keys ↔ c ∈ s.criteriaByKey.map Prod.snd
  keyed : ∀ k ∈ s.keys, ∃ c, k = criterionKey c

theorem Collected.lookup {s : NormalizedCriteria} (h : Collected s) {c : ReadCriterion}
    (hc : c ∈ s.criteriaByKey.map Prod.snd) :
    s.criteriaByKey.lookup (criterionKey c) = some c := by
  obtain ⟨f, hf, rfl⟩ := List.mem_map.1 hc
  rw [← h.indexed f hf]
  exact h.ordered.lookup_of_mem hf

theorem addCriterion_spec {s s' : NormalizedCriteria} {c : Option Criterion} (hs : Collected s)
    (h : addCriterion s (c, ci) = .ok s') :
    Collected s' ∧ ∃ n, normalizeCriterion ci c = .ok n ∧
      ∀ x, x ∈ s'.criteriaByKey.map Prod.snd ↔ x ∈ s.criteriaByKey.map Prod.snd ∨ x = n := by
  obtain ⟨n, hn, he⟩ := Attempt.map_eq_ok.1 h
  dsimp only at he
  split_ifs at he with hl
  · obtain ⟨x, hx⟩ := Option.isSome_iff_exists.1 hl
    obtain ⟨-, hmem⟩ := hs.indexed.eq_of_lookup criterionKey_injective hx
    subst he
    refine ⟨hs, n, hn, fun x => ⟨.inl, ?_⟩⟩
    rintro (hx | rfl)
    · exact hx
    · exact hmem
  · subst he
    have hvalues := hs.indexed.mem_values_insert criterionKey_injective n
    refine ⟨⟨hs.indexed.insert n, Fields.ordered_insert _ _ hs.ordered, fun x => ?_,
      fun k hk => ?_⟩, n, hn, fun x => by rw [hvalues, or_comm]⟩
    · rw [hvalues, List.mem_append, hs.keys, List.mem_singleton, or_comm,
        criterionKey_injective.eq_iff]
    · rcases List.mem_append.1 hk with hk | hk
      · exact hs.keyed k hk
      · exact ⟨n, List.mem_singleton.1 hk⟩

/-- The criteria of a query as it is received, without nil ones. -/
def Query.given (q : Query) : List ReadCriterion := q.criteria.filterMap (·.map Criterion.given)

theorem addCriteria_spec : ∀ {criteria : List (Option Criterion)} {i : ℕ}
    {s s' : NormalizedCriteria}, Collected s →
    (criteria.zipIdx i).foldlM addCriterion s = .ok s' → Collected s' ∧
      (∀ c ∈ criteria, ∃ c' n, c = some c' ∧ Normalizes c' n ∧
        n ∈ s'.criteriaByKey.map Prod.snd) ∧
      (∀ n ∈ s.criteriaByKey.map Prod.snd, n ∈ s'.criteriaByKey.map Prod.snd) ∧
      ∀ n ∈ s'.criteriaByKey.map Prod.snd,
        n ∈ s.criteriaByKey.map Prod.snd ∨ ∃ c, some c ∈ criteria ∧ Normalizes c n
  | [], i, s, s', hs, h => by
    obtain rfl : s = s' := Except.ok.inj h
    exact ⟨hs, by simp, fun n hn => hn, fun n hn => .inl hn⟩
  | c :: criteria, i, s, s', hs, h => by
    rw [List.zipIdx_cons, List.foldlM_cons, Attempt.bind_eq_ok] at h
    obtain ⟨u, hu, h⟩ := h
    obtain ⟨hcu, n, hok, hmem⟩ := addCriterion_spec hs hu
    obtain ⟨c', rfl, hn⟩ := normalizeCriterion_eq_ok hok
    obtain ⟨hcs, h1, h2, h3⟩ := addCriteria_spec hcu h
    refine ⟨hcs, List.forall_mem_cons.2 ⟨⟨c', n, rfl, hn, h2 n ((hmem n).2 (.inr rfl))⟩, h1⟩,
      fun m hm => h2 m ((hmem m).2 (.inl hm)), fun m hm => ?_⟩
    rcases h3 m hm with hm | ⟨d, hd, hdm⟩
    · rcases (hmem m).1 hm with hm | rfl
      · exact .inl hm
      · exact .inr ⟨c', List.mem_cons_self .., hn⟩
    · exact .inr ⟨d, List.mem_cons_of_mem _ hd, hdm⟩

/-- What the normal form of a query has kept of it. -/
structure NormalForm (q : Query) (criteria : List ReadCriterion) : Prop where
  ne_nil : criteria ≠ []
  covers : ∀ c ∈ q.criteria, ∃ c' n, c = some c' ∧ Normalizes c' n ∧ n ∈ criteria
  from_given : ∀ n ∈ criteria, ∃ c, some c ∈ q.criteria ∧ Normalizes c n

variable {criteria : List ReadCriterion}

theorem normalizeConsistencyQuery_eq_ok {query : Option Query} {key : String}
    (h : normalizeConsistencyQuery query = .ok (criteria, key)) :
    ∃ q, query = some q ∧ NormalForm q criteria := by
  unfold normalizeConsistencyQuery at h
  rcases query with _ | q
  · simp at h
  · dsimp only at h
    split_ifs at h with hne
    obtain ⟨s, hs, h⟩ := Attempt.map_eq_ok.1 h
    obtain ⟨rfl, -⟩ := Prod.mk.inj h
    have hempty : Collected {} :=
      ⟨by simp [Fields.Indexed], by simp [Fields.Ordered], by simp, by simp⟩
    obtain ⟨hcs, h1, -, h3⟩ := addCriteria_spec hempty hs
    have hmem : ∀ n, n ∈ (s.keys.mergeSort fun a b => decide (a ≤ b)).map
        (fun key => (s.criteriaByKey.lookup key).getD ⟨[]⟩) ↔ n ∈ s.criteriaByKey.map Prod.snd := by
      intro n
      simp only [List.mem_map, List.mem_mergeSort]
      constructor
      · rintro ⟨k, hk, hn⟩
        obtain ⟨c, rfl⟩ := hcs.keyed k hk
        have hc := (hcs.keys c).1 hk
        rw [hcs.lookup hc] at hn
        obtain rfl : c = n := hn
        exact List.mem_map.1 hc
      · intro hn
        have hn := List.mem_map.2 hn
        exact ⟨criterionKey n, (hcs.keys n).2 hn, by rw [hcs.lookup hn]; rfl⟩
    have hcovers : ∀ c ∈ q.criteria, ∃ c' n, c = some c' ∧ Normalizes c' n ∧ _ := fun c hc => by
      obtain ⟨c', n, hc', hn, hm⟩ := h1 c hc
      exact ⟨c', n, hc', hn, (hmem n).2 hm⟩
    refine ⟨q, rfl, ?_, hcovers, fun n hn => ?_⟩
    · obtain ⟨c, hc⟩ := List.exists_mem_of_ne_nil q.criteria hne
      obtain ⟨c', n, -, -, hm⟩ := hcovers c hc
      exact List.ne_nil_of_mem hm
    · rcases h3 n ((hmem n).1 hn) with hn | hn
      · simp at hn
      · exact hn

theorem NormalForm.meaning {q : Query} (h : NormalForm q criteria) (tag : Meaning.TagHolds)
    (data : Json) :
    (criteria.any fun c => Meaning.tags tag c.tags data)
      = q.given.any fun c => Meaning.tags tag c.tags data := by
  rw [Bool.eq_iff_iff, List.any_eq_true, List.any_eq_true]
  constructor
  · rintro ⟨n, hn, ht⟩
    obtain ⟨c, hc, hcn⟩ := h.from_given n hn
    refine ⟨c.given, ?_, hcn.meaning tag data ▸ ht⟩
    exact List.mem_filterMap.2 ⟨some c, hc, rfl⟩
  · rintro ⟨_, hc, ht⟩
    obtain ⟨c, hc, he⟩ := List.mem_filterMap.1 hc
    obtain ⟨c', n, rfl, hcn, hn⟩ := h.covers c hc
    obtain rfl : c'.given = _ := Option.some.inj he
    exact ⟨n, hn, (hcn.meaning tag data).trans ht⟩

theorem given_ofCriteria (criteria : List ReadCriterion) :
    (Query.ofCriteria criteria).given = criteria := by
  simp [Query.given, Query.ofCriteria, Criterion.given, List.filterMap_map]

theorem consistencyChecks_of_one {p : Position} {checks : List ConsistencyCheck}
    (h : consistencyChecksFromObservations [some (.of criteria p)] = .ok checks) :
    ∃ normal, NormalForm (.ofCriteria criteria) normal ∧ checks = [⟨normal, p⟩] := by
  unfold consistencyChecksFromObservations at h
  split_ifs at h
  obtain ⟨s, hs, rfl⟩ := Attempt.map_eq_ok.1 h
  rw [List.zipIdx_singleton, List.foldlM_cons, Attempt.bind_eq_ok] at hs
  obtain ⟨u, hu, hs⟩ := hs
  obtain rfl : u = s := Except.ok.inj hs
  unfold addObservation at hu
  dsimp only [ConsistencyObservation.of] at hu
  split_ifs at hu
  rcases hn : normalizeConsistencyQuery (some (.ofCriteria criteria)) with e | ⟨normal, key⟩
  · simp [hn] at hu
  · rw [hn] at hu
    obtain ⟨q, hq, hform⟩ := normalizeConsistencyQuery_eq_ok hn
    cases hq
    cases hu
    exact ⟨normal, hform, rfl⟩

end Orisun
