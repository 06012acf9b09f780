import Orisun.Lib.Grouped
import Orisun.Proofs.Observations
import Orisun.WriteContext

/-!
# A write context is what was observed

Printing and reading are inverse to each other for positions, write ids, predicates and criteria.
-/

namespace Orisun

theorem digitsValue_toDigits (n : ℕ) : digitsValue (Nat.toDigits 10 n) = n := by
  have h : Nat.ofDigitChars 10 (Nat.toDigits 10 n) 0 = n := by simp
  exact h

theorem isDigit_of_mem_toString {n : ℕ} {c : Char} (h : c ∈ (toString n).toList) :
    isDigit c = true := by
  rw [Nat.toString_eq_ofList_toDigits, String.toList_ofList] at h
  exact Nat.isDigit_of_mem_toDigits (by decide) (by decide) h

theorem readDigits_toString (n : ℕ) : readDigits (toString n).toList = some n := by
  have hne : (toString n).toList ≠ [] := by
    rw [Nat.toString_eq_ofList_toDigits, String.toList_ofList]
    exact Nat.toDigits_ne_nil
  have hall : (toString n).toList.all isDigit = true :=
    List.all_eq_true.2 fun _ => isDigit_of_mem_toString
  have hvalue : digitsValue (toString n).toList = n := by
    rw [Nat.toString_eq_ofList_toDigits, String.toList_ofList, digitsValue_toDigits]
  unfold readDigits
  rw [hall, List.isEmpty_eq_false_iff.2 hne, hvalue]
  rfl

theorem readInt_toString : ∀ n : ℤ, readInt (toString n) = some n
  | .ofNat n => by
    have hdigits := readDigits_toString n
    unfold readInt
    rw [show toString (Int.ofNat n) = toString n from rfl]
    split
    · rename_i heq
      exact absurd (isDigit_of_mem_toString (heq ▸ List.mem_cons_self ..)) (by decide)
    · rename_i heq
      exact absurd (isDigit_of_mem_toString (heq ▸ List.mem_cons_self ..)) (by decide)
    · rw [hdigits]
      rfl
  | .negSucc n => by
    have hdigits := readDigits_toString (n + 1)
    have hlist : (toString (Int.negSucc n)).toList = '-' :: (toString (n + 1)).toList := by
      rw [show toString (Int.negSucc n) = "-" ++ toString (n + 1) from rfl, String.toList_append]
      rfl
    simp only [readInt, hlist]
    rw [hdigits]
    rfl

theorem parseInt_toString {n : ℤ} (h0 : 0 ≤ n) (h : n < 2 ^ 63) :
    parseInt (toString n) = some n := by
  unfold parseInt
  rw [readInt_toString, Option.filter_some, if_pos]
  exact decide_eq_true ⟨by omega, h⟩

theorem splitColon_writeIdText (m n : ℕ) :
    splitColon (writeIdText m n) = some (toString (m : ℤ), toString (n : ℤ)) := by
  have hlist : (writeIdText m n).toList = (toString m).toList ++ ':' :: (toString n).toList := by
    rw [show writeIdText m n = toString m ++ ":" ++ toString n from rfl, String.toList_append,
      String.toList_append, List.append_assoc]
    rfl
  have hfirst : ((toString m).toList ++ ':' :: (toString n).toList).takeWhile (· != ':')
      = (toString m).toList := by
    rw [List.takeWhile_append_of_pos, List.takeWhile_cons_of_neg (by simp), List.append_nil]
    intro c hc
    simpa using Netstring.digits_ne_colon hc
  have hsecond : ':' ∉ (toString n).toList := fun h => Netstring.digits_ne_colon h rfl
  unfold splitColon
  dsimp only
  rw [hlist, hfirst, List.drop_left]
  show (if ':' ∈ (toString n).toList then none
    else some (String.ofList (toString m).toList, String.ofList (toString n).toList)) = _
  rw [if_neg hsecond, String.ofList_toList, String.ofList_toList]
  rfl

theorem validateWriteContextRequest_writeIdText {boundary : String} (hb : boundary ≠ "")
    {p : Position} (hc : 0 ≤ p.commitPosition) (hc' : p.commitPosition < 2 ^ 63)
    (hp : 0 ≤ p.preparePosition) (hp' : p.preparePosition < 2 ^ 63) :
    validateWriteContextRequest
      ⟨boundary, writeIdText p.commitPosition p.preparePosition⟩ = .ok p := by
  obtain ⟨m, hm⟩ := Int.eq_ofNat_of_zero_le hc
  obtain ⟨n, hn⟩ := Int.eq_ofNat_of_zero_le hp
  have hsplit : splitColon (writeIdText p.commitPosition p.preparePosition)
      = some (toString p.commitPosition, toString p.preparePosition) := by
    rw [hm, hn]
    exact splitColon_writeIdText m n
  unfold validateWriteContextRequest
  rw [if_neg hb]
  simp only [hsplit, parseInt_toString hc hc', parseInt_toString hp hp']
  rw [if_neg (by simp [hc, hp])]

/-- A request that is accepted carries the id of a write. -/
theorem validateWriteContextRequest_eq_ok {req : GetWriteContextRequest} {p : Position}
    (h : validateWriteContextRequest req = .ok p) :
    req.writeId = writeIdText p.commitPosition p.preparePosition := by
  unfold validateWriteContextRequest at h
  split_ifs at h
  split at h
  · cases h
  · split at h
    · split_ifs at h with hguard
      cases h
      push Not at hguard
      exact hguard.2.2.symm
    · cases h

theorem validateWriteContextRequest_error {req : GetWriteContextRequest} {e : WriteContextError}
    (h : validateWriteContextRequest req = .error e) : e = .invalidRequest := by
  unfold validateWriteContextRequest at h
  repeat' split at h
  all_goals first | exact (Except.error.inj h).symm | cases h

theorem decodeTagPredicate_toJson (p : TagPredicate) : decodeTagPredicate p.toJson = .ok p := rfl

theorem decodeTagPredicates_toJson {ps : List TagPredicate} (hne : ps ≠ []) :
    decodeTagPredicates (encodeField ps).toJson = .ok ps := by
  unfold encodeField
  split
  · rfl
  · have hitems : (ps.map TagPredicate.toJson).mapM decodeTagPredicate = .ok ps := by
      rw [Attempt.mapM_map_of_forall (g := id) fun p _ => decodeTagPredicate_toJson p, List.map_id]
    simp only [TagField.toJson, decodeTagPredicates, decodeArray, Except.bind, hitems]
    rw [if_neg hne]

theorem decodeTag_encoded {t : ReadTag} (hv : validateTag t = .ok ())
    (hn : normalizedTag t = t) : decodeTag t.key t.encoded = .ok t := by
  have hvalid : validateTag ⟨t.key, t.encoded.value, t.encoded.operator⟩ = .ok () := by
    rw [validateTag_ok] at hv ⊢
    exact ⟨hv.1, hv.2.1, by rw [canonicalTagOperator_encoded]; exact hv.2.2⟩
  unfold decodeTag
  rw [hvalid]
  have hop : (if t.encoded.operator = "eq" then "" else t.encoded.operator) = t.operator := by
    unfold ReadTag.encoded
    by_cases he : t.operator = ""
    · simp [he]
    · have hne : t.operator ≠ "eq" := by
        intro heq
        have hcanon : canonicalTagOperator t.operator = some .eq := by
          rw [heq]
          rfl
        rw [normalizedTag, if_pos hcanon] at hn
        exact he (congrArg ReadTag.operator hn).symm
      simp [he, hne]
  simp only [hop]
  rfl

/-- The tags of a criterion as they are stored and read back. -/
structure NormalTags (tags : List ReadTag) : Prop where
  valid : ∀ t ∈ tags, validateTag t = .ok ()
  normal : ∀ t ∈ tags, normalizedTag t = t
  sorted : tags.Pairwise fun a b => a.key ≤ b.key

theorem decodeField_tagFields {tags : List ReadTag} (h : NormalTags tags)
    {f : String × List TagPredicate} (hf : f ∈ tagFields tags) :
    decodeField (f.1, (encodeField f.2).toJson) = .ok (tags.filter fun t => t.key = f.1) := by
  have htags : ((tags.filter fun t => t.key = f.1).map ReadTag.encoded).mapM (decodeTag f.1)
      = .ok (tags.filter fun t => t.key = f.1) := by
    rw [Attempt.mapM_map_of_forall (g := id), List.map_id]
    intro t ht
    obtain ⟨hmem, hkey⟩ := List.mem_filter.1 ht
    rw [← of_decide_eq_true hkey]
    exact decodeTag_encoded (h.valid t hmem) (h.normal t hmem)
  unfold decodeField
  rw [decodeTagPredicates_toJson (tagFields_ne_nil hf)]
  rw [← tagFields_predicates hf] at htags
  exact htags

/-- A criterion in normal form is read back as it was stored. -/
theorem decodeCriterion_encodeCriterion {tags : List ReadTag} (h : NormalTags tags) :
    decodeCriterion ((encodeCriterion tags).fields.map fun f => (f.1, f.2.toJson)) = .ok tags := by
  set fields := (encodeCriterion tags).fields.map fun f => (f.1, f.2.toJson) with hfields
  have hmap : fields = (tagFields tags).map fun f => (f.1, (encodeField f.2).toJson) := by
    rw [hfields, encodeCriterion, List.map_map]
    rfl
  set sorted := fields.mergeSort fun a b => decide (a.1 ≤ b.1) with hsorted
  have hperm : sorted.Perm fields := List.mergeSort_perm ..
  have hdecode : sorted.mapM decodeField
      = .ok (sorted.map fun f => tags.filter fun t => t.key = f.1) := by
    refine Attempt.mapM_of_forall fun x hx => ?_
    obtain ⟨f, hf, rfl⟩ := List.mem_map.1 (hmap ▸ hperm.mem_iff.1 hx)
    exact decodeField_tagFields h hf
  have hkeys : fields.map Prod.fst = (tagFields tags).map Prod.fst := by
    rw [hmap, List.map_map]
    rfl
  have hstrict : (sorted.map Prod.fst).Pairwise (· < ·) := by
    have hnodup : (sorted.map Prod.fst).Nodup := by
      rw [(hperm.map Prod.fst).nodup_iff, hkeys]
      exact (tagFields_ordered tags).nodup_keys
    have hle : (sorted.map Prod.fst).Pairwise (· ≤ ·) := by
      refine List.pairwise_map.2 ((List.pairwise_mergeSort (fun a b c hab hbc => ?_)
        (fun a b => ?_) fields).imp fun hab => of_decide_eq_true hab)
      · exact decide_eq_true ((of_decide_eq_true hab).trans (of_decide_eq_true hbc))
      · simpa using le_total a.1 b.1
    exact (hle.and hnodup).imp fun hab => lt_of_le_of_ne hab.1 hab.2
  have hall : ∀ t ∈ tags, t.key ∈ sorted.map Prod.fst := by
    intro t ht
    rw [(hperm.map Prod.fst).mem_iff, hkeys]
    exact key_mem_tagFields ht
  unfold decodeCriterion
  rw [← hsorted, hdecode]
  have hgroups := Grouped.flatMap_filter hstrict h.sorted hall
  rw [List.flatMap_map] at hgroups
  exact congrArg Except.ok hgroups

theorem normalizedTag_idem (t : ReadTag) : normalizedTag (normalizedTag t) = normalizedTag t := by
  unfold normalizedTag
  split_ifs <;> rfl

theorem normalTags_normalizeCriterion {ci : ℕ} {c : Option Criterion} {n : ReadCriterion}
    (h : normalizeCriterion ci c = .ok n) : NormalTags n.tags := by
  obtain ⟨c', rfl, hn⟩ := normalizeCriterion_eq_ok h
  refine ⟨hn.valid, fun t ht => ?_, ?_⟩
  · obtain ⟨u, -, rfl⟩ := (hn.tags t).1 ht
    exact normalizedTag_idem u
  · unfold normalizeCriterion at h
    dsimp only at h
    split_ifs at h
    obtain ⟨s, -, rfl⟩ := Attempt.map_eq_ok.1 h
    exact (pairwise_sortedTags _).imp fun {a b} hab => Prod.Lex.monotone_fst _ _ hab

theorem normalTags_normalizeConsistencyQuery {query : Option Query} {criteria : List ReadCriterion}
    {key : String} (h : normalizeConsistencyQuery query = .ok (criteria, key)) :
    ∀ c ∈ criteria, NormalTags c.tags := by
  unfold normalizeConsistencyQuery at h
  rcases query with _ | q
  · simp at h
  · dsimp only at h
    split_ifs at h
    obtain ⟨s, hs, h⟩ := Attempt.map_eq_ok.1 h
    obtain ⟨rfl, -⟩ := Prod.mk.inj h
    have hall : ∀ f ∈ s.criteriaByKey, NormalTags f.2.tags := by
      refine Attempt.foldlM_invariant (P := fun s : NormalizedCriteria =>
        ∀ f ∈ s.criteriaByKey, NormalTags f.2.tags) (fun s s' x _ hs hx => ?_) (by simp) hs
      obtain ⟨n, hn, rfl⟩ := Attempt.map_eq_ok.1 hx
      intro f hf
      dsimp only at hf
      split_ifs at hf
      · exact hs f hf
      · rcases Fields.mem_insert hf with rfl | hf
        · exact normalTags_normalizeCriterion hn
        · exact hs f hf
    refine List.forall_mem_map.2 fun k _ => ?_
    rcases hl : s.criteriaByKey.lookup k with _ | c
    · exact ⟨by simp, by simp, .nil⟩
    · exact hall (k, c) (Fields.mem_of_lookup hl)

theorem addObservation_eq_ok {s s' : ObservationState} {x : Option ConsistencyObservation × ℕ}
    (h : addObservation s x = .ok s') :
    s'.checks = s.checks ∨ ∃ query criteria key position,
      normalizeConsistencyQuery query = .ok (criteria, key) ∧
        s'.checks = s.checks ++ [⟨criteria, position⟩] := by
  unfold addObservation at h
  split at h
  · cases h
  · split at h
    · cases h
    · rename_i _ o _ _ position _
      split_ifs at h
      dsimp only at h
      split_ifs at h
      split at h
      · cases h
      · rename_i criteria key hquery
        split at h
        · split_ifs at h
          cases h
          exact .inl rfl
        · cases h
          exact .inr ⟨o.query, criteria, key, position, hquery, rfl⟩

/-- The observations of a save are stored in normal form. -/
theorem normalTags_consistencyChecks {observations : List (Option ConsistencyObservation)}
    {checks : List ConsistencyCheck}
    (h : consistencyChecksFromObservations observations = .ok checks) :
    ∀ check ∈ checks, ∀ c ∈ check.criteria, NormalTags c.tags := by
  unfold consistencyChecksFromObservations at h
  split_ifs at h
  obtain ⟨s, hs, rfl⟩ := Attempt.map_eq_ok.1 h
  refine Attempt.foldlM_invariant (P := fun s : ObservationState =>
    ∀ check ∈ s.checks, ∀ c ∈ check.criteria, NormalTags c.tags) (fun s s' x _ hs hx => ?_)
    (by simp) hs
  rcases addObservation_eq_ok hx with heq | ⟨query, criteria, key, position, hquery, heq⟩
  · rw [heq]
    exact hs
  · rw [heq]
    refine List.forall_mem_append.2 ⟨hs, List.forall_mem_singleton.2 ?_⟩
    exact normalTags_normalizeConsistencyQuery hquery

theorem decodeInt_toString (n : ℤ) : decodeInt (.number (toString n)) = .ok n := by
  unfold decodeInt
  simp only [readInt_toString]

def EncodedCriterion.jsonFields (c : EncodedCriterion) : List (String × Json) :=
  c.fields.map fun f => (f.1, f.2.toJson)

theorem decodeStoredObservation_toJson (o : Observation) :
    decodeStoredObservation o.toJson = .ok ⟨o.criteria.map EncodedCriterion.jsonFields,
      o.position.commitPosition, o.position.preparePosition⟩ := by
  have hcriteria : (o.criteria.map EncodedCriterion.toJson).mapM decodeObject
      = .ok (o.criteria.map EncodedCriterion.jsonFields) :=
    Attempt.mapM_map_of_forall fun _ _ => rfl
  unfold decodeStoredObservation
  refine Attempt.bind_eq_ok.2 ⟨_, rfl, Attempt.bind_eq_ok.2 ⟨_, rfl, Attempt.bind_eq_ok.2 ⟨_, rfl,
    Attempt.bind_eq_ok.2 ⟨_, rfl, Attempt.bind_eq_ok.2 ⟨_, hcriteria, ?_⟩⟩⟩⟩⟩
  exact Attempt.bind_eq_ok.2 ⟨_, decodeInt_toString o.position.commitPosition,
    Attempt.bind_eq_ok.2 ⟨_, decodeInt_toString o.position.preparePosition, rfl⟩⟩

theorem decodeObservation_stored {check : ConsistencyCheck}
    (h : ∀ c ∈ check.criteria, NormalTags c.tags) :
    decodeObservation ⟨(storedObservation check).criteria.map EncodedCriterion.jsonFields,
      check.position.commitPosition, check.position.preparePosition⟩
      = .ok (.of check.criteria check.position) := by
  have hcriteria : ((storedObservation check).criteria.map EncodedCriterion.jsonFields).mapM
      decodeCriterion = .ok (check.criteria.map ReadCriterion.tags) := by
    unfold storedObservation encodeReadCriteria
    rw [List.map_map]
    exact Attempt.mapM_map_of_forall fun c hc => decodeCriterion_encodeCriterion (h c hc)
  unfold decodeObservation
  rw [hcriteria]
  have hsame : (check.criteria.map ReadCriterion.tags).map (fun tags => (⟨tags⟩ : ReadCriterion))
      = check.criteria := by
    rw [List.map_map]
    exact List.map_id _
  show Except.ok (ConsistencyObservation.of _ _) = _
  rw [hsame]

theorem decodeWriteContext_stored {checks : List ConsistencyCheck}
    (h : ∀ check ∈ checks, ∀ c ∈ check.criteria, NormalTags c.tags) (writeId : String) :
    decodeWriteContext writeId (consistencyJson (checks.map storedObservation))
      = .ok ⟨writeId, checks.map fun check => .of check.criteria check.position⟩ := by
  have hstored := Attempt.mapM_map_of_forall (l := checks.map storedObservation)
    fun o _ => decodeStoredObservation_toJson o
  have hchecks := Attempt.mapM_map_of_forall fun check hc => decodeObservation_stored (h check hc)
  unfold decodeWriteContext consistencyJson
  refine Attempt.bind_eq_ok.2 ⟨_, rfl, Attempt.bind_eq_ok.2 ⟨_, hstored, ?_⟩⟩
  rw [List.map_map]
  exact Attempt.bind_eq_ok.2 ⟨_, hchecks, rfl⟩

end Orisun
