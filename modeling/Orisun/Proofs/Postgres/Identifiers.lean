import Mathlib.Tactic.FinCases
import Orisun.Postgres.Identifiers

/-!
# Which relation a statement names

Every way of writing a name but two gives back the relation the scripts created.
-/

namespace Orisun.Postgres

open SqlIdentifier

theorem length_toList_le_utf8ByteSize (s : String) : s.toList.length ≤ s.utf8ByteSize := by
  have hl : ∀ l : List Char, l.length ≤ (String.ofList l).utf8ByteSize := by
    intro l
    induction l with
    | nil => simp
    | cons c l ih =>
      have hc := Char.utf8Size_pos c
      rw [String.ofList_cons, String.utf8ByteSize_append, String.utf8ByteSize_singleton,
        List.length_cons]
      omega
  simpa using hl s.toList

/-- What a name accepted by `validateBoundaryName` is. -/
structure Accepted (name : String) : Prop where
  start : ∃ c ∈ name.toList.head?, isLower c = true ∨ isUpper c = true ∨ c = '_'
  chars : ∀ c ∈ name.toList, isLower c = true ∨ isUpper c = true ∨ isNumeral c = true ∨ c = '_'
  length_le : name.toList.length ≤ maxLength

theorem letter_iff {c : Char} : Admin.letter c = true ↔ isLower c = true ∨ isUpper c = true :=
  Bool.or_eq_true_iff

variable {name : String}

theorem accepted_of_validateBoundaryName (h : validateBoundaryName name = .ok ()) :
    Accepted name := by
  unfold validateBoundaryName Admin.validateName at h
  rcases hn : name.toList with _ | ⟨c, cs⟩
  · simp [hn] at h
  · simp only [hn] at h
    split_ifs at h with hl hc
    split at h
    · simp at h
    · rename_i hf
      have hcs := List.findIdx?_eq_none_iff.1 hf
      have hle := length_toList_le_utf8ByteSize name
      have hstart : isLower c = true ∨ isUpper c = true ∨ c = '_' := by
        rw [← or_assoc, ← letter_iff]
        simpa [or_iff_not_imp_left] using hc
      refine ⟨⟨c, by simp [hn], hstart⟩, fun d hd => ?_, hle.trans (not_lt.1 hl)⟩
      rw [hn] at hd
      rcases List.mem_cons.1 hd with rfl | hd
      · tauto
      · have hd' : (isLower d = true ∨ isUpper d = true) ∨ Admin.digit d = true ∨ d = '_' := by
          rw [← letter_iff]
          simpa [or_iff_not_imp_left] using hcs d hd
        exact or_assoc.1 hd'

theorem Accepted.isWord (h : Accepted name) : IsWord name.toList := by
  obtain ⟨c, hc, hs⟩ := h.start
  refine ⟨⟨c, hc, ?_⟩, fun d hd => ?_⟩
  · rcases hs with hs | hs | rfl
    · simp [identStart, hs]
    · simp [identStart, hs]
    · decide
  · rcases h.chars d hd with hd | hd | hd | rfl
    · simp [identCont, identStart, hd]
    · simp [identCont, identStart, hd]
    · simp [identCont, hd]
    · decide

theorem Accepted.bare_iff (K : Keywords) (h : Accepted name)
    (hl : ∀ c ∈ name.toList, isUpper c = false) :
    K.bare name.toList = true ↔ K.quoted name.toList = false := by
  have hchars : ∀ c ∈ name.toList, isLower c = true ∨ isNumeral c = true ∨ c = '_' := by
    intro c hc
    have := h.chars c hc
    have := hl c hc
    simp_all
  obtain ⟨c, hc, hs⟩ := h.start
  rcases hn : name.toList with _ | ⟨d, ds⟩
  · simp [hn] at hc
  · rw [hn] at hc hl hchars
    obtain rfl : d = c := by simpa using hc
    have hd : isLower d = true ∨ d = '_' := by
      have := hl d List.mem_cons_self
      simp_all
    have hds : ∀ e ∈ ds, (isLower e = true ∨ isNumeral e = true) ∨ e = '_' := fun e he =>
      or_assoc.2 (hchars e (List.mem_cons_of_mem _ he))
    simp only [Keywords.bare, Bool.and_eq_true, Bool.or_eq_true, beq_iff_eq, List.all_eq_true,
      Bool.not_eq_true']
    exact ⟨fun h => h.2, fun h => ⟨⟨hd, hds⟩, h⟩⟩

theorem Accepted.ne_nil (h : Accepted name) : name.toList ≠ [] := h.isWord.ne_nil

theorem Accepted.truncate (h : Accepted name) :
    truncate name.toList = name.toList :=
  List.take_of_length_le h.length_le

theorem suffix_chars (o : BoundaryObject) :
    ∀ c ∈ o.suffix.toList, identCont c = true ∧ isUpper c = false := by
  have h : o.suffix.toList.all (fun c => identCont c && !isUpper c) = true := by
    rcases o <;> decide +kernel
  simpa using h

theorem name_ne_nil (o : BoundaryObject) {boundary : String} (hb : Accepted boundary) :
    o.name boundary ≠ [] :=
  List.append_ne_nil_of_left_ne_nil hb.ne_nil _

variable (K : Keywords) {schema boundary : String}

theorem created_eq (hs : Accepted schema) (hb : Accepted boundary) (o : BoundaryObject) :
    created K schema boundary o = some ⟨schema.toList, truncate (o.name boundary)⟩ := by
  have hn := name_ne_nil o hb
  unfold created
  split_ifs with hi hv
  · obtain ⟨t, ht, -, hc⟩ := K.lexIdent_quoteIdent hn Keywords.stops_nil (by simp)
    rw [List.append_nil] at ht
    rw [formatQualified, K.fromItem_quoteIdent hs.ne_nil (name_ne_nil _ hb), ht]
    simp [hc, hs.truncate]
  · rw [quoteQualified, K.fromItem_quoteIdentifier hs.ne_nil hn, hs.truncate]
  · rw [formatQualified, K.fromItem_quoteIdent hs.ne_nil hn, hs.truncate]

theorem resolves_iff (hs : Accepted schema) (hb : Accepted boundary) (r : Reference) :
    r.Resolves K schema boundary ↔
      K.fromItem r.text = some ⟨schema.toList, truncate (r.object.name boundary)⟩ := by
  unfold Reference.Resolves
  rw [created_eq K hs hb]
  constructor
  · rintro ⟨rel, hrel, h⟩
    rw [h, ← Option.some.inj hrel]
  · exact fun h => ⟨_, rfl, h⟩

theorem formatted_resolves (hs : Accepted schema) (hb : Accepted boundary) (o : BoundaryObject) :
    (formatted K schema boundary o).Resolves K schema boundary := by
  rw [resolves_iff K hs hb, formatted, formatQualified,
    K.fromItem_quoteIdent hs.ne_nil (name_ne_nil o hb), hs.truncate]

theorem quoted_resolves (hs : Accepted schema) (hb : Accepted boundary) (o : BoundaryObject) :
    (quoted schema boundary o).Resolves K schema boundary := by
  rw [resolves_iff K hs hb, quoted, quoteQualified,
    K.fromItem_quoteIdentifier hs.ne_nil (name_ne_nil o hb), hs.truncate]

theorem interpolated_resolves (hs : Accepted schema) (hb : Accepted boundary)
    (hps : PlainSchema K schema) (hpb : PlainBoundary K boundary) (o : BoundaryObject) :
    (interpolated schema boundary o).Resolves K schema boundary := by
  have hw : IsWord (boundary.toList ++ o.suffix.toList) :=
    hb.isWord.append fun c h => (suffix_chars o c h).1
  have hf : (boundary.toList ++ o.suffix.toList).map fold = o.name boundary :=
    map_fold_of_not_upper fun c h =>
      (List.mem_append.1 h).elim (hpb.lower c) fun h => (suffix_chars o c h).2
  rw [resolves_iff K hs hb, interpolated, sprintfQualified, K.fromItem_word hs.isWord hw,
    map_fold_of_not_upper hps.lower, hf, hps.unreserved, hs.truncate]
  rfl

theorem suffixed_resolves (hs : Accepted schema) (hb : Accepted boundary)
    (hpb : PlainBoundary K boundary) (o : BoundaryObject) :
    (⟨o, formatSuffixed K schema boundary o.suffix⟩ : Reference).Resolves K schema boundary := by
  have hbare := (hb.bare_iff K hpb.lower).2 hpb.unquoted
  rw [resolves_iff K hs hb, formatSuffixed,
    K.fromItem_suffix_of_bare hs.ne_nil hbare (suffix_chars o), hs.truncate]
  rfl

theorem plain_of_interpolated (hs : Accepted schema) (hb : Accepted boundary) (o : BoundaryObject)
    (h : (interpolated schema boundary o).Resolves K schema boundary) :
    PlainSchema K schema ∧ ∀ c ∈ boundary.toList, isUpper c = false := by
  have hw : IsWord (boundary.toList ++ o.suffix.toList) :=
    hb.isWord.append fun c h => (suffix_chars o c h).1
  rw [resolves_iff K hs hb, interpolated, sprintfQualified, K.fromItem_word hs.isWord hw] at h
  split_ifs at h with hr
  have hrel := Option.some.inj h
  have hsl : schema.toList.map fold = schema.toList := by
    have := congrArg Relation.schema hrel
    rwa [truncate, List.take_of_length_le (by simpa using hs.length_le)] at this
  have hbl : boundary.toList.map fold = boundary.toList := by
    have hn := congrArg (fun r => r.name.take boundary.toList.length) hrel
    simpa [truncate, BoundaryObject.name, List.take_take, List.map_append,
      Nat.min_eq_left hb.length_le] using hn
  rw [hsl] at hr
  exact ⟨⟨not_upper_of_map_fold hsl, Bool.eq_false_iff.2 hr⟩, not_upper_of_map_fold hbl⟩

theorem unquoted_of_suffixed (hs : Accepted schema) (hb : Accepted boundary)
    (hl : ∀ c ∈ boundary.toList, isUpper c = false) (o : BoundaryObject)
    (h : (⟨o, formatSuffixed K schema boundary o.suffix⟩ : Reference).Resolves K schema boundary) :
    K.quoted boundary.toList = false := by
  rw [Bool.eq_false_iff]
  intro hq
  have hbare : K.bare boundary.toList = false := by
    rw [Bool.eq_false_iff, ne_eq, hb.bare_iff K hl, hq]
    decide
  have hhead : o.suffix.toList.head? ≠ some '"' := by rcases o <;> decide
  rw [resolves_iff K hs hb] at h
  have hn := K.fromItem_suffix_of_quoted hs.ne_nil hb.ne_nil hbare hhead h
  have hlen := congrArg List.length hn
  have := K.short _ hq
  have hsuf : 0 < o.suffix.toList.length := by rcases o <;> decide
  simp only [truncate, BoundaryObject.name, List.length_take, List.length_append] at hlen
  omega

theorem mem_references {r : Reference} (h : r ∈ references K schema boundary) :
    (∃ o, r = formatted K schema boundary o) ∨
      (∃ o : BoundaryObject, r = ⟨o, formatSuffixed K schema boundary o.suffix⟩) ∨
      (∃ o, r = quoted schema boundary o) ∨ ∃ o, r = interpolated schema boundary o := by
  simp only [references, createBoundaryIndexReferences, List.mem_append] at h
  have hmap : ∀ {f : BoundaryObject → Reference} {l : List BoundaryObject}, r ∈ l.map f →
      ∃ o, r = f o := fun h => by
    obtain ⟨o, -, rfl⟩ := List.mem_map.1 h
    exact ⟨o, rfl⟩
  rcases h with ((((((((h | h) | h) | h) | h) | h) | h) | h) | h) | h
  · exact .inl (hmap h)
  · exact .inr (.inl ⟨.event, List.mem_singleton.1 h⟩)
  · exact .inl (hmap h)
  · exact .inr (.inr (.inl (hmap h)))
  · rcases h with ((h | h) | h) | h <;> exact .inr (.inr (.inl (hmap h)))
  · exact .inr (.inr (.inl (hmap h)))
  · exact .inr (.inr (.inl (hmap h)))
  · exact .inr (.inr (.inl (hmap h)))
  · exact .inr (.inr (.inr (hmap h)))
  · exact .inr (.inr (.inr (hmap h)))

theorem resolves_iff_plain (hs : validateBoundaryName schema = .ok ())
    (hb : validateBoundaryName boundary = .ok ()) :
    (∀ r ∈ references K schema boundary, r.Resolves K schema boundary) ↔
      PlainSchema K schema ∧ PlainBoundary K boundary := by
  have hs' := accepted_of_validateBoundaryName hs
  have hb' := accepted_of_validateBoundaryName hb
  constructor
  · intro h
    have hcount : interpolated schema boundary .eventsCount ∈ references K schema boundary := by
      simp [references, buildPostgresBoundaryReferences]
    have hmatching : ⟨.event, formatSuffixed K schema boundary BoundaryObject.event.suffix⟩ ∈
        references K schema boundary := by
      simp [references, getMatchingEventsV4References]
    obtain ⟨hps, hl⟩ := plain_of_interpolated K hs' hb' _ (h _ hcount)
    exact ⟨hps, hl, unquoted_of_suffixed K hs' hb' hl _ (h _ hmatching)⟩
  · rintro ⟨hps, hpb⟩ r hr
    rcases mem_references K hr with ⟨o, rfl⟩ | ⟨o, rfl⟩ | ⟨o, rfl⟩ | ⟨o, rfl⟩
    · exact formatted_resolves K hs' hb' o
    · exact suffixed_resolves K hs' hb' hpb o
    · exact quoted_resolves K hs' hb' o
    · exact interpolated_resolves K hs' hb' hps hpb o

theorem sample_quoted_of_reserved (w : List Char)
    (h : (["user".toList, "order".toList, "table".toList].any fun k => decide (w = k)) = true) :
    (["user".toList, "order".toList, "table".toList, "values".toList].any
      fun k => decide (w = k)) = true := by
  obtain ⟨k, hk, hw⟩ := List.any_eq_true.1 h
  exact List.any_eq_true.2 ⟨k, List.mem_append_left ["values".toList] hk, hw⟩

theorem sample_short (w : List Char)
    (h : (["user".toList, "order".toList, "table".toList, "values".toList].any
      fun k => decide (w = k)) = true) :
    w.length < maxLength := by
  simp only [List.any_cons, List.any_nil, Bool.or_false, Bool.or_eq_true, decide_eq_true_eq] at h
  rcases h with rfl | rfl | rfl | rfl <;> decide

def sampleKeywords : Keywords where
  quoted w := ["user".toList, "order".toList, "table".toList, "values".toList].any
    fun k => decide (w = k)
  reserved w := ["user".toList, "order".toList, "table".toList].any fun k => decide (w = k)
  quoted_of_reserved := sample_quoted_of_reserved
  short := sample_short

end Orisun.Postgres
