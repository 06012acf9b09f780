import Orisun.Proofs.Postgres.Plan

/-!
# The positions the batch keeps are those of the log

`latestOf es c` is where criterion `c` stands in a log. Events above all others move it exactly if
they match (`latestOf_append`), so after the shape lookups and the predicate query the table of a
batch stands where the log with the request's events stands (`match_documents`).
-/

namespace Orisun.Postgres

/-- The latest position of the events the criterion holds of. -/
def latestOf (es : List StoredEvent) (c : EncodedCriterion) : Position :=
  latestPosition ((es.filter fun e => criterionHolds c e.data).map StoredEvent.position)

/-- Every event is above the position of a query without matches. -/
def Placed (es : List StoredEvent) : Prop := ∀ e ∈ es, notExistsPosition < e.position

variable {es : List StoredEvent}

theorem Placed.append {ds : List StoredEvent} (he : Placed es) (hd : Placed ds) :
    Placed (es ++ ds) :=
  List.forall_mem_append.2 ⟨he, hd⟩

theorem Placed.filter_map (h : Placed es) (P : StoredEvent → Bool) :
    ∀ p ∈ (es.filter P).map StoredEvent.position, notExistsPosition < p := by
  intro p hp
  obtain ⟨e, he, rfl⟩ := List.mem_map.1 hp
  exact h e (List.mem_filter.1 he).1

theorem latest_eq {log : Log} (h : Placed log.events) (criteria : List EncodedCriterion) :
    log.latest criteria
      = Latest.latest notExistsPosition (criteria.map (latestOf log.events)) := by
  have hc : ∀ c, latestOf log.events c = Latest.latest notExistsPosition
      ((log.events.filter fun e => criterionHolds c e.data).map StoredEvent.position) :=
    fun c => latestPosition_eq_latest (h.filter_map _)
  rw [Log.latest, Log.matching, latestPosition_eq_latest (h.filter_map _)]
  simp only [funext hc, ← Latest.latest_flatMap]
  refine Latest.latest_congr fun p => ?_
  simp only [Meaning.query, List.mem_map, List.mem_flatMap, List.mem_filter, List.any_eq_true]
  constructor
  · rintro ⟨e, ⟨he, c, hc, hh⟩, rfl⟩
    exact ⟨c, hc, e, ⟨he, hh⟩, rfl⟩
  · rintro ⟨c, hc, e, ⟨he, hh⟩, rfl⟩
    exact ⟨e, ⟨he, c, hc, hh⟩, rfl⟩

theorem latestOf_append {ds : List StoredEvent} (he : Placed es) (hd : Placed ds)
    (hlt : ∀ e ∈ es, ∀ d ∈ ds, e.position < d.position) (c : EncodedCriterion) :
    latestOf (es ++ ds) c = (((ds.filter fun d => criterionHolds c d.data).map
      StoredEvent.position).max?).getD (latestOf es c) := by
  rw [latestOf, latestPosition_eq_latest ((he.append hd).filter_map _), List.filter_append,
    List.map_append]
  rcases hne : (ds.filter fun d => criterionHolds c d.data).map StoredEvent.position with _ | ⟨p, ps⟩
  · rw [hne, List.append_nil, ← latestPosition_eq_latest (he.filter_map _)]
    rfl
  · rw [Latest.latest_append_of_lt (by simp [hne]), ← latestPosition_eq_latest
      (hd.filter_map _), latestPosition, hne]
    · rfl
    · intro q hq r hr
      obtain ⟨e, hem, rfl⟩ := List.mem_map.1 hq
      obtain ⟨d, hdm, rfl⟩ := List.mem_map.1 hr
      exact hlt e (List.mem_filter.1 hem).1 d (List.mem_filter.1 hdm).1

theorem max?_map_mk (tx : ℤ) (gids : List ℤ) :
    (gids.map (Position.mk tx)).max? = gids.max?.map (Position.mk tx) := by
  have hmono : Monotone (Position.mk tx) := fun a b hab => by
    rw [Position.le_iff]
    exact .inr ⟨rfl, hab⟩
  rcases gids with _ | ⟨g, gids⟩
  · rfl
  · rw [List.map_cons, List.max?_cons', List.max?_cons', List.foldl_map, Option.map_some]
    congr 1
    exact List.foldl_hom (Position.mk tx) fun a b => (hmono.map_max).symm

section Tables

variable {all : List EncodedCriterion}

theorem foldl_select (hn : all.Nodup) (v : List SqlPart → Option Position) :
    ∀ {cs : List EncodedCriterion} {f : EncodedCriterion → Position}, (∀ c ∈ cs, c ∈ all) →
      (cs.map (criterionSelect all)).foldl (fun positions select =>
        setRecord positions select.2 (v select.1)) (all.map f)
      = all.map fun c => if c ∈ cs then (v (criterionParts c)).getD (f c) else f c
  | [], f, _ => by simp
  | c :: cs, f, h => by
    have hcs : ∀ d ∈ cs, d ∈ all := fun d hd => h d (List.mem_cons_of_mem c hd)
    rw [List.map_cons, List.foldl_cons]
    rcases hv : v (criterionParts c) with _ | p
    · simp only [criterionSelect, hv, setRecord]
      refine (foldl_select hn v hcs).trans (List.map_congr_left fun d _ => ?_)
      rcases eq_or_ne d c with rfl | hd
      · simp [hv]
      · simp [hd]
    · simp only [criterionSelect, hv, setRecord, setPosition_map f p hn (h c (List.mem_cons_self ..))]
      refine (foldl_select hn v hcs).trans (List.map_congr_left fun d _ => ?_)
      rcases eq_or_ne d c with rfl | hd
      · simp [hv]
      · simp [hd]

theorem initialPositions_eq {requests : List Request} {plan : Plan} (hs : PlanSpec requests plan)
    (hv : ∀ c ∈ plan.allCriteria, ValidCriterion c) (t : Tables) :
    initialPositions plan t.events = plan.allCriteria.map (latestOf t.log.events) := by
  have hn : plan.allCriteria.Nodup := hs.allCriteria ▸ nodup_allCriteria requests
  obtain ⟨cs, hcs, hmem⟩ := hs.latest
  have h0 : List.replicate plan.allCriteria.length notExistsPosition
      = plan.allCriteria.map fun _ => notExistsPosition := by simp
  rw [initialPositions, hcs, h0, foldl_select hn (latestRow t.events) fun c hc => (hmem c).1 hc]
  refine List.map_congr_left fun c hc => ?_
  rw [if_pos ((hmem c).2 hc), latestRow, latestOf, latestPosition, Tables.log, List.filter_map,
    List.map_map]
  simp only [selects_criterionParts (hv c hc)]
  rfl

theorem numberFree_eventCriterion (shape : List String) (document : Json) :
    (eventCriterion shape document).NumberFree :=
  Json.numberFreeFields_of_forall fun f hf => by
    obtain ⟨k, -, rfl⟩ := List.mem_map.1 hf
    dsimp only [eventValue]
    split <;> exact trivial

variable {document : Json}

theorem toJson_eq_value {f : String × TagField} :
    eventValue document f.1 = f.2.toJson ↔
      isScalarField f.2 = true ∧ Meaning.field tagHolds f.1 document f.2 = true := by
  rcases f with ⟨k, v | ps⟩
  · simp only [eventValue, TagField.toJson, isScalarField, Meaning.field, tagHolds]
    rcases document.getText? k with _ | s <;> simp
  · simp only [eventValue, TagField.toJson, isScalarField]
    rcases document.getText? k with _ | s <;> simp

theorem eventCriterion_fields :
    ∀ {fields : List (String × TagField)} {shape : List String},
      (shape.map fun key => (key, eventValue document key))
          = fields.map (fun f => (f.1, f.2.toJson)) ↔
      fields.map Prod.fst = shape ∧
        ∀ f ∈ fields, isScalarField f.2 = true ∧ Meaning.field tagHolds f.1 document f.2 = true
  | [], [] => by simp
  | [], _ :: _ => by simp
  | _ :: _, [] => by simp
  | f :: fields, key :: shape => by
    rw [List.map_cons, List.map_cons, List.map_cons, List.cons.injEq, List.cons.injEq,
      Prod.mk.injEq, eventCriterion_fields, List.forall_mem_cons]
    constructor
    · rintro ⟨⟨rfl, hv⟩, hs, hf⟩
      exact ⟨⟨rfl, hs⟩, toJson_eq_value.1 hv, hf⟩
    · rintro ⟨⟨rfl, hs⟩, hv, hf⟩
      exact ⟨⟨rfl, toJson_eq_value.2 hv⟩, hs, hf⟩

theorem eventCriterion_text {shape : List String} {c : EncodedCriterion} :
    (eventCriterion shape document).text = c.text ↔
      c.keys = shape ∧ c.isScalar = true ∧ criterionHolds c document = true := by
  have htext : (eventCriterion shape document).text = c.text ↔
      eventCriterion shape document = c.toJson :=
    ⟨Json.text_inj (numberFree_eventCriterion shape document) c.numberFree_toJson,
      fun h => by rw [h, EncodedCriterion.text]⟩
  have hscalar : c.isScalar = true ↔ ∀ f ∈ c.fields, isScalarField f.2 = true := by
    rw [EncodedCriterion.isScalar, List.all_eq_true]
    refine forall₂_congr fun f _ => ?_
    rcases f with ⟨k, v | ps⟩ <;> simp [isScalarField]
  rw [htext, eventCriterion, EncodedCriterion.toJson, Json.object.injEq, eventCriterion_fields,
    EncodedCriterion.keys, criterionHolds, Meaning.criterion, List.all_eq_true, hscalar]
  simp only [forall_and]

theorem matchShape_map (hn : all.Nodup) (document : Json) (p : Position)
    (f : EncodedCriterion → Position) (shape : List String) :
    matchShape (criterionIds all) document p (all.map f) shape = all.map fun c =>
      if c.keys = shape ∧ c.isScalar = true ∧ criterionHolds c document = true then p else f c := by
  simp only [← eventCriterion_text]
  by_cases h : ∃ c ∈ all, c.text = (eventCriterion shape document).text
  · obtain ⟨c, hc, ht⟩ := h
    rw [matchShape, ← ht, criterionId_text hc]
    simp only [setPosition_map f p hn hc]
    refine List.map_congr_left fun d _ => ?_
    rcases eq_or_ne d c with rfl | hd
    · simp
    · have hdt : c.text ≠ d.text := fun he => hd (EncodedCriterion.text_injective he.symm)
      rw [Function.update_of_ne hd, if_neg hdt]
  · rw [matchShape, criterionId_eq_none fun c hc ht => h ⟨c, hc, ht⟩]
    refine List.map_congr_left fun d hd => ?_
    rw [if_neg fun he => h ⟨d, hd, he.symm⟩]

theorem foldl_matchShape (hn : all.Nodup) (document : Json) (p : Position) :
    ∀ (shapes : List (List String)) (f : EncodedCriterion → Position),
      shapes.foldl (matchShape (criterionIds all) document p) (all.map f) = all.map fun c =>
        if c.keys ∈ shapes ∧ c.isScalar = true ∧ criterionHolds c document = true
        then p else f c
  | [], f => by simp
  | shape :: shapes, f => by
    rw [List.foldl_cons, matchShape_map hn, foldl_matchShape hn]
    refine List.map_congr_left fun c _ => ?_
    simp only [List.mem_cons]
    split_ifs <;> first | rfl | tauto

variable {requests : List Request} {plan : Plan}

theorem matchShapes_map (hs : PlanSpec requests plan) (tx : ℤ) (document : Json × ℤ)
    (f : EncodedCriterion → Position) :
    matchShapes plan tx (plan.allCriteria.map f) document = plan.allCriteria.map fun c =>
      if c.isScalar = true ∧ criterionHolds c document.1 = true then ⟨tx, document.2⟩ else f c := by
  have hn : plan.allCriteria.Nodup := hs.allCriteria ▸ nodup_allCriteria requests
  rw [matchShapes, hs.criterionIds, foldl_matchShape hn]
  refine List.map_congr_left fun c hc => ?_
  by_cases hscalar : c.isScalar = true
  · simp [hscalar, hs.shapes c hc hscalar]
  · simp [hscalar]

/-- The table between the shape lookups and the predicate query. -/
def scalarsAt (es : List StoredEvent) (f : EncodedCriterion → Position) (c : EncodedCriterion) :
    Position :=
  if c.isScalar = true then latestOf es c else f c

theorem foldl_matchShapes (hs : PlanSpec requests plan) (tx : ℤ)
    (f : EncodedCriterion → Position) :
    ∀ {ds es : List StoredEvent}, Placed es → Placed ds →
      (∀ d ∈ ds, d.position.commitPosition = tx) →
      (∀ e ∈ es, ∀ d ∈ ds, e.position < d.position) →
      ds.Pairwise (fun d d' => d.position < d'.position) →
      (ds.map fun d => (d.data, d.position.preparePosition)).foldl (matchShapes plan tx)
          (plan.allCriteria.map (scalarsAt es f))
        = plan.allCriteria.map (scalarsAt (es ++ ds) f)
  | [], es, _, _, _, _, _ => by simp
  | d :: ds, es, he, hd, htx, hlt, hp => by
    obtain ⟨hp1, hp2⟩ := List.pairwise_cons.1 hp
    have hd1 : Placed [d] := fun x hx => hd x (List.mem_cons.2 (.inl (List.mem_singleton.1 hx)))
    have hlt1 : ∀ e ∈ es, ∀ x ∈ [d], e.position < x.position := fun e hee x hx =>
      hlt e hee x (List.mem_cons.2 (.inl (List.mem_singleton.1 hx)))
    have hstep : matchShapes plan tx (plan.allCriteria.map (scalarsAt es f))
        (d.data, d.position.preparePosition)
          = plan.allCriteria.map (scalarsAt (es ++ [d]) f) := by
      rw [matchShapes_map hs]
      refine List.map_congr_left fun c _ => ?_
      have hpos : (⟨tx, d.position.preparePosition⟩ : Position) = d.position := by
        rw [← htx d (List.mem_cons_self ..)]
      simp only [scalarsAt, hpos]
      by_cases hscalar : c.isScalar = true
      · rw [if_pos hscalar, if_pos hscalar, latestOf_append he hd1 hlt1]
        by_cases hh : criterionHolds c d.data = true <;> simp [hscalar, hh]
      · simp [hscalar]
    rw [List.map_cons, List.foldl_cons, hstep, foldl_matchShapes hs tx f (he.append hd1)
      (fun x hx => hd x (List.mem_cons_of_mem d hx))
      (fun x hx => htx x (List.mem_cons_of_mem d hx)) ?_ hp2, List.append_assoc,
      List.singleton_append]
    intro e hee x hx
    rcases List.mem_append.1 hee with h | h
    · exact hlt e h x (List.mem_cons_of_mem d hx)
    · rw [List.mem_singleton.1 h]
      exact hp1 x hx

theorem match_documents (hs : PlanSpec requests plan)
    (hv : ∀ c ∈ plan.allCriteria, ValidCriterion c) {es ds : List StoredEvent} {tx : ℤ}
    (he : Placed es) (hd : Placed ds) (htx : ∀ d ∈ ds, d.position.commitPosition = tx)
    (hlt : ∀ e ∈ es, ∀ d ∈ ds, e.position < d.position)
    (hp : ds.Pairwise fun d d' => d.position < d'.position) :
    matchPredicates plan tx
        ((ds.map fun d => (d.data, d.position.preparePosition)).foldl (matchShapes plan tx)
          (plan.allCriteria.map (latestOf es)))
        (ds.map fun d => (d.data, d.position.preparePosition))
      = plan.allCriteria.map (latestOf (es ++ ds)) := by
  have hn : plan.allCriteria.Nodup := hs.allCriteria ▸ nodup_allCriteria requests
  obtain ⟨cs, hcs, hmem⟩ := hs.predicates
  have hstart : plan.allCriteria.map (latestOf es)
      = plan.allCriteria.map (scalarsAt es (latestOf es)) := by
    refine List.map_congr_left fun c _ => ?_
    rw [scalarsAt, ite_self]
  rw [hstart, foldl_matchShapes hs tx (latestOf es) he hd htx hlt hp, matchPredicates, hcs,
    foldl_select hn (fun parts => Option.map (fun gid => (⟨tx, gid⟩ : Position))
      (((ds.map fun d => (d.data, d.position.preparePosition)).filter
        fun d => selects parts d.1).map Prod.snd).max?) fun c hc => ((hmem c).1 hc).1]
  refine List.map_congr_left fun c hc => ?_
  by_cases hscalar : c.isScalar = true
  · rw [if_neg fun h => by simp [((hmem c).1 h).2] at hscalar, scalarsAt, if_pos hscalar]
  · rw [if_pos ((hmem c).2 ⟨hc, by simpa using hscalar⟩), scalarsAt, if_neg hscalar,
      latestOf_append he hd hlt, ← max?_map_mk, List.filter_map, List.map_map, List.map_map]
    congr 2
    simp only [Function.comp_def, selects_criterionParts (hv c hc)]
    refine List.map_congr_left fun d hdm => ?_
    rw [← htx d (List.mem_filter.1 hdm).1]

end Tables

end Orisun.Postgres
