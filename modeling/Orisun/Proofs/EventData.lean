import Orisun.EventData
import Orisun.Lib.Attempt

/-!
# What the translation of event data keeps

An encoded map is decoded to itself, so preparing, merging and separating are about maps.
-/

namespace Orisun.EventData

@[simp]
theorem decodeKey_encodeKey (key : String) : decodeKey (encodeKey key) = key := by
  simp [decodeKey, encodeKey, Function.comp_def]

@[simp]
theorem decodeMembers_marshal (fields : List (String × Json)) :
    decodeMembers (fields.map fun f => (encodeKey f.1, f.2)) = fields := by
  simp [decodeMembers, Function.comp_def]

variable {fields : List (String × Json)}

theorem unmarshal_marshal (h : Fields.Ordered fields) :
    (marshal fields).unmarshal = some (some fields) := by
  simp [marshal, Text.unmarshal, h.concat_nil]

variable {object : List (String × Json)}

theorem ordered_parseObject {data : Text} (h : parseObject data = some object) :
    Fields.Ordered object := by
  cases data with
  | object members =>
    cases h
    exact Fields.ordered_concat _ List.Pairwise.nil
  | _ => cases h

theorem parseObject_marshal (h : Fields.Ordered fields) :
    parseObject (marshal fields) = some fields := by
  rw [parseObject, unmarshal_marshal h]
  rfl

variable {values : List (String × Json)}

theorem ordered_withFields (h : Fields.Ordered object) :
    Fields.Ordered (withFields object values) :=
  Fields.ordered_concat _ (List.Pairwise.filter _ h)

theorem lookup_withFields (hvalues : (values.map Prod.fst).Nodup) (key : String) :
    (withFields object values).lookup key = (values.lookup key).or (object.lookup key) := by
  rw [withFields, Fields.lookup_concat key _ hvalues,
    Fields.lookup_filter (fun k => (values.lookup k).isNone)]
  rcases values.lookup key with _ | value <;> rfl

theorem withFields_eq_concat (h : Fields.Ordered object) (hvalues : (values.map Prod.fst).Nodup) :
    withFields object values = Fields.concat object values :=
  (ordered_withFields h).ext (Fields.ordered_concat _ h) fun key => by
    rw [lookup_withFields hvalues, Fields.lookup_concat key _ hvalues]

theorem filter_withFields (h : Fields.Ordered object) (hvalues : (values.map Prod.fst).Nodup)
    (hreserved : ∀ f ∈ values, isReservedKey f.1 = true) :
    (withFields object values).filter (fun f => !isReservedKey f.1)
      = object.filter fun f => !isReservedKey f.1 := by
  refine Fields.Ordered.ext (List.Pairwise.filter _ (ordered_withFields h))
    (List.Pairwise.filter _ h) fun key => ?_
  rw [Fields.lookup_filter (fun k => !isReservedKey k),
    Fields.lookup_filter (fun k => !isReservedKey k), lookup_withFields hvalues]
  split_ifs with hkey
  · rcases hl : values.lookup key with _ | value
    · rfl
    · have hres := hreserved _ (Fields.mem_of_lookup hl)
      simp [hres] at hkey
  · rfl

theorem unmarshal_withoutStorageEnvelope (h : Fields.Ordered fields) :
    (withoutStorageEnvelope (marshal fields)).unmarshal
      = some (some (fields.filter fun f => !isReservedKey f.1)) := by
  unfold withoutStorageEnvelope
  rw [unmarshal_marshal h]
  dsimp only
  split_ifs with hany
  · exact unmarshal_marshal (List.Pairwise.filter _ h)
  · rw [unmarshal_marshal h, List.filter_eq_self.2 fun f hf => ?_]
    by_contra hres
    exact hany (List.any_eq_true.2 ⟨f, hf, by simpa using hres⟩)

variable {event : EventWithMapTags}

theorem objectOf_eq_ok (h : objectOf event.data = .ok object) :
    object = Fields.concat [] (decodeMembers event.members) := by
  unfold EventWithMapTags.members
  unfold objectOf at h
  split at h
  · rename_i hdata
    rw [hdata]
    exact (Except.ok.inj h).symm
  · rename_i hdata
    rw [hdata]
    exact (Except.ok.inj h).symm
  · rename_i text _ hdata
    rw [hdata]
    cases text with
    | null => exact (Except.ok.inj h).symm
    | object members => exact (Except.ok.inj h).symm
    | _ => cases h

theorem prepareEventDataJSON_eq_ok {value : Option Text} {data : Text} :
    prepareEventDataJSON value = .ok data ↔ ∃ object, objectOf value = .ok object ∧
      (∀ f ∈ object, isReservedKey f.1 = false) ∧ data = marshal object := by
  unfold prepareEventDataJSON prepareJSONObjectJSON
  rw [Attempt.bind_eq_ok]
  refine exists_congr fun object => and_congr_right fun _ => ?_
  simp only [Bool.true_and]
  rcases hfind : object.find? fun f => isReservedKey f.1 with _ | f
  · have hnone : ∀ f ∈ object, isReservedKey f.1 = false := by
      simpa using List.find?_eq_none.1 hfind
    rw [hfind]
    exact ⟨fun h => ⟨hnone, (Except.ok.inj h).symm⟩, fun h => congrArg Except.ok h.2.symm⟩
  · have hmem := List.mem_of_find?_eq_some hfind
    have hres := List.find?_some hfind
    rw [hfind]
    constructor
    · intro h
      cases h
    · intro h
      rw [h.1 f hmem] at hres
      cases hres

theorem prepareJSONValue_eq_ok {text : Text} (h : prepareJSONValue event.metadata = .ok text) :
    ∃ metadata, event.metadataValue = some metadata ∧ EventData.metadataValue text = some metadata := by
  unfold EventWithMapTags.metadataValue
  unfold prepareJSONValue at h
  split at h
  · rename_i hmetadata
    rw [hmetadata, ← Except.ok.inj h]
    exact ⟨_, rfl, rfl⟩
  · rename_i hmetadata
    rw [hmetadata, ← Except.ok.inj h]
    exact ⟨_, rfl, rfl⟩
  · cases h
  · rename_i t hempty hinvalid hmetadata
    rw [hmetadata, ← Except.ok.inj h]
    cases t with
    | empty => exact absurd rfl hempty
    | invalid => exact absurd rfl hinvalid
    | _ => exact ⟨_, rfl, rfl⟩

theorem prepareEvent_eq_ok {i : ℕ} {prepared : PreparedEvent} :
    prepareEvent event i = .ok prepared ↔
      ∃ data metadata, prepareEventDataJSON event.data = .ok data ∧
        prepareJSONValue event.metadata = .ok metadata ∧
        prepared = ⟨event.eventId, event.eventType, data, metadata⟩ := by
  unfold prepareEvent
  rcases prepareEventDataJSON event.data with _ | data
  · simp [bind, Except.bind, Except.mapError]
  · rcases prepareJSONValue event.metadata with _ | metadata
    · simp [bind, Except.bind, Except.mapError]
    · simp [bind, Except.bind, Except.mapError, pure, Except.pure, eq_comm]

theorem exists_prepareJSONValue :
    (∃ text, prepareJSONValue event.metadata = .ok text) ↔ event.metadata ≠ some .invalid := by
  unfold prepareJSONValue
  split <;> simp_all

theorem exists_prepareEventDataJSON :
    (∃ data, prepareEventDataJSON event.data = .ok data) ↔
      event.data = none ∨ event.data = some .empty ∨ event.data = some .null ∨
        ∃ members, event.data = some (.object members) ∧
          ∀ m ∈ members, isReservedKey (decodeKey m.1) = false := by
  simp only [prepareEventDataJSON_eq_ok]
  rcases event.data with _ | text
  · exact ⟨fun _ => .inl rfl, fun _ => ⟨_, [], rfl, by simp, rfl⟩⟩
  cases text with
  | empty => exact ⟨fun _ => .inr (.inl rfl), fun _ => ⟨_, [], rfl, by simp, rfl⟩⟩
  | null => exact ⟨fun _ => .inr (.inr (.inl rfl)), fun _ => ⟨_, [], rfl, by simp, rfl⟩⟩
  | object members =>
    have hkeys : (∀ f ∈ Fields.concat [] (decodeMembers members), isReservedKey f.1 = false) ↔
        ∀ m ∈ members, isReservedKey (decodeKey m.1) = false := by
      rw [← List.forall_mem_map (f := Prod.fst) (P := fun k => isReservedKey k = false)]
      simp only [Fields.mem_keys_concat, decodeMembers, List.map_nil, List.not_mem_nil, false_or,
        List.map_map, List.forall_mem_map, Function.comp_def]
    constructor
    · rintro ⟨_, object, hobject, hnone, -⟩
      cases hobject
      exact .inr (.inr (.inr ⟨members, rfl, hkeys.1 hnone⟩))
    · rintro (h | h | h | ⟨_, h, hnone⟩)
      · cases h
      · cases h
      · cases h
      · cases h
        exact ⟨_, _, rfl, hkeys.2 hnone, rfl⟩
  | _ => simp [objectOf, Text.unmarshal]

theorem exists_prepareEventsForSave {events : List EventWithMapTags} :
    (∃ prepared, prepareEventsForSave events = .ok prepared) ↔ ∀ e ∈ events, e.Acceptable := by
  have hevent : ∀ (e : EventWithMapTags) (i : ℕ),
      (∃ p, prepareEvent e i = .ok p) ↔ e.Acceptable := by
    intro e i
    constructor
    · rintro ⟨p, hp⟩
      obtain ⟨data, metadata, hdata, hmetadata, -⟩ := prepareEvent_eq_ok.1 hp
      exact ⟨exists_prepareEventDataJSON.1 ⟨data, hdata⟩,
        exists_prepareJSONValue.1 ⟨metadata, hmetadata⟩⟩
    · rintro ⟨hdata, hmetadata⟩
      obtain ⟨data, hdata⟩ := exists_prepareEventDataJSON.2 hdata
      obtain ⟨metadata, hmetadata⟩ := exists_prepareJSONValue.2 hmetadata
      exact ⟨_, prepareEvent_eq_ok.2 ⟨data, metadata, hdata, hmetadata, rfl⟩⟩
  unfold prepareEventsForSave
  rw [Attempt.exists_mapM]
  constructor
  · intro h e he
    obtain ⟨i, hi, rfl⟩ := List.mem_iff_getElem.1 he
    exact (hevent _ i).1 (h (events[i], i) (by simp [List.mem_zipIdx_iff_getElem?]))
  · intro h e he
    exact (hevent e.1 e.2).2 (h e.1 (List.fst_mem_of_mem_zipIdx he))

end Orisun.EventData
