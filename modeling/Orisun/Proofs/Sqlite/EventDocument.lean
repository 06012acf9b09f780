import Orisun.Proofs.EventData
import Orisun.Proofs.WriteContext
import Orisun.Sqlite.EventDocument

/-!
# The envelope of a stored event

Every event sets all the fields of its own that the shared map has, so the map carries nothing from
one event to the next (`batchDocuments_eq_mapM`), and the documents are those of the rows a save
inserts.
-/

namespace Orisun.Sqlite

open EventData

/-- The map as it is for a request's first event, and what can stand in for it later. -/
def Reusable (base fields : List (String × Json)) : Prop :=
  ∀ eventId eventType metadata gid,
    Fields.concat fields (eventFields eventId eventType metadata gid)
      = Fields.concat base (eventFields eventId eventType metadata gid)

theorem nodup_keys_eventFields (eventId eventType : String) (metadata : Json) (gid : ℤ) :
    ((eventFields eventId eventType metadata gid).map Prod.fst).Nodup := by
  show ["__eventId", "__eventType", "__metadata", "__preparePosition"].Nodup
  decide

theorem reusable_concat {base : List (String × Json)} (hbase : Fields.Ordered base)
    (eventId eventType : String) (metadata : Json) (gid : ℤ) :
    Reusable base (Fields.concat base (eventFields eventId eventType metadata gid)) := by
  intro eventId' eventType' metadata' gid'
  refine (Fields.ordered_concat _ (Fields.ordered_concat _ hbase)).ext
    (Fields.ordered_concat _ hbase) fun key => ?_
  rw [Fields.lookup_concat key _ (nodup_keys_eventFields ..),
    Fields.lookup_concat key _ (nodup_keys_eventFields ..),
    Fields.lookup_concat key _ (nodup_keys_eventFields ..)]
  simp only [eventFields, List.lookup_cons, List.lookup_nil]
  rcases key == "__eventId" <;> rcases key == "__eventType" <;> rcases key == "__metadata" <;>
    rcases key == "__preparePosition" <;> rfl

theorem batchDocuments_eq_mapM (firstId : ℤ) {base : List (String × Json)}
    (hbase : Fields.Ordered base) : ∀ {events : List PreparedEventDocument} {i : ℕ}
    {fields : List (String × Json)}, Reusable base fields →
      batchDocuments firstId i fields events = (events.zipIdx i).mapM fun e =>
        (positionedDocumentIn e.1 (firstId + e.2) base).map Prod.fst
  | [], i, fields, _ => rfl
  | event :: events, i, fields, hfields => by
    rw [List.zipIdx_cons, List.mapM_cons, batchDocuments]
    unfold positionedDocumentIn
    rcases event.object with _ | object
    · rfl
    rcases event.metadata with _ | metadata
    · rfl
    simp only [Option.bind_eq_bind, Option.bind_some, Option.pure_def, Option.map_some]
    rw [hfields, batchDocuments_eq_mapM firstId hbase (reusable_concat hbase _ _ _ _)]
    rfl

section Document

variable {transactionId : ℤ} {now : String} {event : PreparedEventDocument} {gid : ℤ}
  {object : List (String × Json)} {metadata : Json}

theorem nodup_keys_requestFields : ((requestFields transactionId now).map Prod.fst).Nodup := by
  show ["__commitPosition", "__dateCreated", "__writeId"].Nodup
  decide

def assignedFields (transactionId : ℤ) (now eventId eventType : String) (metadata : Json)
    (gid : ℤ) : List (String × Json) :=
  Fields.concat (Fields.concat [] (requestFields transactionId now))
    (eventFields eventId eventType metadata gid)

theorem ordered_assignedFields (eventId eventType : String) :
    Fields.Ordered (assignedFields transactionId now eventId eventType metadata gid) :=
  Fields.ordered_concat _ (Fields.ordered_concat _ List.Pairwise.nil)

variable {key : String}

theorem keys_assignedFields {eventId eventType : String} :
    key ∈ (assignedFields transactionId now eventId eventType metadata gid).map Prod.fst ↔
      key ∈ ["__commitPosition", "__dateCreated", "__writeId", "__eventId", "__eventType",
        "__metadata", "__preparePosition"] := by
  rw [assignedFields, Fields.mem_keys_concat, Fields.mem_keys_concat]
  simp [requestFields, eventFields, or_assoc]

theorem lookup_assignedFields (eventId eventType key : String) :
    (assignedFields transactionId now eventId eventType metadata gid).lookup key
      = ((eventFields eventId eventType metadata gid).lookup key).or
        ((requestFields transactionId now).lookup key) := by
  rw [assignedFields, Fields.lookup_concat key _ (nodup_keys_eventFields ..),
    Fields.lookup_concat key _ nodup_keys_requestFields, List.lookup_nil, Option.or_none]

theorem reserved_assignedFields (eventId eventType : String) :
    ∀ f ∈ assignedFields transactionId now eventId eventType metadata gid,
      isReservedKey f.1 = true := by
  intro f hf
  have hkey := keys_assignedFields.1 (List.mem_map_of_mem (f := Prod.fst) hf)
  revert hkey
  generalize f.1 = key
  simp only [List.mem_cons, List.not_mem_nil, or_false]
  rintro (rfl | rfl | rfl | rfl | rfl | rfl | rfl) <;> decide

theorem positionedDocumentIn_eq (event : PreparedEventDocument) (hobject : event.object = some object)
    (hmetadata : event.metadata = some metadata) :
    (positionedDocumentIn event gid (Fields.concat [] (requestFields transactionId now))).map Prod.fst
      = some (withFields object
        (assignedFields transactionId now event.eventId event.eventType metadata gid)) := by
  simp [positionedDocumentIn, hobject, hmetadata, assignedFields]

theorem concat_requestFields {fields : List (String × Json)} (h : Fields.Ordered fields) :
    Fields.concat fields (Fields.concat [] (requestFields transactionId now))
      = Fields.concat fields (requestFields transactionId now) :=
  Fields.concat_concat h List.Pairwise.nil nodup_keys_requestFields

theorem map_positionedDocumentIn (hordered : ∀ object ∈ event.object, Fields.Ordered object) :
    ((positionedDocumentIn event gid
        (Fields.concat [] (requestFields transactionId now))).map Prod.fst).map Json.object
      = positionedDocument event gid transactionId now := by
  unfold positionedDocument
  rcases hobject : event.object with _ | object
  · simp [positionedDocumentIn, hobject]
  rcases hmetadata : event.metadata with _ | metadata
  · simp [positionedDocumentIn, hobject, hmetadata]
  have h := hordered object hobject
  rw [positionedDocumentIn_eq event hobject hmetadata, withFields_eq_concat h
    (ordered_assignedFields ..).nodup_keys, assignedFields,
    Fields.concat_concat h (Fields.ordered_concat _ List.Pairwise.nil) (nodup_keys_eventFields ..),
    concat_requestFields h, ← Fields.concat_append]
  rfl

theorem jsonExtract_number {document : List (String × Json)} {n : ℤ}
    (h : document.lookup key = some (.number (toString n))) (hn : InInt64 n) :
    jsonExtract document key = .integer n := by
  unfold jsonExtract
  rw [h]
  dsimp only
  rw [readInt_toString]
  exact if_pos hn

theorem jsonExtract_string {document : List (String × Json)} {s : String}
    (h : document.lookup key = some (.string s)) : jsonExtract document key = .text s := by
  simp [jsonExtract, h]

theorem scanReadEventRow_withFields (h : Fields.Ordered object) (eventId eventType : String)
    (hgid : InInt64 gid) (htransaction : InInt64 transactionId) :
    ∃ r, scanReadEventRow (withFields object
        (assignedFields transactionId now eventId eventType metadata gid)) = some r ∧
      Assigned eventId eventType metadata gid transactionId now r ∧
      r.data.unmarshal = some (some (object.filter fun f => !isReservedKey f.1)) := by
  set document := withFields object
    (assignedFields transactionId now eventId eventType metadata gid) with hdocument
  have hlookup : ∀ key, document.lookup key
      = (((eventFields eventId eventType metadata gid).lookup key).or
        ((requestFields transactionId now).lookup key)).or (object.lookup key) := fun key => by
    rw [hdocument, lookup_withFields (ordered_assignedFields ..).nodup_keys, lookup_assignedFields]
  have hcommit := jsonExtract_number (hlookup "__commitPosition") htransaction
  have hprepare := jsonExtract_number (hlookup "__preparePosition") hgid
  have hid := jsonExtract_string (hlookup "__eventId")
  have htype := jsonExtract_string (hlookup "__eventType")
  have hdate := jsonExtract_string (hlookup "__dateCreated")
  have hwrite := jsonExtract_string (hlookup "__writeId")
  have hmetadata : document.lookup "__metadata" = some metadata := hlookup "__metadata"
  refine ⟨⟨eventId, eventType, withoutStorageEnvelope (marshal document), metadata, transactionId,
    gid, now, writeIdText transactionId transactionId⟩, ?_, ⟨rfl, rfl, rfl, rfl, rfl, rfl, rfl⟩, ?_⟩
  · simp only [scanReadEventRow, hcommit, hprepare, hid, htype, hdate, hwrite, hmetadata,
      SqlValue.text?, SqlValue.int?]
    rfl
  · rw [unmarshal_withoutStorageEnvelope (ordered_withFields h), filter_withFields h
      (ordered_assignedFields ..).nodup_keys (reserved_assignedFields _ _)]

end Document

section Batch

variable {firstId transactionId : ℤ} {now : String}

theorem insertedDocuments_eq_mapM (events : List PreparedEventDocument) :
    insertedDocuments firstId transactionId now events = events.zipIdx.mapM fun e =>
      (positionedDocumentIn e.1 (firstId + e.2)
        (Fields.concat [] (requestFields transactionId now))).map Prod.fst :=
  batchDocuments_eq_mapM firstId (Fields.ordered_concat _ List.Pairwise.nil) fun _ _ _ _ => rfl

/-- The documents built over one shared map are those of the rows built with maps of their own. -/
theorem map_insertedDocuments (events : List PreparedEvent) :
    (insertedDocuments firstId transactionId now (prepareEventDocuments events)).map
        (List.map Json.object)
      = (positionedRows firstId transactionId now 0 (prepareEventDocuments events)).map
        (List.map EventRow.data) := by
  rw [insertedDocuments_eq_mapM, positionedRows, Attempt.map_mapM, Attempt.map_mapM]
  refine Attempt.mapM_congr fun e he => ?_
  obtain ⟨event, -, hevent⟩ := List.mem_map.1 (List.fst_mem_of_mem_zipIdx he)
  have hordered : ∀ object ∈ e.1.object, Fields.Ordered object := by
    rw [← hevent]
    exact fun object hobject => ordered_parseObject hobject
  rw [map_positionedDocumentIn hordered, positionedRow, Option.map_map]
  exact (Option.map_id' ..).symm

theorem envelopeWins_of_document {event : PreparedEvent} {gid : ℤ}
    {document : List (String × Json)} (htransaction : InInt64 transactionId) (hgid : InInt64 gid)
    (h : (positionedDocumentIn (prepareEventDocument event) gid
      (Fields.concat [] (requestFields transactionId now))).map Prod.fst = some document) :
    EnvelopeWins event gid transactionId now document := by
  rcases hobject : parseObject event.dataJSON with _ | object
  · simp [positionedDocumentIn, prepareEventDocument, hobject] at h
  rcases hmetadata : metadataValue event.metadataJSON with _ | metadata
  · simp [positionedDocumentIn, prepareEventDocument, hobject, hmetadata] at h
  rw [positionedDocumentIn_eq (prepareEventDocument event) hobject hmetadata,
    Option.some.injEq] at h
  subst h
  obtain ⟨r, hread, hassigned, hdata⟩ := scanReadEventRow_withFields
    (ordered_parseObject hobject) event.eventId event.eventType hgid htransaction
  exact ⟨r, metadata, object, hread, hmetadata, hassigned, hobject, hdata⟩

theorem readsBack_of_envelopeWins {event : EventWithMapTags} {prepared : PreparedEvent} {i : ℕ}
    {gid : ℤ} {document : List (String × Json)} (h : prepareEvent event i = .ok prepared)
    (hwins : EnvelopeWins prepared gid transactionId now document) :
    ReadsBack event gid transactionId now document := by
  obtain ⟨data, text, hdata, htext, rfl⟩ := prepareEvent_eq_ok.1 h
  obtain ⟨object, hobject, hnone, rfl⟩ := prepareEventDataJSON_eq_ok.1 hdata
  obtain ⟨metadata, hmetadata, hvalue⟩ := prepareJSONValue_eq_ok htext
  have hconcat := objectOf_eq_ok hobject
  have hordered : Fields.Ordered object := hconcat ▸ Fields.ordered_concat _ List.Pairwise.nil
  obtain ⟨r, metadata', object', hread, hvalue', hassigned, hparse, hpublic⟩ := hwins
  cases hvalue.symm.trans hvalue'
  cases (parseObject_marshal hordered).symm.trans hparse
  rw [List.filter_eq_self.2 fun f hf => by simp [hnone f hf]] at hpublic
  refine ⟨r, metadata, object, hread, hmetadata, hassigned, hpublic, fun key => ?_, hnone⟩
  rw [hconcat, Fields.lookup_concat_reverse, List.lookup_nil, Option.or_none]

theorem envelopeWins_of_insertedDocuments (htransaction : InInt64 transactionId)
    {prepared : List PreparedEvent} {documents : List (List (String × Json))}
    (h : insertedDocuments firstId transactionId now (prepareEventDocuments prepared)
      = some documents) (hfits : ∀ i < prepared.length, InInt64 (firstId + i)) :
    documents.length = prepared.length ∧
      ∀ (i : ℕ) e, prepared[i]? = some e →
        ∃ d, documents[i]? = some d ∧ EnvelopeWins e (firstId + i) transactionId now d := by
  rw [insertedDocuments_eq_mapM] at h
  have hall := Attempt.forall₂_of_mapM h
  constructor
  · simpa [prepareEventDocuments] using hall.length_eq.symm
  · intro i e he
    obtain ⟨hi, -⟩ := List.getElem?_eq_some_iff.1 he
    have hat : (prepareEventDocuments prepared).zipIdx[i]? = some (prepareEventDocument e, i) := by
      simp [prepareEventDocuments, he]
    obtain ⟨d, hd, hdocument⟩ := Attempt.exists_getElem? hall hat
    exact ⟨d, hd, envelopeWins_of_document htransaction (hfits i hi) hdocument⟩

theorem exists_insertedDocuments {events : List EventWithMapTags} {prepared : List PreparedEvent}
    (h : prepareEventsForSave events = .ok prepared) :
    ∃ documents, insertedDocuments firstId transactionId now (prepareEventDocuments prepared)
      = some documents := by
  rw [← Option.isSome_iff_exists, insertedDocuments_eq_mapM, Attempt.mapM_isSome]
  intro e he
  obtain ⟨p, hp, hdocument⟩ := List.mem_map.1 (List.fst_mem_of_mem_zipIdx he)
  obtain ⟨x, -, hx⟩ := Attempt.exists_of_mem_mapM_ok h p hp
  obtain ⟨data, text, hdata, htext, rfl⟩ := prepareEvent_eq_ok.1 hx
  obtain ⟨object, hobject, -, rfl⟩ := prepareEventDataJSON_eq_ok.1 hdata
  obtain ⟨metadata, -, hvalue⟩ := prepareJSONValue_eq_ok htext
  have hordered : Fields.Ordered object :=
    objectOf_eq_ok hobject ▸ Fields.ordered_concat _ List.Pairwise.nil
  rw [← hdocument, positionedDocumentIn_eq _ (parseObject_marshal hordered) hvalue]
  rfl

/-- Every event of a batch is read back from its stored document. -/
theorem envelope_roundTrip (firstId transactionId : ℤ) (now : String)
    (htransaction : InInt64 transactionId) :
    (∀ events prepared, prepareEventsForSave events = .ok prepared →
      (∀ i < events.length, InInt64 (firstId + i)) →
      ∃ documents, insertedDocuments firstId transactionId now (prepareEventDocuments prepared)
          = some documents ∧
        documents.length = events.length ∧
        ∀ (i : ℕ) e, events[i]? = some e →
          ∃ d, documents[i]? = some d ∧ ReadsBack e (firstId + i) transactionId now d) ∧
    (∀ prepared documents, insertedDocuments firstId transactionId now
          (prepareEventDocuments prepared) = some documents →
      (∀ i < prepared.length, InInt64 (firstId + i)) →
      documents.length = prepared.length ∧
        ∀ (i : ℕ) e, prepared[i]? = some e →
          ∃ d, documents[i]? = some d ∧ EnvelopeWins e (firstId + i) transactionId now d) := by
  refine ⟨fun events prepared h hfits => ?_, fun prepared documents h hfits =>
    envelopeWins_of_insertedDocuments htransaction h hfits⟩
  have hall := Attempt.forall₂_of_mapM_ok h
  have hlength : prepared.length = events.length := by
    simpa using hall.length_eq.symm
  obtain ⟨documents, hdocuments⟩ := exists_insertedDocuments h
  obtain ⟨hlen, hwins⟩ := envelopeWins_of_insertedDocuments htransaction hdocuments
    (hlength ▸ hfits)
  refine ⟨documents, hdocuments, hlen.trans hlength, fun i e he => ?_⟩
  have hat : events.zipIdx[i]? = some (e, i) := by simp [he]
  obtain ⟨p, hp, hprepare⟩ := Attempt.exists_getElem? hall hat
  obtain ⟨d, hd, hwin⟩ := hwins i p hp
  exact ⟨d, hd, readsBack_of_envelopeWins hprepare hwin⟩

def sampleEvent : EventWithMapTags :=
  ⟨"4e6b5d2c", "AccountOpened",
    some (.object [([⟨'a', true⟩], .number "1e400"),
      ([⟨'a', false⟩], .object [("__eventId", .number "1.10")])]), none⟩

/-- An event that was not prepared and has an id of its own in its data. -/
def spoofedEvent : PreparedEvent :=
  ⟨"4e6b5d2c", "AccountOpened", .object [(encodeKey "__eventId", .string "other")], .empty⟩

theorem sampleEvent_readsBack :
    (∃ prepared documents d, prepareEventsForSave [sampleEvent] = .ok prepared ∧
      insertedDocuments 7 7 "2026-10-12T00:00:00Z" (prepareEventDocuments prepared)
        = some documents ∧
      documents[0]? = some d ∧ ReadsBack sampleEvent 7 7 "2026-10-12T00:00:00Z" d) ∧
    ∃ documents d, insertedDocuments 7 7 "2026-10-12T00:00:00Z"
        (prepareEventDocuments [spoofedEvent]) = some documents ∧
      documents[0]? = some d ∧ EnvelopeWins spoofedEvent 7 7 "2026-10-12T00:00:00Z" d := by
  have hfits : ∀ i < 1, InInt64 ((7 : ℤ) + (i : ℕ)) := by decide
  have hacceptable : sampleEvent.Acceptable :=
    ⟨.inr (.inr (.inr ⟨_, rfl, by decide⟩)), by simp [sampleEvent]⟩
  have htrip := envelope_roundTrip 7 7 "2026-10-12T00:00:00Z" (by decide)
  constructor
  · obtain ⟨prepared, hprepared⟩ := exists_prepareEventsForSave.2
      (List.forall_mem_singleton.2 hacceptable)
    obtain ⟨documents, hdocuments, -, hread⟩ := htrip.1 [sampleEvent] prepared hprepared hfits
    obtain ⟨d, hd, hback⟩ := hread 0 sampleEvent rfl
    exact ⟨prepared, documents, d, hprepared, hdocuments, hd, hback⟩
  · have hsome : (insertedDocuments 7 7 "2026-10-12T00:00:00Z"
        (prepareEventDocuments [spoofedEvent])).isSome = true := by decide +kernel
    obtain ⟨documents, hdocuments⟩ := Option.isSome_iff_exists.1 hsome
    obtain ⟨-, hread⟩ := htrip.2 [spoofedEvent] documents hdocuments hfits
    obtain ⟨d, hd, hwins⟩ := hread 0 spoofedEvent rfl
    exact ⟨documents, d, hdocuments, hd, hwins⟩

end Batch

end Orisun.Sqlite
