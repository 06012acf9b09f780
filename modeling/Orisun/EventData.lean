import Orisun.Json

/-!
# Event data and its storage envelope

A client's event data is an object whose root keys that start with two underscores are reserved.
A text is kept as the JSON library reads it: the root's keys as they are spelled, a value below the
root as it stands, with its number tokens and repeated keys.
-/

namespace Orisun.EventData

/-- A character of a key's text, as itself or as an escape. -/
structure KeyChar where
  char : Char
  escaped : Bool
  deriving DecidableEq, Repr

inductive Text where
  | empty
  | invalid
  | null
  | bool (b : Bool)
  | number (token : String)
  | string (s : String)
  | array (items : List Json)
  | object (members : List (List KeyChar × Json))

def decodeKey (key : List KeyChar) : String := String.ofList (key.map KeyChar.char)

def decodeMembers (members : List (List KeyChar × Json)) : List (String × Json) :=
  members.map fun m => (decodeKey m.1, m.2)

def isEscaped (c : Char) : Bool :=
  c.val < 0x20 || c ∈ ['"', '\\', '<', '>', '&'] || c.val == 0x2028 || c.val == 0x2029

def encodeKey (key : String) : List KeyChar := key.toList.map fun c => ⟨c, isEscaped c⟩

/-- `json.Unmarshal` into a map of raw values, where the last of repeated keys counts. `null` is
the nil map; a text that is neither is an error. -/
def Text.unmarshal : Text → Option (Option (List (String × Json)))
  | null => some none
  | object members => some (some (Fields.concat [] (decodeMembers members)))
  | _ => none

/-- `json.Marshal` of a map of raw values. -/
def marshal (fields : List (String × Json)) : Text :=
  .object (fields.map fun f => (encodeKey f.1, f.2))

def Text.value? : Text → Option Json
  | empty => none
  | invalid => none
  | null => some .null
  | bool b => some (.bool b)
  | number token => some (.number token)
  | string s => some (.string s)
  | array items => some (.array items)
  | object members => some (.object (decodeMembers members))

def isReservedKey (key : String) : Bool := "__".toList.isPrefixOf key.toList

def parseObject (data : Text) : Option (List (String × Json)) := data.unmarshal.join

/-- The object's fields that are not assigned, and the assigned ones. -/
def withFields (object values : List (String × Json)) : List (String × Json) :=
  Fields.concat (object.filter fun f => (values.lookup f.1).isNone) values

def metadataValue : Text → Option Json
  | .empty => some .null
  | metadata => metadata.value?

def withoutStorageEnvelope (encoded : Text) : Text :=
  match encoded.unmarshal with
  | some (some object) =>
    if object.any fun f => isReservedKey f.1
    then marshal (object.filter fun f => !isReservedKey f.1)
    else encoded
  | _ => encoded

inductive DataError where
  | unmarshal
  | invalidJSON
  | reserved (key : String)
  deriving DecidableEq, Repr

/-- The map a value is decoded into: a value that is nil, empty or `null` is an empty object. -/
def objectOf : Option Text → Except DataError (List (String × Json))
  | none => .ok []
  | some .empty => .ok []
  | some text =>
    match text.unmarshal with
    | none => .error .unmarshal
    | some object => .ok (object.getD [])

/-- The loop over the map stops at some reserved key; here it is the first. -/
def prepareJSONObjectJSON (value : Option Text) (validateData : Bool) : Except DataError Text := do
  let object ← objectOf value
  match object.find? fun f => validateData && isReservedKey f.1 with
  | some f => .error (.reserved f.1)
  | none => .ok (marshal object)

def prepareEventDataJSON (value : Option Text) : Except DataError Text :=
  prepareJSONObjectJSON value true

def prepareJSONValue : Option Text → Except DataError Text
  | none => .ok (.object [])
  | some .empty => .ok (.object [])
  | some .invalid => .error .invalidJSON
  | some text => .ok text

/-- An event as a client gives it; nil data and metadata are `none`. -/
structure EventWithMapTags where
  eventId : String
  eventType : String
  data : Option Text
  metadata : Option Text

structure PreparedEvent where
  eventId : String
  eventType : String
  dataJSON : Text
  metadataJSON : Text

inductive PrepareError where
  | data (event : ℕ) (e : DataError)
  | metadata (event : ℕ) (e : DataError)
  deriving DecidableEq, Repr

def prepareEvent (event : EventWithMapTags) (i : ℕ) : Except PrepareError PreparedEvent := do
  let dataJSON ← (prepareEventDataJSON event.data).mapError (.data i)
  let metadataJSON ← (prepareJSONValue event.metadata).mapError (.metadata i)
  return ⟨event.eventId, event.eventType, dataJSON, metadataJSON⟩

def prepareEventsForSave (events : List EventWithMapTags) :
    Except PrepareError (List PreparedEvent) :=
  events.zipIdx.mapM fun e => prepareEvent e.1 e.2

def EventWithMapTags.members (event : EventWithMapTags) : List (List KeyChar × Json) :=
  match event.data with
  | some (.object members) => members
  | _ => []

/-- The value a client's metadata is; none given is an empty object. -/
def EventWithMapTags.metadataValue (event : EventWithMapTags) : Option Json :=
  match event.metadata with
  | none => some (.object [])
  | some .empty => some (.object [])
  | some text => text.value?

/-- The data is an object without reserved root keys, or none is given, and the metadata is a JSON
value. -/
structure EventWithMapTags.Acceptable (event : EventWithMapTags) : Prop where
  data : event.data = none ∨ event.data = some .empty ∨ event.data = some .null ∨
    ∃ members, event.data = some (.object members) ∧
      ∀ m ∈ members, isReservedKey (decodeKey m.1) = false
  metadata : event.metadata ≠ some .invalid

end Orisun.EventData
