import Orisun.JsonText
import Orisun.Postgres.Clients

/-!
# What the service sends and what PostgreSQL reads

A save is validated by `uuid.Parse` and `json.Valid` and joins a batch as it is. The batch is one
JSON text, cast to `jsonb` as a whole before `insert_event_requests_v2` runs, and the function casts
the ids of the events it accepts to `uuid`. The input functions of both types are those PostgreSQL
documents: what they refuse raises, and the transaction of the whole batch is aborted.
-/

namespace Orisun.Postgres

def isHexDigit (c : Char) : Bool :=
  isDigit c || ('a' ≤ c && c ≤ 'f') || ('A' ≤ c && c ≤ 'F')

/-- `xxxxxxxx-xxxx-xxxx-xxxx-xxxxxxxxxxxx`. -/
def hyphenated (cs : List Char) : Bool :=
  cs.length == 36 && cs.zipIdx.all fun c =>
    if c.2 ∈ [8, 13, 18, 23] then c.1 == '-' else isHexDigit c.1

/-- `uuid.Parse`. Of the form in braces only the characters between them are examined. -/
def uuidParse (s : String) : Bool :=
  let cs := s.toList
  cs.all (fun c => c.val < 128) &&
    (hyphenated cs
      || (cs.length == 45 && (cs.take 9).map Char.toLower == "urn:uuid:".toList
        && hyphenated (cs.drop 9))
      || (cs.length == 38 && hyphenated ((cs.drop 1).take 36))
      || (cs.length == 32 && cs.all isHexDigit))

/-- The digits of the bytes left, and what follows them. A hyphen may follow every second byte but
the last. -/
def readUuid : ℕ → List Char → Option (List Char × List Char)
  | 0, rest => some ([], rest)
  | n + 1, a :: b :: rest =>
    if isHexDigit a && isHexDigit b then
      let rest := if 0 < n && n % 2 == 0 && rest.head? == some '-' then rest.tail else rest
      (readUuid n rest).map fun r => (a.toLower :: b.toLower :: r.1, r.2)
    else none
  | _, _ => none

/-- The text of a `uuid` value. -/
def uuidText (ds : List Char) : String :=
  String.ofList (ds.take 8 ++ '-' :: (ds.drop 8).take 4 ++ '-' :: (ds.drop 12).take 4
    ++ '-' :: (ds.drop 16).take 4 ++ '-' :: ds.drop 20)

/-- The input function of `uuid`, `none` where it raises. -/
def uuidIn (s : String) : Option String :=
  let body := if s.toList.head? = some '{' then s.toList.tail else s.toList
  let closing := if s.toList.head? = some '{' then ['}'] else []
  (readUuid 16 body).bind fun r => if r.2 = closing then some (uuidText r.1) else none

def isHighSurrogate (u : UInt16) : Bool := 0xD800 ≤ u && u < 0xDC00

def isLowSurrogate (u : UInt16) : Bool := 0xDC00 ≤ u && u < 0xE000

/-- The text of a JSON string. `\u0000` cannot be converted to text, and a surrogate has to be one
of a pair. -/
def textIn : List UInt16 → Option (List Char)
  | [] => some []
  | [u] => if u = 0 || isHighSurrogate u || isLowSurrogate u then none
      else some [Char.ofNat u.toNat]
  | u :: v :: us =>
    if isHighSurrogate u then
      if isLowSurrogate v then (textIn us).map
        (Char.ofNat (0x10000 + (u.toNat - 0xD800) * 0x400 + (v.toNat - 0xDC00)) :: ·)
      else none
    else if u = 0 || isLowSurrogate u then none
    else (textIn (v :: us)).map (Char.ofNat u.toNat :: ·)

/-- The most digits a `numeric` has before the decimal point, and after it. -/
def maxNumericDigits : ℕ := 131072

@[inherit_doc maxNumericDigits]
def maxNumericScale : ℕ := 16383

/-- The text of a JSON number as `numeric`: its digits without an exponent. -/
def numericIn (token : String) : Option String :=
  let negative := token.toList.head? == some '-'
  let unsigned := if negative then token.toList.tail else token.toList
  let mantissa := unsigned.takeWhile fun c => c != 'e' && c != 'E'
  let exponent := exponentValue (unsigned.drop (mantissa.length + 1))
  let whole := mantissa.takeWhile (· != '.')
  let fraction := (mantissa.dropWhile (· != '.')).tail
  let digits := whole ++ fraction
  let point : ℤ := whole.length + exponent
  let scale := (fraction.length - exponent).toNat
  let integer := (digits.take point.toNat
    ++ List.replicate (point.toNat - digits.length) '0').dropWhile (· == '0')
  let fractional := List.replicate (-point).toNat '0' ++ digits.drop point.toNat
  if integer.length > maxNumericDigits || scale > maxNumericScale then none
  else some (String.ofList
    ((if negative && digits.any (· != '0') then ['-'] else [])
      ++ (if integer.isEmpty then ['0'] else integer)
      ++ (if scale = 0 then [] else '.' :: fractional)))

mutual

/-- The input function of `jsonb`, `none` where it raises. Of equal keys the last counts. -/
def jsonbIn : JsonText → Option Json
  | .null => some .null
  | .bool b => some (.bool b)
  | .number token => (numericIn token.1).map .number
  | .string units => (textIn units).map fun cs => .string (String.ofList cs)
  | .array items => (jsonbItemsIn items).map .array
  | .object fields => (jsonbFieldsIn fields).map fun fs => .object (Fields.concat [] fs)

def jsonbItemsIn : List JsonText → Option (List Json)
  | [] => some []
  | j :: js => (jsonbIn j).bind fun j => (jsonbItemsIn js).map (j :: ·)

def jsonbFieldsIn : List (List UInt16 × JsonText) → Option (List (String × Json))
  | [] => some []
  | (key, j) :: fields => (textIn key).bind fun key => (jsonbIn j).bind fun j =>
      (jsonbFieldsIn fields).map ((String.ofList key, j) :: ·)

end

def stringIn (s : String) : Option String := if containsNul s then none else some s

/-- The exponent of a JSON number can be cast to `NUMERIC`. -/
def exponentFits (token : String) : Bool :=
  let exponent := (token.toList.dropWhile fun c => c != 'e' && c != 'E').tail
  let digits := (exponent.filter isDigit).dropWhile (· == '0')
  decide (digits.length ≤ maxNumericDigits)

/-- `NUMERIC` can hold the integer. -/
def numericHolds (n : ℤ) : Bool := decide (n.natAbs < 10 ^ maxNumericDigits)

/-- `NUMERIC` can hold a JSON number's magnitude: the exponent plus the number of significant
digits, and then less the number of decimals. -/
def magnitudeFits (token : String) : Bool :=
  let s := token.toList
  let unsigned := if s.head? == some '-' then s.tail else s
  let mantissa := unsigned.takeWhile fun c => c != 'e' && c != 'E'
  let exponent := exponentValue (unsigned.drop (mantissa.length + 1))
  let fractional := (mantissa.dropWhile (· != '.')).length - 1
  let digits := (mantissa.filter (· != '.')).dropWhile (· == '0')
  digits.isEmpty || numericHolds (exponent + digits.length) &&
    numericHolds (exponent + digits.length - fractional)

def numericFits (token : String) : Bool := exponentFits token && magnitudeFits token

/-- `orisun_compare_number` does not raise on the value, which it casts if it is a JSON number. The
other one is the text of a `jsonb` number, which is a `NUMERIC`. -/
def comparable (target : String) : Bool := !jsonNumberPattern target.toList || numericFits target

/-- The values a request's observations compare numbers with. -/
def Request.orderTargets (r : Request) : List String :=
  r.consistency.flatMap fun o => o.criteria.flatMap fun c =>
    (orisunCriterionSql c).toOption.elim [] fun parts => parts.filterMap SqlPart.orderTarget?

namespace Wire

/-- An event of a save; a text is `none` where it is not JSON. -/
structure PreparedEvent where
  eventId : String
  eventType : String
  dataJSON : Option JsonText
  metadataJSON : Option JsonText

structure WireEvent where
  eventId : String
  eventType : String
  data : List (List UInt16 × JsonText)
  metadata : JsonText

/-- A prepared save. Preparing refuses one without events. -/
structure BatchPayload where
  consistency : List Observation
  events : List WireEvent
  events_ne : events ≠ []

inductive PrepareError where
  | invalid (e : SaveInputError)
  | marshalEvents
  deriving DecidableEq, Repr

def validateEvent (event : PreparedEvent) : Except SaveInputError Unit :=
  if event.eventType = "" then .error .noEventType
  else if !uuidParse event.eventId then .error .invalidEventId
  else match event.dataJSON with
    | some (.object _) => .ok ()
    | _ => .error .dataNotObject

def validatePostgresSaveInput (events : List PreparedEvent)
    (consistency : List ConsistencyCheck) : Except SaveInputError Unit := do
  if events = [] then .error .noEvents
  else
    events.forM validateEvent
    consistency.forM validateCheck

/-- An event is sent as it is; encoding fails where its metadata is not JSON. -/
def wireEvent (event : PreparedEvent) : Option WireEvent :=
  match event.dataJSON, event.metadataJSON with
  | some (.object data), some metadata => some ⟨event.eventId, event.eventType, data, metadata⟩
  | _, _ => none

def prepareSave (events : List PreparedEvent) (consistency : List ConsistencyCheck) :
    Except PrepareError BatchPayload :=
  match validatePostgresSaveInput events consistency with
  | .error e => .error (.invalid e)
  | .ok () => match events.mapM wireEvent with
    | none => .error .marshalEvents
    | some wire =>
      if hne : wire ≠ [] then .ok ⟨consistency.map storedObservation, wire, hne⟩
      else .error (.invalid .noEvents)

structure PreparedSave where
  events : List PreparedEvent
  consistency : List ConsistencyCheck
  payload : BatchPayload
  prepared : prepareSave events consistency = .ok payload

def tagFieldReadable : TagField → Bool
  | .scalar value => !containsNul value
  | .predicates ps => ps.all fun p => !containsNul p.operator && !containsNul p.value

/-- The observation as `jsonb`. -/
def observationIn (o : Observation) : Option Observation :=
  if o.criteria.all fun c => c.fields.all fun f => !containsNul f.1 && tagFieldReadable f.2
  then some o else none

def eventIn (event : WireEvent) : Option EventItem :=
  (stringIn event.eventId).bind fun eventId => (stringIn event.eventType).bind fun eventType =>
    (jsonbFieldsIn event.data).bind fun data => (jsonbIn event.metadata).map fun metadata =>
      ⟨eventId, eventType, Fields.concat [] data, some metadata⟩

/-- The payload as `jsonb`. -/
def requestIn (payload : BatchPayload) : Option Request :=
  (payload.consistency.mapM observationIn).bind fun consistency =>
    (payload.events.mapM eventIn).bind fun events =>
      if hne : events ≠ [] then some ⟨consistency, events, hne⟩ else none

/-- A server whose boundary has the indexes it was created with: one of them is on the event type,
and `fits` tells the types its rows have room for. With which of their values the observations of
some requests are compared on the stored documents, is up to its plans. -/
structure Server where
  timestamp : String
  currentXactId : ℤ
  fits : String → Bool
  compared : List Json → List Request → List String
  compared_subset : ∀ documents requests,
    compared documents requests ⊆ requests.flatMap Request.orderTargets

def Server.statement (server : Server) : Statement where
  uuid := uuidIn
  timestamp := server.timestamp
  indexable document := (document.getText? "__eventType").all server.fits
  currentXactId := server.currentXactId

/-- One batch: the cast of its payload and the call of the function, `none` where either raises. -/
def insertEventRequests (server : Server) (t : Tables) (payloads : List BatchPayload) :
    Option (Tables × List ResultRow) :=
  (payloads.mapM requestIn).bind fun requests =>
    if (server.compared (t.events.map EventRow.data) requests).all comparable then
      (insertEventRequestsV2 server.statement t requests).toOption
    else none

end Wire

/-- A value of type `TEXT`. -/
def text (s : String) : Option String :=
  if s.toList.contains (Char.ofNat 0) then none else some s

/-- A value of type `VARCHAR(n)`: blanks after the first `n` characters are cut off. -/
def varchar (n : ℕ) (s : String) : Option String :=
  if (s.toList.drop n).all (· == ' ') then text (String.ofList (s.toList.take n)) else none

end Orisun.Postgres
