import Adro.Encoding.Struct

/-!
# Event envelopes

`core/ids` and `core/event`: identifiers, the envelope of a durable event, how
one is committed and verified, and its JSON document. The hash, the classes of
Unicode and the time texts that carry an offset come from a platform. A time is
the instant it says; its location is left out, and so are the texts of decoding
errors.
-/

namespace Adro.Event

open Adro.Go Adro.Json Adro.Encoding

/-- What is used of `crypto/sha256`, `unicode` and `time`. -/
structure Platform where
  sha256 : Bytes → Bytes
  isLetter : Char → Bool
  isDigit : Char → Bool
  parseOffset : Bytes → Option Time
  not_letter : isLetter replacement = false
  not_digit : isDigit replacement = false

/-- A platform that knows the letters and digits of ASCII. -/
def Platform.ascii (sha256 : Bytes → Bytes) : Platform where
  sha256
  isLetter := Char.isAlpha
  isDigit := Char.isDigit
  parseOffset _ := none
  not_letter := by decide
  not_digit := by decide

/-- The sentinels of `core/ids`, `ports/eventstore` and `ports/leasestore`. -/
inductive Sentinel
  | invalid
  | conflict
  | idempotencyConflict
  | leaseLost
  | corrupt
  | busy
  | lost
  deriving DecidableEq, Repr

abbrev Error := GoError Sentinel

def errorText (text : String) : Error := ⟨none, text⟩

def wrap (context : String) (e : Error) : Error := ⟨e.sentinel, context ++ ": " ++ e.text⟩

def encodingError : CanonicalError → Error
  | .decode => errorText "decode JSON"
  | .exponent _ => errorText "number exponent is outside canonical bounds"

def encoded {α : Type} (x : Except CanonicalError α) : Except Error α := x.mapError encodingError

def isSpaceUnit (u : Option Char) : Bool := u.any isSpace

def unitWidth (u : Option Char) : Nat := u.elim 1 fun c => (String.utf8EncodeChar c).length

/-- The number of bytes in the spaces that a list of runes starts with. -/
def spaceWidth (us : List (Option Char)) : Nat := ((us.takeWhile isSpaceUnit).map unitWidth).sum

/-- `strings.TrimSpace`. -/
def trimSpace (b : Bytes) : Bytes :=
  let b := b.drop (spaceWidth (units b))
  b.take (b.length - spaceWidth (units b).reverse)

def maxLength : Nat := 128

/-- The loop of `ids.Validate` over the runes, from the byte it has reached. -/
def validateRunes (p : Platform) (nameSpace : String) : Nat → List (Option Char) → Except Error Unit
  | _, [] => .ok ()
  | i, u :: us =>
    let r := u.getD replacement
    if p.isLetter r || p.isDigit r || r == '-' || r == '_' || r == '.' || r == ':' then
      validateRunes p nameSpace (i + unitWidth u) us
    else
      .error ⟨some .invalid, "invalid runtime identifier: " ++ nameSpace ++
        " contains unsupported rune at byte " ++ toString i⟩

/-- `ids.Validate`. -/
def validateID (p : Platform) (nameSpace : String) (value : Bytes) : Except Error Unit :=
  if trimSpace value = [] ∨ trimSpace value ≠ value ∨ maxLength < value.length then
    .error ⟨some .invalid,
      "invalid runtime identifier: " ++ nameSpace ++ " must contain 1..128 bytes"⟩
  else validateRunes p nameSpace 0 (units value)

def schemaVersion : Int := 1

structure Actor where
  type : Bytes
  id : Bytes
  deriving DecidableEq, Repr

/-- `coreencoding.Identity`. -/
structure Identity where
  name : Bytes
  version : Bytes
  hashAlgorithm : Bytes
  hashVersion : Bytes
  deriving DecidableEq, Repr

/-- `coreencoding.Current`. -/
def current : Identity :=
  ⟨bytesOf "json-canonical", bytesOf "v1", bytesOf "sha-256", bytesOf "v1"⟩

structure Envelope where
  streamID : Bytes
  sequence : Int
  eventID : Bytes
  eventType : Bytes
  schemaVersion : Int
  tenantID : Bytes
  workspaceID : Bytes
  actor : Actor
  correlationID : Bytes
  causationID : Bytes
  idempotencyKey : Bytes
  fencingToken : Int64
  occurredAt : Time
  committedAt : Time
  classification : Bytes
  payload : Bytes
  payloadDigest : Bytes
  previousDigest : Bytes
  envelopeDigest : Bytes
  encoding : Identity
  deriving DecidableEq, Repr

structure Uncommitted where
  streamID : Bytes
  eventType : Bytes
  tenantID : Bytes
  workspaceID : Bytes
  actor : Actor
  correlationID : Bytes
  causationID : Bytes
  idempotencyKey : Bytes
  fencingToken : Int64
  occurredAt : Time
  classification : Bytes
  payload : Bytes
  deriving DecidableEq, Repr

structure CommitMetadata where
  sequence : Int
  eventID : Bytes
  committedAt : Time
  previousDigest : Bytes

/-- `normalizeTime`: the last whole microsecond. -/
def normalizeTime (t : Time) : Time := t / 1000 * 1000

def formatTime (t : Time) : Bytes := microsText (normalizeTime t)

/-- What a `json.RawMessage` is written as; a nil one is `null`. -/
def rawTree (raw : Bytes) : Option Syntax := if raw.isEmpty then some .null else parse raw

def Actor.tree (a : Actor) : Syntax :=
  object [(bytesOf "type", some (stringTree a.type)), (bytesOf "id", some (stringTree a.id))]

def Identity.tree (i : Identity) : Syntax :=
  object [(bytesOf "name", some (stringTree i.name)),
    (bytesOf "version", some (stringTree i.version)),
    (bytesOf "hash_algorithm", some (stringTree i.hashAlgorithm)),
    (bytesOf "hash_version", some (stringTree i.hashVersion))]

/-- The fields of the document and of the struct that is hashed. The latter has its times in
another layout and has no `envelope_digest`. -/
def Envelope.fields (e : Envelope) (occurredAt committedAt : Bytes) (payload : Syntax)
    (envelopeDigest : Option Syntax) : Fields :=
  [(bytesOf "stream_id", some (stringTree e.streamID)),
    (bytesOf "sequence", some (intTree e.sequence)),
    (bytesOf "event_id", some (stringTree e.eventID)),
    (bytesOf "event_type", some (stringTree e.eventType)),
    (bytesOf "schema_version", some (intTree e.schemaVersion)),
    (bytesOf "tenant_id", some (stringTree e.tenantID)),
    (bytesOf "workspace_id", some (stringTree e.workspaceID)),
    (bytesOf "actor", some e.actor.tree),
    (bytesOf "correlation_id", some (stringTree e.correlationID)),
    (bytesOf "causation_id", nonEmpty e.causationID),
    (bytesOf "idempotency_key", nonEmpty e.idempotencyKey),
    (bytesOf "fencing_token", nonZero e.fencingToken.toInt),
    (bytesOf "occurred_at", some (stringTree occurredAt)),
    (bytesOf "committed_at", some (stringTree committedAt)),
    (bytesOf "classification", some (stringTree e.classification)),
    (bytesOf "payload", some payload),
    (bytesOf "payload_digest", some (stringTree e.payloadDigest)),
    (bytesOf "previous_digest", nonEmpty e.previousDigest),
    (bytesOf "envelope_digest", envelopeDigest),
    (bytesOf "encoding", some e.encoding.tree)]

/-- `coreencoding.Marshal` of an envelope. A time outside the years 0 to 9999 is refused. -/
def Envelope.marshal (e : Envelope) : Except CanonicalError Bytes :=
  match rawTree e.payload, rfc3339 e.occurredAt, rfc3339 e.committedAt with
  | some payload, some occurredAt, some committedAt =>
    Encoding.marshal
      (object (e.fields occurredAt committedAt payload (some (stringTree e.envelopeDigest))))
  | _, _, _ => throw .decode

def Envelope.digest (p : Platform) (e : Envelope) : Except CanonicalError Bytes :=
  match rawTree e.payload with
  | some payload =>
    Encoding.digest p.sha256
      (object (e.fields (formatTime e.occurredAt) (formatTime e.committedAt) payload none))
  | none => throw .decode

def readActor (ms : List Member) (old : Actor) : Option Actor := do
  let type ← readField (bytesOf "type") readString old.type ms
  let id ← readField (bytesOf "id") readString old.id ms
  return ⟨type, id⟩

def readIdentity (ms : List Member) (old : Identity) : Option Identity := do
  let name ← readField (bytesOf "name") readString old.name ms
  let version ← readField (bytesOf "version") readString old.version ms
  let hashAlgorithm ← readField (bytesOf "hash_algorithm") readString old.hashAlgorithm ms
  let hashVersion ← readField (bytesOf "hash_version") readString old.hashVersion ms
  return ⟨name, version, hashAlgorithm, hashVersion⟩

def readEnvelope (p : Platform) (ms : List Member) : Option Envelope := do
  let text name := readField (bytesOf name) readString [] ms
  let int name := readField (bytesOf name) readInt 0 ms
  let time name := readField (bytesOf name) (readTimeField p.parseOffset) 0 ms
  let streamID ← text "stream_id"
  let sequence ← int "sequence"
  let eventID ← text "event_id"
  let eventType ← text "event_type"
  let schemaVersion ← int "schema_version"
  let tenantID ← text "tenant_id"
  let workspaceID ← text "workspace_id"
  let actor ← readField (bytesOf "actor") (readStruct readActor) ⟨[], []⟩ ms
  let correlationID ← text "correlation_id"
  let causationID ← text "causation_id"
  let idempotencyKey ← text "idempotency_key"
  let fencingToken ← int "fencing_token"
  let occurredAt ← time "occurred_at"
  let committedAt ← time "committed_at"
  let classification ← text "classification"
  let payload ← readField (bytesOf "payload") readRaw [] ms
  let payloadDigest ← text "payload_digest"
  let previousDigest ← text "previous_digest"
  let envelopeDigest ← text "envelope_digest"
  let encoding ← readField (bytesOf "encoding") (readStruct readIdentity) ⟨[], [], [], []⟩ ms
  return { streamID, sequence, eventID, eventType, schemaVersion, tenantID, workspaceID, actor,
           correlationID, causationID, idempotencyKey, fencingToken := Int64.ofInt fencingToken,
           occurredAt, committedAt, classification, payload, payloadDigest, previousDigest,
           envelopeDigest, encoding }

/-- `json.Unmarshal` into an envelope; `null` leaves the zero envelope, which has no members. -/
def unmarshal (p : Platform) (raw : Bytes) : Option Envelope :=
  match parse raw with
  | some .null => readEnvelope p []
  | some (.obj _) => (parseObject raw).bind (readEnvelope p)
  | _ => none

def Envelope.validateRequired (p : Platform) (e : Envelope) : Except Error Unit := do
  eachOk (fun item => validateID p item.1 item.2)
    [("stream", e.streamID), ("event", e.eventID), ("tenant", e.tenantID),
      ("workspace", e.workspaceID), ("actor", e.actor.id)]
  ensure (1 ≤ e.sequence && e.eventType != [] && e.correlationID != [] && e.actor.type != [] &&
      e.actor.id != [] && e.classification != [])
    (errorText "sequence, event_type, actor, correlation_id and classification are required")
  ensure (e.schemaVersion == Event.schemaVersion && e.encoding == current)
    (errorText "unsupported event schema or encoding identity")
  ensure (!Time.isZero e.occurredAt && !Time.isZero e.committedAt)
    (errorText "occurred_at and committed_at are required")

/-- The envelope that `Commit` makes, before its digests. -/
def draft (u : Uncommitted) (m : CommitMetadata) (payload : Bytes) : Envelope :=
  { streamID := u.streamID, sequence := m.sequence, eventID := m.eventID, eventType := u.eventType,
    schemaVersion := schemaVersion, tenantID := u.tenantID, workspaceID := u.workspaceID,
    actor := u.actor, correlationID := u.correlationID, causationID := u.causationID,
    idempotencyKey := u.idempotencyKey, fencingToken := u.fencingToken,
    occurredAt := normalizeTime u.occurredAt, committedAt := normalizeTime m.committedAt,
    classification := u.classification, payload, payloadDigest := [],
    previousDigest := m.previousDigest, envelopeDigest := [], encoding := current }

def commit (p : Platform) (u : Uncommitted) (m : CommitMetadata) : Except Error Envelope := do
  let payload ← (encoded (canonicalize u.payload)).mapError (wrap "canonicalize event payload")
  let envelope := draft u m payload
  envelope.validateRequired p
  let payloadDigest ← encoded (digestRaw p.sha256 payload)
  let envelope := { envelope with payloadDigest }
  let envelopeDigest ← encoded (envelope.digest p)
  return { envelope with envelopeDigest }

def Envelope.verify (p : Platform) (e : Envelope) : Except Error Unit := do
  e.validateRequired p
  let payloadDigest ← encoded (digestRaw p.sha256 e.payload)
  ensure (payloadDigest == e.payloadDigest) (errorText "event payload digest mismatch")
  let digest ← encoded (e.digest p)
  ensure (digest == e.envelopeDigest) (errorText "event envelope digest mismatch")

end Adro.Event
