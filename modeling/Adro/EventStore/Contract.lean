import Adro.Event.Laws

/-!
# What the event stores share

The requests and results of `ports/eventstore` and `ports/leasestore`, and
`adapters/eventstore/internal/contract`: the checks of a request, the digest
that identifies it and the envelopes it commits. A nil `[]byte` is told apart
from an empty one. The identifier generator of a call is the sequence of the
identifiers it hands out.
-/

namespace Adro.EventStore

open Adro.Go Adro.Json Adro.Encoding Adro.Event

structure OutboxMessage where
  topic : Bytes
  key : Bytes
  payload : Option Bytes
  deriving DecidableEq, Repr

structure SnapshotWrite where
  sequence : Int
  digest : Bytes
  payload : Option Bytes
  deriving DecidableEq, Repr

structure LeaseAssertion where
  owner : Bytes
  fencingToken : Int
  deriving DecidableEq, Repr

structure AppendRequest where
  streamID : Bytes
  expectedSequence : Int
  events : List Uncommitted
  outbox : List OutboxMessage
  snapshot : Option SnapshotWrite
  lease : Option LeaseAssertion
  deriving DecidableEq, Repr

structure AppendResult where
  firstSequence : Int
  lastSequence : Int
  events : List Envelope
  deriving DecidableEq, Repr

structure Lease where
  tenantID : Bytes
  streamID : Bytes
  owner : Bytes
  fencingToken : Int
  expiresAt : Time
  deriving DecidableEq, Repr

def base64Digit (n : Nat) : UInt8 :=
  (bytesOf "ABCDEFGHIJKLMNOPQRSTUVWXYZabcdefghijklmnopqrstuvwxyz0123456789+/").getD n 0

/-- `base64.StdEncoding`, which `encoding/json` writes a `[]byte` in. -/
def base64 : Bytes → Bytes
  | [] => []
  | [a] => [base64Digit (a.toNat / 4), base64Digit (a.toNat % 4 * 16), 0x3D, 0x3D]
  | [a, b] =>
    [base64Digit (a.toNat / 4), base64Digit (a.toNat % 4 * 16 + b.toNat / 16),
      base64Digit (b.toNat % 16 * 4), 0x3D]
  | a :: b :: c :: rest =>
    base64Digit (a.toNat / 4) :: base64Digit (a.toNat % 4 * 16 + b.toNat / 16) ::
      base64Digit (b.toNat % 16 * 4 + c.toNat / 64) :: base64Digit (c.toNat % 64) :: base64 rest

def bytesTree (b : Option Bytes) : Syntax := b.elim .null fun b => stringTree (base64 b)

def OutboxMessage.tree (m : OutboxMessage) : Syntax :=
  object [(bytesOf "Topic", some (stringTree m.topic)), (bytesOf "Key", some (stringTree m.key)),
    (bytesOf "Payload", some (bytesTree m.payload))]

def SnapshotWrite.tree (s : SnapshotWrite) : Syntax :=
  object [(bytesOf "Sequence", some (intTree s.sequence)),
    (bytesOf "Digest", some (stringTree s.digest)),
    (bytesOf "Payload", some (bytesTree s.payload))]

/-- `uncommittedIdentity`. -/
def uncommittedFields (u : Uncommitted) (payload : Syntax) : Fields :=
  [(bytesOf "stream_id", some (stringTree u.streamID)),
    (bytesOf "event_type", some (stringTree u.eventType)),
    (bytesOf "tenant_id", some (stringTree u.tenantID)),
    (bytesOf "workspace_id", some (stringTree u.workspaceID)),
    (bytesOf "actor", some u.actor.tree),
    (bytesOf "correlation_id", some (stringTree u.correlationID)),
    (bytesOf "causation_id", nonEmpty u.causationID),
    (bytesOf "idempotency_key", some (stringTree u.idempotencyKey)),
    (bytesOf "fencing_token", nonZero u.fencingToken.toInt),
    (bytesOf "occurred_at", some (stringTree (formatTime u.occurredAt))),
    (bytesOf "classification", some (stringTree u.classification)),
    (bytesOf "payload", some payload)]

/-- `appendIdentity`. -/
def identityFields (r : AppendRequest) (events : List Syntax) : Fields :=
  [(bytesOf "stream_id", some (stringTree r.streamID)),
    (bytesOf "expected_sequence", some (intTree r.expectedSequence)),
    (bytesOf "events", some (.arr events)),
    (bytesOf "outbox", if r.outbox.isEmpty then none else some (.arr (r.outbox.map (·.tree)))),
    (bytesOf "snapshot", r.snapshot.map (·.tree))]

structure ValidatedAppend where
  digest : Bytes
  tenantID : Bytes
  workspaceID : Bytes
  deriving DecidableEq, Repr

/-- `strings.TrimSpace(s) == ""`. -/
def isBlank (b : Bytes) : Bool := trimSpace b == []

/-- The loop over the events of a request, with the keys it has seen. What it returns is
written into the identity. -/
def validateEvents (streamID tenantID workspaceID : Bytes) :
    Nat → List Bytes → List Uncommitted → Except Error (List Syntax)
  | _, _, [] => pure []
  | index, seenKeys, item :: items => do
    let event := "event " ++ toString index
    ensure (item.streamID == streamID && item.tenantID == tenantID &&
      item.workspaceID == workspaceID)
      (errorText (event ++ " does not match append stream scope"))
    ensure (!isBlank item.idempotencyKey) (errorText (event ++ " idempotency key is required"))
    ensure (!seenKeys.contains item.idempotencyKey)
      (errorText (event ++ " repeats an idempotency key"))
    let payload ← (encoded (canonicalize item.payload)).mapError
      (wrap ("canonicalize " ++ event ++ " payload"))
    match rawTree payload with
    | none => throw (encodingError .decode)
    | some payload =>
      let rest ← validateEvents streamID tenantID workspaceID (index + 1)
        (item.idempotencyKey :: seenKeys) items
      pure (object (uncommittedFields item payload) :: rest)

def validateOutbox : Nat → List OutboxMessage → Except Error Unit
  | _, [] => pure ()
  | index, message :: messages => do
    ensure (!isBlank message.topic && !isBlank message.key)
      (errorText ("outbox message " ++ toString index ++ " topic and key are required"))
    validateOutbox (index + 1) messages

def validateAppend (p : Platform) (request : AppendRequest) : Except Error ValidatedAppend :=
  match request.events with
  | [] => throw (errorText "non-negative expected sequence and at least one event are required")
  | first :: _ => do
    ensure (0 ≤ request.expectedSequence)
      (errorText "non-negative expected sequence and at least one event are required")
    validateID p "stream" request.streamID
    validateID p "tenant" first.tenantID
    validateID p "workspace" first.workspaceID
    let events ← validateEvents request.streamID first.tenantID first.workspaceID 0
      [] request.events
    validateOutbox 0 request.outbox
    let digest ← encoded (Encoding.digest p.sha256 (object (identityFields request events)))
    pure ⟨digest, first.tenantID, first.workspaceID⟩

def commitEvents (p : Platform) (expectedSequence : Int) (committedAt : Time)
    (newID : Nat → Bytes) :
    Nat → Bytes → List Uncommitted → Except Error (List Envelope)
  | _, _, [] => pure []
  | index, previousDigest, uncommitted :: rest => do
    let envelope ← (commit p uncommitted
      { sequence := i64 (expectedSequence + index + 1), eventID := newID index,
        committedAt, previousDigest }).mapError (wrap ("commit event " ++ toString index))
    let envelopes ← commitEvents p expectedSequence committedAt newID (index + 1)
      envelope.envelopeDigest rest
    pure (envelope :: envelopes)

/-- `DigestBytes`. -/
def digestBytes (p : Platform) (payload : Option Bytes) : Bytes :=
  hexText (p.sha256 (payload.getD []))

end Adro.EventStore
