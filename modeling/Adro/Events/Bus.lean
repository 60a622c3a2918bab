import Adro.Go.Value

/-!
# The event bus

A bus keeps a history of envelopes, numbered and chained by hash, and writes it
to a file that other buses may share. A write first takes over what a peer has
written; a bus that reads the file replaces its history by the file's. Ids are
looked up in the history itself, which the sets of the source mirror. A payload
is cloned when its event is published, and a decoded payload is its own clone.
Sequence numbers and revisions go up by one with an event or a write, which does not
take them to the end of their 64 bits; they are plain integers.
-/

namespace Adro.Events

open Adro.Go

structure Envelope where
  eventID : String
  schemaVersion : Int := 1
  sequence : Int := 0
  eventType : String := ""
  aggregateType : String := ""
  aggregateID : String := ""
  aggregateVersion : Int := 0
  tenantID : String := ""
  workspaceID : String := ""
  correlationID : String := ""
  causationID : String := ""
  traceParent : String := ""
  traceState : String := ""
  provider : String := ""
  providerEventID : String := ""
  occurredAt : Time := 0
  classification : String := ""
  payloadHash : String := ""
  previousHash : String := ""
  envelopeHash : String := ""
  payload : Value := .null

/-- The hashes of texts, empty where there is no text, the instants the encoder
takes, and the parser of trace contexts. -/
structure Platform where
  payloadHash : Value → String
  envelopeDigest : Envelope → String
  encodes : Time → Bool
  cloned : Value → Value
  traceParses : String → String → Bool

structure RetentionPolicy where
  maxEvents : Int := 0
  maxAge : Duration := 0
  deriving DecidableEq, Repr

/-- `persistedEvents`. -/
structure File where
  revision : Int
  events : List Envelope
  acks : GoMap String
  deliveryAttempts : GoMap Int
  retention : RetentionPolicy

structure Bus where
  persistent : Bool
  events : List Envelope := []
  revision : Int := 0
  acks : GoMap String := ∅
  deliveryAttempts : GoMap Int := ∅
  retention : RetentionPolicy := {}

variable (P : Platform)

def envelopeHash (e : Envelope) : String := P.envelopeDigest { e with envelopeHash := "" }

def Envelope.sealed (e : Envelope) : Envelope := { e with envelopeHash := Events.envelopeHash P e }

def Envelope.traced (e : Envelope) : Bool :=
  (e.traceParent == "" && e.traceState == "") || P.traceParses e.traceParent e.traceState

/-- One event of a history: what is filled in, and what must hold. -/
def Envelope.filled (e : Envelope) : Envelope :=
  let e := if e.schemaVersion == 0 then { e with schemaVersion := 1 } else e
  if e.envelopeHash == "" then e.sealed P else e

def validateFrom (chain : Bool) :
    Int → Option String → List String → List Envelope → Except String (List Envelope)
  | _, _, _, [] => .ok []
  | expected, previous, seen, e :: rest => do
    ensure (e.sequence == expected) ("event sequence corruption: want " ++ toString expected)
    ensure (!blank e.eventID) ("event at sequence " ++ toString expected ++ " has empty event_id")
    ensure (!seen.contains e.eventID) ("duplicate event id " ++ e.eventID)
    let filled := e.filled P
    ensure (filled.schemaVersion == 1) ("event " ++ e.eventID ++ " has unsupported schema_version")
    ensure (e.payloadHash == "" || e.payloadHash == P.payloadHash e.payload)
      ("event " ++ e.eventID ++ " payload hash mismatch")
    ensure (e.traced P) ("event " ++ e.eventID ++ " trace context")
    ensure (filled.envelopeHash == envelopeHash P filled)
      ("event " ++ e.eventID ++ " envelope hash mismatch")
    ensure (!chain || previous.all (· == e.previousHash))
      ("event previous hash mismatch at sequence " ++ toString expected)
    let rest ← validateFrom chain (expected + 1) (some filled.envelopeHash) (e.eventID :: seen) rest
    .ok (filled :: rest)

/-- The numbers of a history from before there were any. -/
def numbered (items : List Envelope) : List Envelope :=
  if items.all (·.sequence == 0) then
    items.zipIdx.map fun (e, i) => { e with sequence := i + 1 }
  else items

def validatePersistedEvents (items : List Envelope) : Except String (List Envelope) :=
  let items := numbered items
  let base := (items.head?.map (·.sequence)).getD 1
  validateFrom P (items.any (·.previousHash != "")) (max base 1) none [] items

def maxSequence (items : List Envelope) : Int := items.foldl (fun m e => max m e.sequence) 0

def rebased : Int → String → List String → List Envelope → List Envelope
  | _, _, _, [] => []
  | sequence, previous, seen, e :: rest =>
    if seen.contains e.eventID then rebased sequence previous seen rest
    else
      let e := Envelope.sealed P
        { e with
          sequence := sequence + 1
          previousHash := previous
          payloadHash := P.payloadHash e.payload }
      e :: rebased (sequence + 1) e.envelopeHash (e.eventID :: seen) rest

def mergePeerEventsPreservingCommitted (committed mine : List Envelope) :
    Except String (List Envelope) := do
  ensure ((committed ++ mine).all (·.eventID != "")) "event has empty event_id"
  ensure (committed.map (·.eventID)).Nodup "duplicate committed event id"
  let tail := rebased P (maxSequence committed) ((committed.getLast?.map (·.envelopeHash)).getD "")
    (committed.map (·.eventID)) mine
  ensure (tail.all (·.payloadHash != "")) "local event payload is not JSON encodable"
  .ok (committed ++ tail)

def mergeAttempts (mine theirs : GoMap Int) : GoMap Int :=
  mine ∪ theirs.filter fun key attempts => attempts > mine[key]?.getD 0

/-- The ways a write can fail: the lock is not given or the file cannot be read, then
before the file is replaced, or when the directory is flushed after that. -/
inductive Fault
  | none
  | beforeMerge
  | beforeRename
  | afterRename
  deriving DecidableEq, Repr

namespace Bus

variable (b : Bus)

/-- A peer's history and cursors taken over, those of the file before the own. -/
def absorb : Option File → Except String Bus
  | .none => .ok b
  | some f =>
    if f.revision == b.revision then .ok b
    else do
      let committed ← validatePersistedEvents P f.events
      let events ← mergePeerEventsPreservingCommitted P committed b.events
      .ok { b with
        events := events
        revision := f.revision
        acks := b.acks ∪ f.acks
        deliveryAttempts := mergeAttempts b.deliveryAttempts f.deliveryAttempts }

def contents : File := ⟨b.revision + 1, b.events, b.acks, b.deliveryAttempts, b.retention⟩

/-- The bus and the file after a write, and its error. The merge is kept when a
later part of the write fails. -/
def persistLocked (file : Option File) (fault : Fault) : Bus × Option File × Except String Unit :=
  if !b.persistent then (b, file, .ok ())
  else if fault == .beforeMerge then (b, file, .error "read event state")
  else match b.absorb P file with
    | .error err => (b, file, .error err)
    | .ok b =>
      match validatePersistedEvents P b.events with
      | .error err => (b, file, .error err)
      | .ok events =>
        let b := { b with events := events }
        if !(events.all fun e => P.encodes e.occurredAt) then
          (b, file, .error "event state is not JSON encodable")
        else match fault with
          | .afterRename => (b, some b.contents, .error "sync failed")
          | .none => ({ b with revision := b.revision + 1 }, some b.contents, .ok ())
          | _ => (b, file, .error "write failed")

/-- `NewPersistentBus` on a path. -/
def opened : Option File → Except String Bus
  | .none => .ok { persistent := true }
  | some f => do
    let events ← validatePersistedEvents P f.events
    .ok
      { persistent := true
        events := events.map fun e => { e with payloadHash := P.payloadHash e.payload }
        revision := f.revision
        acks := f.acks
        deliveryAttempts := f.deliveryAttempts
        retention := f.retention }

def reloadLocked (file : Option File) : Bus × Except String Unit :=
  match file with
  | .none => (b, .ok ())
  | some f =>
    if !b.persistent || f.revision ≤ b.revision then (b, .ok ())
    else
      let b : Bus := ⟨b.persistent, f.events, f.revision, f.acks, f.deliveryAttempts, f.retention⟩
      match validatePersistedEvents P b.events with
      | .error err => (b, .error err)
      | .ok events => ({ b with events := events }, .ok ())

def aged (policy : RetentionPolicy) (now : Time) (e : Envelope) : Bool :=
  e.occurredAt < now - policy.maxAge

def pruneLocked (now : Time) : Bus :=
  let kept := if b.retention.maxAge > 0 then b.events.dropWhile (aged b.retention now) else b.events
  let kept :=
    if b.retention.maxEvents > 0 then
      kept.drop (kept.length - b.retention.maxEvents.toNat) else kept
  { b with events := kept }

end Bus

def Envelope.providerKey (e : Envelope) : Option String :=
  if e.provider != "" && e.providerEventID != "" then
    some (e.provider ++ "\x00" ++ e.providerEventID)
  else none

/-- The event is known by its id, or by the id its provider gave it. -/
def Envelope.known (e : Envelope) (events : List Envelope) : Bool :=
  events.any fun retained => retained.eventID == e.eventID ||
    (e.providerKey.isSome && retained.providerKey == e.providerKey)

/-- The envelope with its defaults, and the hash of its own payload. -/
def Envelope.prepared (event : Envelope) (newID : String) : Envelope :=
  { event with
    eventID := if event.eventID == "" then newID else event.eventID
    schemaVersion := if event.schemaVersion == 0 then 1 else event.schemaVersion
    payload := P.cloned event.payload
    payloadHash := P.payloadHash (P.cloned event.payload) }

def Envelope.placed (e : Envelope) (events : List Envelope) : Envelope :=
  Envelope.sealed P
    { e with
      sequence := maxSequence events + 1
      previousHash := (events.getLast?.map (·.envelopeHash)).getD e.previousHash }

namespace Bus

variable (b : Bus)

/-- The envelope `Publish` would append, none where the event is known. -/
def taken (event : Envelope) (newID : String) : Except String (Option Envelope) := do
  let e := event.prepared P newID
  ensure (e.schemaVersion == 1) "unsupported event schema_version"
  ensure (e.payloadHash != "") "event payload is not JSON encodable"
  ensure (event.payloadHash == "" || event.payloadHash == e.payloadHash)
    "event payload hash does not match payload"
  ensure (event.envelopeHash == "" || event.envelopeHash == envelopeHash P e)
    "event envelope hash does not match envelope"
  .ok (if e.known b.events then none else some (e.placed P b.events))

/-- The bus and the file after `Publish`, with the envelope as it was retained. -/
def publish (file : Option File) (event : Envelope) (newID : String) (now : Time) (fault : Fault) :
    Bus × Option File × Except String (Option Envelope) :=
  match b.taken P event newID with
  | .error err => (b, file, .error err)
  | .ok .none => (b, file, .ok .none)
  | .ok (some e) =>
    match (Bus.pruneLocked { b with events := b.events ++ [e] } now).persistLocked P file fault with
    | (b', file, .error err) =>
      ({ b' with events := b.events }, file, .error ("persist event: " ++ err))
    | (b', file, .ok ()) =>
      (b', file, .ok (some ((b'.events.find? (·.eventID == e.eventID)).getD e)))

def setRetention (file : Option File) (policy : RetentionPolicy) (now : Time) :
    Bus × Option File × Except String Unit :=
  if policy.maxEvents < 0 || policy.maxAge < 0 then
    (b, file, .error "retention limits cannot be negative")
  else (Bus.pruneLocked { b with retention := policy } now).persistLocked P file .none

def prune (file : Option File) (now clock : Time) : Bus × Option File × Except String Unit :=
  (b.pruneLocked (if now.isZero then clock else now)).persistLocked P file .none

end Bus

def deliveryKey (consumerID eventID : String) : String := consumerID ++ "\x00" ++ eventID

/-- What an acknowledgement that cannot be written puts back. -/
structure Undo where
  consumerID : String
  key : String
  cursor : Option String
  attempts : Option Int

def restored {α : Type} (m : GoMap α) (key : String) : Option α → GoMap α
  | none => m.erase key
  | some v => m.insert key v

namespace Bus

variable (b : Bus)

def index (eventID : String) : Option Nat := b.events.findIdx? (·.eventID == eventID)

/-- `Ack` up to its write, on the lock of the bus. -/
def ackStart (file : Option File) (consumerID eventID : String) : Bus × Except String Undo :=
  let consumerID := trimSpace consumerID
  let eventID := trimSpace eventID
  if consumerID == "" || eventID == "" then (b, .error "consumer_id and event_id are required")
  else match b.reloadLocked P file with
    | (b, .error err) => (b, .error err)
    | (b, .ok ()) =>
      match b.index eventID with
      | none => (b, .error "event is not retained")
      | some i =>
        let cursor := b.acks[consumerID]?
        if (cursor.bind b.index).any (i < ·) then
          (b, .error "event acknowledgement would move backwards")
        else
          let key := deliveryKey consumerID eventID
          ({ b with
              acks := b.acks.insert consumerID eventID
              deliveryAttempts := b.deliveryAttempts.erase key },
            .ok ⟨consumerID, key, cursor, b.deliveryAttempts[key]?⟩)

/-- The write of `Ack`, after which the lock is given back. -/
def ackFinish (file : Option File) (undo : Undo) (fault : Fault) :
    Bus × Option File × Except String Unit :=
  match b.persistLocked P file fault with
  | (b, file, .ok ()) => (b, file, .ok ())
  | (b, file, .error err) =>
    ({ b with
        acks := restored b.acks undo.consumerID undo.cursor
        deliveryAttempts := restored b.deliveryAttempts undo.key undo.attempts },
      file, .error ("persist event acknowledgement: " ++ err))

/-- The attempts after a delivery of each of the events. -/
def attempted (consumerID : String) (items : List Envelope) : GoMap Int :=
  items.foldl (fun m e =>
    m.insert (deliveryKey consumerID e.eventID) (m[deliveryKey consumerID e.eventID]?.getD 0 + 1))
    b.deliveryAttempts

def recordDeliveries (file : Option File) (consumerID : String) (items : List Envelope)
    (fault : Fault) : Bus × Option File × Except String Unit :=
  if items.isEmpty then (b, file, .ok ())
  else match Bus.persistLocked P
      { b with deliveryAttempts := b.attempted consumerID items } file fault with
    | (b', file, .ok ()) => (b', file, .ok ())
    | (b', file, .error err) =>
      let put (m : GoMap Int) (e : Envelope) : GoMap Int :=
        let key := deliveryKey consumerID e.eventID
        restored m key (b.deliveryAttempts[key]?.filter (· != 0))
      ({ b' with deliveryAttempts := items.foldl put b'.deliveryAttempts }, file,
        .error ("persist event delivery: " ++ err))

end Bus

end Adro.Events
