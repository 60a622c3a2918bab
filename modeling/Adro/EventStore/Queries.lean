import Adro.EventStore.Database

/-!
# Replays and reads

What the two adapters do alike: looking for the events of a request that was
committed before, checking the outbox of a replay, `Read` and `Head`. Their SQL
differs in the style of its parameters and in the name of the outbox table. A
transaction sees one state of the tables.
-/

namespace Adro.EventStore

open Adro.Go Adro.Encoding Adro.Event

def errConflict : Error := ⟨some .conflict, "event stream expected sequence conflict"⟩
def errIdempotencyConflict : Error :=
  ⟨some .idempotencyConflict, "event stream idempotency conflict"⟩
def errLeaseLost : Error := ⟨some .leaseLost, "event stream lease assertion failed"⟩
def errCorrupt : Error := ⟨some .corrupt, "event stream is corrupt"⟩
def errBusy : Error := ⟨some .busy, "lease is held by another owner"⟩
def errLost : Error := ⟨some .lost, "lease is no longer owned"⟩

/-- The microseconds from 1970 to a time, as many as they are. -/
def microseconds (t : Time) : Int := (t - 62135596800 * 10 ^ 9) / 1000

/-- `Time.UnixMicro`. -/
def unixMicro (t : Time) : Int := i64 (microseconds t)

def Verifies (p : Platform) (e : Envelope) : Prop := (e.verify p).isOk = true

instance {p : Platform} {e : Envelope} : Decidable (Verifies p e) :=
  inferInstanceAs (Decidable (_ = true))

/-- The columns of a row that are compared with its document. -/
def RecordRow.Agrees (r : RecordRow) (e : Envelope) : Prop :=
  e.sequence = r.sequence ∧ e.eventID = r.eventID ∧ e.eventType = r.eventType ∧
    e.idempotencyKey = r.idempotencyKey ∧ e.payloadDigest = r.payloadDigest ∧
    e.previousDigest = r.previousDigest ∧ e.envelopeDigest = r.envelopeDigest ∧
    unixMicro e.committedAt = r.committedAt

instance {r : RecordRow} {e : Envelope} : Decidable (r.Agrees e) :=
  inferInstanceAs (Decidable (_ ∧ _))

section Replay

variable (p : Platform) (db : Database) (request : AppendRequest)

/-- The loop of `findReplay`, with the envelopes it has found. -/
def replayedEvents (requestDigest : Bytes) :
    List Envelope → List Uncommitted → Except Error (List Envelope)
  | envelopes, [] => .ok envelopes
  | envelopes, item :: items =>
    match db.findByKey item.tenantID request.streamID item.idempotencyKey with
    | none =>
      if envelopes = [] then replayedEvents requestDigest envelopes items
      else .error errIdempotencyConflict
    | some row =>
      if row.appendDigest ≠ requestDigest then .error errIdempotencyConflict
      else
        match unmarshal p row.envelopeJSON with
        | none => .error errCorrupt
        | some envelope =>
          if ¬ Verifies p envelope then .error errCorrupt
          else if envelope.streamID = request.streamID ∧ envelope.tenantID = item.tenantID ∧
              row.Agrees envelope then
            replayedEvents requestDigest (envelopes ++ [envelope]) items
          else .error errCorrupt

/-- The sequences of a replay follow the expected one. -/
def followExpected (expectedSequence : Int) : Nat → List Envelope → Bool
  | _, [] => true
  | index, e :: es =>
    e.sequence == i64 (expectedSequence + index + 1) && followExpected expectedSequence
      (index + 1) es

/-- The loop of `verifyReplayOutbox` over rows and messages. -/
def sameMessages : List OutboxRow → List OutboxMessage → Bool
  | [], [] => true
  | r :: rs, m :: ms =>
    r.topic == m.topic && r.messageKey == m.key && r.payload == m.payload.getD [] &&
      sameMessages rs ms
  | _, _ => false

def verifyReplayOutbox (tenantID : Bytes) (sequence : Int) : Except Error Unit :=
  ensure (sameMessages (db.outboxAt tenantID request.streamID sequence) request.outbox) errCorrupt

/-- The snapshot of a replay, which is compared while its append is the last of the stream. -/
def verifyReplaySnapshot (tenantID : Bytes) (lastSequence : Int) : Except Error Unit :=
  match request.snapshot with
  | none => .ok ()
  | some snapshot =>
    match db.findStream request.streamID with
    | none => .error errCorrupt
    | some stream =>
      if stream.currentSequence = lastSequence then
        match db.findSnapshot tenantID request.streamID with
        | none => .error errCorrupt
        | some row =>
          ensure (row.sequence == snapshot.sequence && row.digest == snapshot.digest &&
            row.payload == snapshot.payload.getD []) errCorrupt
      else .ok ()

def resultOf (envelopes : List Envelope) : AppendResult :=
  { firstSequence := (envelopes.head?.map (·.sequence)).getD 0
    lastSequence := (envelopes.getLast?.map (·.sequence)).getD 0
    events := envelopes }

def findReplay (requestDigest : Bytes) : Except Error (Option AppendResult) := do
  let envelopes ← replayedEvents p db request requestDigest [] request.events
  if envelopes = [] then .ok none
  else do
    ensure (envelopes.length == request.events.length) errIdempotencyConflict
    let envelopes := envelopes.mergeSort fun a b => a.sequence ≤ b.sequence
    ensure (followExpected request.expectedSequence 0 envelopes) errIdempotencyConflict
    let result := resultOf envelopes
    let tenantID := (request.events.head?.map (·.tenantID)).getD []
    verifyReplayOutbox db request tenantID result.lastSequence
    verifyReplaySnapshot db request tenantID result.lastSequence
    .ok (some result)

end Replay

def maxReadLimit : Int := 1000

section Read

variable (p : Platform) (db : Database) (streamID : Bytes)

/-- The loop of `Read`. The last sequence of a stream is an `int64`, so counting on does
not wrap. -/
def readRows : Int → Bytes → List RecordRow → Except Error (List Envelope)
  | _, _, [] => .ok []
  | expectedSequence, previousDigest, row :: rows =>
    match unmarshal p row.envelopeJSON with
    | none => .error errCorrupt
    | some envelope =>
      if envelope.streamID = streamID ∧ envelope.tenantID = row.tenantID ∧ row.Agrees envelope ∧
          row.sequence = expectedSequence ∧ row.previousDigest = previousDigest ∧
          Verifies p envelope then do
        let rest ← readRows (expectedSequence + 1) row.envelopeDigest rows
        .ok (envelope :: rest)
      else .error errCorrupt

/-- The digest that the first event after a sequence follows. -/
def digestAt (after : Int) : Except Error Bytes :=
  if 0 < after then
    match db.findAt streamID after with
    | some row => .ok row.envelopeDigest
    | none => .error errCorrupt
  else .ok []

/-- The checks of a page against the head of its stream. -/
def checkPage (stream : StreamRow) (limit : Int) (events : List Envelope) :
    Except Error (List Envelope) :=
  match events.getLast? with
  | none => .error errCorrupt
  | some last =>
    if events.length < limit ∧ last.sequence < stream.currentSequence then .error errCorrupt
    else if last.sequence = stream.currentSequence ∧ last.envelopeDigest ≠ stream.headDigest then
      .error errCorrupt
    else .ok events

def read (after limit : Int) : Except Error (List Envelope) := do
  validateID p "stream" streamID
  ensure (0 ≤ after && 1 ≤ limit && limit ≤ maxReadLimit)
    (errorText "event read requires after >= 0 and limit between 1 and 1000")
  match db.findStream streamID with
  | none => .ok []
  | some stream =>
    if stream.currentSequence ≤ after then .ok []
    else do
      let previousDigest ← digestAt db streamID after
      let events ← readRows p streamID (after + 1) previousDigest
        (db.recordsAfter streamID after limit)
      checkPage stream limit events

def head : Except Error (Int × Bytes) := do
  validateID p "stream" streamID
  match db.findStream streamID with
  | none => .ok (0, [])
  | some stream =>
    if stream.currentSequence = 0 then
      if stream.headDigest ≠ [] then .error errCorrupt else .ok (0, [])
    else
      match db.findAt streamID stream.currentSequence with
      | none => .error errCorrupt
      | some row =>
        match unmarshal p row.envelopeJSON with
        | none => .error errCorrupt
        | some envelope =>
          if Verifies p envelope ∧ envelope.sequence = stream.currentSequence ∧
              envelope.streamID = streamID ∧ row.envelopeDigest = stream.headDigest ∧
              envelope.envelopeDigest = stream.headDigest then
            .ok (stream.currentSequence, stream.headDigest)
          else .error errCorrupt

end Read

end Adro.EventStore
