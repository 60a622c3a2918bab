import Adro.Harness.Model
import Adro.Lib.First

/-!
# Leases and outbox events

The operations on the leases and the outbox of a session. Each says what it
would store, what it puts back when that cannot be made durable, and what it
returns. A call that is given the zero time reads the clock.
-/

namespace Adro.Harness

open Adro.Go

/-- The time a call works with: the one it is given, or the reading of the clock. -/
def effective (now reading : Time) : Time := if Time.isZero now then reading else now

/-- What an operation on a session does: nothing, or a write that may fail to become durable. -/
inductive Effect (α : Type)
  | keep (result : α)
  | write (next undo : SessionState) (context : String) (result : α)

/-- The entry that `AcquireLease` stops at. -/
def Lease.isFor (key : Bytes) (l : Lease) : Bool := l.key == key && l.state != .released

def Lease.grant (owner : Bytes) (ttl : Duration) (now : Time) (l : Lease) : Lease :=
  { l with owner, state := .held, version := i64 (l.version + 1), expiresAt := now + ttl,
           updatedAt := now }

def Lease.release (now : Time) (l : Lease) : Lease :=
  { l with state := .released, expiresAt := 0, updatedAt := now, version := i64 (l.version + 1) }

def Lease.renew (ttl : Duration) (now : Time) (l : Lease) : Lease :=
  { l with version := i64 (l.version + 1), expiresAt := now + ttl, updatedAt := now }

def newLease (sessionID key owner : Bytes) (ttl : Duration) (now : Time) (id : Bytes) : Lease :=
  { id, sessionID, key, owner, state := .held, version := 1, expiresAt := now + ttl,
    createdAt := now, updatedAt := now }

/-- A failed write of a new lease leaves the time of the update behind. -/
def acquireLease (state : SessionState) (sessionID key owner : Bytes) (ttl : Duration) (now : Time)
    (stamp : Stamp) : Except Error (Effect Lease) := do
  ensure (!isBlank key && !isBlank owner && decide (0 < ttl))
    (errorText "lease key, owner and positive ttl are required")
  let now := effective now stamp.time
  match state.leases.find? (Lease.isFor key) with
  | some l =>
    ensure (!(decide (now < l.expiresAt) && l.owner != owner)) Sentinel.leaseBusy.error
    let next := { state with
      leases := modifyFirst (Lease.isFor key) (Lease.grant owner ttl now) state.leases }
    return .write next state "persist lease renewal" (l.grant owner ttl now)
  | none =>
    let l := newLease sessionID key owner ttl now stamp.id
    let undo := { state with session.updatedAt := now }
    return .write { undo with leases := state.leases ++ [l] } undo "persist lease" l

def releaseLease (state : SessionState) (leaseID owner : Bytes) (now reading : Time) :
    Except Error (Effect Unit) := do
  let some l := state.leases.find? (·.id == leaseID) | throw Sentinel.notFound.error
  ensure (l.owner == owner && l.state == .held) Sentinel.leaseLost.error
  let now := effective now reading
  let next := { state with
    leases := modifyFirst (·.id == leaseID) (Lease.release now) state.leases
    session.updatedAt := now }
  return .write next state "persist lease release" ()

def heartbeatLease (state : SessionState) (leaseID owner : Bytes) (ttl : Duration)
    (now reading : Time) : Except Error (Effect Lease) := do
  ensure (!isBlank leaseID && !isBlank owner && decide (0 < ttl))
    (errorText "lease id, owner and positive ttl are required")
  let now := effective now reading
  let some l := state.leases.find? (·.id == leaseID) | throw Sentinel.notFound.error
  ensure (l.owner == owner && l.state == .held && decide (now < l.expiresAt))
    Sentinel.leaseLost.error
  let next := { state with
    leases := modifyFirst (·.id == leaseID) (Lease.renew ttl now) state.leases
    session.updatedAt := now }
  return .write next state "persist lease heartbeat" (l.renew ttl now)

def OutboxEvent.claim (owner : Bytes) (ttl : Duration) (now : Time) (e : OutboxEvent) :
    OutboxEvent :=
  { e with state := .processing, owner, leaseUntil := now + ttl, attempts := i64 (e.attempts + 1) }

def OutboxEvent.publish (now : Time) (e : OutboxEvent) : OutboxEvent :=
  { e with state := .published, owner := [], leaseUntil := 0, publishedAt := some now }

def OutboxEvent.retry (retryAt : Time) (e : OutboxEvent) : OutboxEvent :=
  { e with state := .pending, owner := [], leaseUntil := 0, nextAttemptAt := retryAt }

/-- The outcome of `json.Marshal` of a payload: its text, or the text of the error. -/
abbrev Payload := Except Bytes Bytes

def encodePayload (payload : Payload) : Except Error Bytes :=
  payload.mapError fun text => ⟨none, bytesOf "encode outbox payload: " ++ text⟩

section

variable (state : SessionState)

def SessionState.addEvent (e : OutboxEvent) (now : Time) : SessionState :=
  { state with outbox := state.outbox ++ [e], session.updatedAt := now }

def enqueueOutbox (sessionID key : Bytes) (payload : Payload) (stamp : Stamp) :
    Except Error (Effect OutboxEvent) := do
  ensure (!isBlank key) (errorText "outbox idempotency key is required")
  let data ← encodePayload payload
  match state.outbox.find? (·.idempotencyKey == key) with
  | some existing =>
    ensure (existing.payload == data) Sentinel.conflict.error
    return .keep existing
  | none =>
    let e : OutboxEvent :=
      { id := stamp.id, sessionID, idempotencyKey := key, payload := data, state := .pending,
        nextAttemptAt := stamp.time, createdAt := stamp.time }
    return .write (state.addEvent e stamp.time) { state with session.updatedAt := stamp.time }
      "persist outbox event" e

/-- What `EnqueueAndClaimOutbox` returns: the event if it names one, whether the caller owns the
claim, and the error. -/
structure Claim where
  event : Option OutboxEvent
  owned : Bool
  error : Option Error

/-- The refusal of a claim that still names the event. -/
def refused (e : OutboxEvent) (s : Sentinel) : Effect Claim := .keep ⟨some e, false, some s.error⟩

def enqueueAndClaimOutbox (sessionID key : Bytes) (payload : Payload)
    (owner : Bytes) (ttl : Duration) (now : Time) (stamp : Stamp) :
    Except Error (Effect Claim) := do
  ensure (!isBlank key) (errorText "outbox idempotency key is required")
  ensure (!isBlank owner && decide (0 < ttl))
    (errorText "outbox owner and positive ttl are required")
  let data ← encodePayload payload
  let now := effective now stamp.time
  match state.outbox.find? (·.idempotencyKey == key) with
  | some e =>
    ensure (e.payload == data) Sentinel.conflict.error
    match e.state with
    | .published => return .keep ⟨some e, false, none⟩
    | .other _ => return refused e .conflict
    | .processing =>
      if now < e.leaseUntil then return refused e .leaseBusy
      else return claimed e now
    | .pending =>
      if now < e.nextAttemptAt then return refused e .leaseBusy
      else return claimed e now
  | none =>
    let e : OutboxEvent :=
      { id := stamp.id, sessionID, idempotencyKey := key, payload := data, state := .processing,
        attempts := 1, owner, leaseUntil := now + ttl, nextAttemptAt := now, createdAt := now }
    return .write (state.addEvent e now) { state with session.updatedAt := now }
      "persist outbox claim" ⟨some e, true, none⟩
where
  claimed (e : OutboxEvent) (now : Time) : Effect Claim :=
    .write
      { state with
        outbox := modifyFirst (·.idempotencyKey == key)
          (OutboxEvent.claim owner ttl now) state.outbox
        session.updatedAt := now }
      state "persist outbox claim" ⟨some (e.claim owner ttl now), true, none⟩

/-- The outbox after at most so many claims, and the claimed events. -/
def claimEvents (owner : Bytes) (ttl : Duration) (now : Time) :
    Nat → List OutboxEvent → List OutboxEvent × List OutboxEvent
  | _, [] => ([], [])
  | limit, e :: rest =>
    if limit = 0 ∨ e.state ≠ .pending ∨ now < e.nextAttemptAt then
      let (outbox, items) := claimEvents owner ttl now limit rest
      (e :: outbox, items)
    else
      let (outbox, items) := claimEvents owner ttl now (limit - 1) rest
      (e.claim owner ttl now :: outbox, e.claim owner ttl now :: items)

def claimLimit (limit : Int) : Nat := if limit ≤ 0 ∨ 100 < limit then 10 else limit.toNat

def claimOutbox (owner : Bytes) (limit : Int) (ttl : Duration)
    (now reading : Time) : Except Error (Effect (List OutboxEvent)) := do
  ensure (!isBlank owner && decide (0 < ttl))
    (errorText "outbox owner and positive ttl are required")
  let now := effective now reading
  let (outbox, items) := claimEvents owner ttl now (claimLimit limit) state.outbox
  if items.isEmpty then return .keep []
  else
    return .write { state with outbox, session.updatedAt := now } state "persist outbox claim" items

/-- What `AckOutbox` and `CompleteOutbox` do to an event that is not published yet. -/
def publishOutbox (eventID : Bytes) (allowed : OutboxEvent → Bool)
    (now reading : Time) (context : String) : Except Error (Effect Unit) := do
  let some e := state.outbox.find? (·.id == eventID) | throw Sentinel.notFound.error
  if e.state = .published then return .keep ()
  else
    ensure (allowed e) Sentinel.leaseLost.error
    let now := effective now reading
    return .write
      { state with
        outbox := modifyFirst (·.id == eventID) (OutboxEvent.publish now) state.outbox
        session.updatedAt := now }
      state context ()

def ackOutbox (eventID owner : Bytes) (now reading : Time) : Except Error (Effect Unit) :=
  publishOutbox state eventID (fun e => e.state == .processing && e.owner == owner) now reading
    "persist outbox acknowledgement"

def completeOutbox (eventID : Bytes) (now reading : Time) : Except Error (Effect Unit) :=
  publishOutbox state eventID (fun e => e.state == .pending) now reading "persist outbox completion"

def second : Duration := 10 ^ 9

def nackOutbox (eventID owner : Bytes) (retryAt reading : Time) : Except Error (Effect Unit) := do
  let some e := state.outbox.find? (·.id == eventID) | throw Sentinel.notFound.error
  ensure (e.state == .processing && e.owner == owner) Sentinel.leaseLost.error
  let retryAt := effective retryAt (reading + second)
  return .write
    { state with outbox := modifyFirst (·.id == eventID) (OutboxEvent.retry retryAt) state.outbox }
    state "persist outbox retry" ()

end

structure Recovery where
  session : Session
  latestCheckpoint : Option Checkpoint
  pendingEffects : List OutboxEvent
  expiredLeases : List Lease

section

variable (now : Time) (e : OutboxEvent)

def Lease.isExpired (l : Lease) : Bool := l.state == .held && decide (l.expiresAt ≤ now)

def Lease.expire (l : Lease) : Lease :=
  if l.isExpired now then { l with state := .expired, updatedAt := now } else l

def OutboxEvent.isExpired : Bool :=
  e.state == .processing && decide (e.leaseUntil ≤ now)

def OutboxEvent.expire : OutboxEvent :=
  if e.isExpired now then e.retry now else e

def OutboxEvent.isDue : Bool := e.state == .pending || e.state == .processing

end

/-- `Recover` of a session that is valid. -/
def recoverSession (state : SessionState) (now reading : Time) : Effect Recovery :=
  let now := effective now reading
  let leases := state.leases.map (Lease.expire now)
  let outbox := state.outbox.map (OutboxEvent.expire now)
  let next := { state with leases, outbox, session.updatedAt := now }
  let expired := (state.leases.filter (Lease.isExpired now)).map (Lease.expire now)
  let report (session : Session) : Recovery :=
    ⟨session, state.checkpoints.getLast?, outbox.filter OutboxEvent.isDue, expired⟩
  if expired.isEmpty && !state.outbox.any (OutboxEvent.isExpired now) then
    .keep (report state.session)
  else .write next state "persist lease recovery" (report next.session)

end Adro.Harness
