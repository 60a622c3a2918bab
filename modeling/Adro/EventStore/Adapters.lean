import Adro.EventStore.Queries

/-!
# The SQLite and PostgreSQL event stores

`Append`, `Acquire`, `Renew` and `Release` of the two adapters. A call is handed
the clock readings it makes, each where its adapter makes it: the SQLite store
reads one clock, the PostgreSQL store reads the database's clock for leases. A
call that fails leaves the tables as they were. Closing a store, cancelled
contexts and failures of the engine other than broken constraints are left out.
-/

namespace Adro.EventStore

open Adro.Go Adro.Encoding Adro.Event

/-- What tells the adapters' statements apart: the name in their errors, and the largest value of
the column that numbers outbox messages. -/
structure Dialect where
  name : String
  maxOrdinal : Nat

def recordOf (appendDigest : Bytes) (e : Envelope) (raw : Bytes) : RecordRow :=
  { tenantID := e.tenantID, streamID := e.streamID, sequence := e.sequence, eventID := e.eventID,
    eventType := e.eventType, idempotencyKey := e.idempotencyKey, appendDigest,
    payloadDigest := e.payloadDigest, previousDigest := e.previousDigest,
    envelopeDigest := e.envelopeDigest, envelopeJSON := raw, committedAt :=
    unixMicro e.committedAt }

section Write

variable (dialect : Dialect) (request : AppendRequest) (validated : ValidatedAppend)

def insertEvents : Database → List Envelope → Except Error Database
  | db, [] => .ok db
  | db, envelope :: envelopes => do
    let raw ← (encoded envelope.marshal).mapError (wrap "encode committed event")
    let db ← db.insertRecord ("insert " ++ dialect.name ++ " event")
      (recordOf validated.digest envelope raw)
    insertEvents db envelopes

/-- The snapshot of a request; a nil payload breaks `NOT NULL`. -/
def writeSnapshot (db : Database) : Except Error Database :=
  let context := "write " ++ dialect.name ++ " event snapshot"
  match request.snapshot with
  | none => .ok db
  | some snapshot =>
    match snapshot.payload with
    | none => .error (errorText context)
    | some payload =>
      db.putSnapshot context ⟨validated.tenantID, request.streamID, snapshot.sequence,
        snapshot.digest, payload⟩

def insertMessages (lastSequence : Int) :
    Nat → Database → List OutboxMessage → Except Error Database
  | _, db, [] => .ok db
  | index, db, message :: messages => do
    let context := "insert " ++ dialect.name ++ " event outbox"
    match message.payload with
    | none => .error (errorText context)
    | some payload =>
      ensure (index ≤ dialect.maxOrdinal) (errorText context)
      let db ← db.insertOutbox context ⟨validated.tenantID, request.streamID, lastSequence, index,
        message.topic, message.key, payload⟩
      insertMessages lastSequence (index + 1) db messages

/-- The statements of `Append` after its checks. -/
def writeAppend (db : Database) (envelopes : List Envelope) :
    Except Error (Database × AppendResult) := do
  let lastSequence := (resultOf envelopes).lastSequence
  let headDigest := (envelopes.getLast?.map (·.envelopeDigest)).getD []
  let db ← insertEvents dialect validated db envelopes
  let db ← writeSnapshot dialect request validated db
  let db ← insertMessages dialect request validated lastSequence 0 db request.outbox
  let (db, rows) ← db.advanceStream ("advance " ++ dialect.name ++ " event stream") request.streamID
    validated.tenantID request.expectedSequence lastSequence headDigest
  if rows ≠ 1 then .error errConflict
  else .ok (db, resultOf envelopes)

end Write

def checkSnapshot (p : Platform) (request : AppendRequest) (lastSequence : Int) :
    Except Error Unit :=
  match request.snapshot with
  | none => .ok ()
  | some snapshot => do
    ensure (snapshot.sequence == lastSequence)
      (errorText "snapshot sequence must equal append terminal sequence")
    ensure (digestBytes p snapshot.payload == snapshot.digest)
      (errorText "snapshot digest does not match payload")

def validateScope (p : Platform) (tenantID streamID : Bytes) : Except Error Unit := do
  validateID p "tenant" tenantID
  validateID p "stream" streamID

/-- `Duration.Microseconds`. -/
def durationMicros (d : Duration) : Int := Int.tdiv d 1000

def validateLeaseInput (p : Platform) (tenantID streamID owner : Bytes) (ttl : Duration) :
    Except Error Unit := do
  validateScope p tenantID streamID
  validateID p "lease owner" owner
  ensure (0 < durationMicros ttl) (errorText "lease TTL must be at least one microsecond")

def Lease.Names (lease : Lease) (l : LeaseRow) : Prop :=
  l.tenantID = lease.tenantID ∧ l.streamID = lease.streamID ∧ l.owner = lease.owner ∧
    l.fencingToken = lease.fencingToken

instance {lease : Lease} {l : LeaseRow} : Decidable (lease.Names l) :=
  inferInstanceAs (Decidable (_ ∧ _))

/-- `assertLease`, with the reading of the clock in microseconds. -/
def assertLease (db : Database) (tenantID streamID : Bytes) (assertion : LeaseAssertion)
    (now : Except Error Int) : Except Error Unit :=
  if isBlank assertion.owner ∨ assertion.fencingToken ≤ 0 then .error errLeaseLost
  else
    match db.findLease tenantID streamID with
    | none => .error errLeaseLost
    | some row => do
      let now ← now
      if row.owner ≠ assertion.owner ∨ row.fencingToken ≠ assertion.fencingToken ∨
          row.expiresAt ≤ now then .error errLeaseLost
      else .ok ()

def assertRequest (db : Database) (request : AppendRequest) (tenantID : Bytes)
    (now : Except Error Int) : Except Error Unit :=
  match request.lease with
  | none => .ok ()
  | some assertion => assertLease db tenantID request.streamID assertion now

namespace Sqlite

def dialect : Dialect := ⟨"sqlite", 2 ^ 63 - 1⟩

variable (p : Platform) (db : Database)

/-- `loadStream`: the sequence, the digest and the owner of a stream, if there is one. -/
def loadStream (streamID : Bytes) : Int × Bytes × Option (Bytes × Bytes) :=
  match db.findStream streamID with
  | none => (0, [], none)
  | some s => (s.currentSequence, s.headDigest, some (s.tenantID, s.workspaceID))

def insertMissing (exists_ : Bool) (row : StreamRow) : Except Error Database :=
  match exists_ with
  | true => .ok db
  | false => db.insertStream "insert sqlite event stream" row

def append (request : AppendRequest) (assertedAt committedAt : Time) (newID : Nat → Bytes) :
    Except Error (Database × AppendResult) := do
  let validated ← validateAppend p request
  match ← findReplay p db request validated.digest with
  | some replay => .ok (db, replay)
  | none =>
    let (currentSequence, headDigest, owner) := loadStream db request.streamID
    ensure (owner.all (· == (validated.tenantID, validated.workspaceID)))
      (errorText "event stream tenant or workspace mismatch")
    ensure (currentSequence == request.expectedSequence) errConflict
    assertRequest db request validated.tenantID (.ok (unixMicro assertedAt))
    let envelopes ← commitEvents p request.expectedSequence (normalizeTime committedAt) newID 0
      headDigest request.events
    checkSnapshot p request (resultOf envelopes).lastSequence
    let db ← insertMissing db owner.isSome
      ⟨request.streamID, validated.tenantID, validated.workspaceID, 0, []⟩
    writeAppend dialect request validated db envelopes

/-- The token that `Acquire` writes. -/
def nextToken (tenantID streamID owner : Bytes) (now : Int) : Except Error Int :=
  match db.findLease tenantID streamID with
  | none => .ok 1
  | some row =>
    if row.owner ≠ owner ∧ now < row.expiresAt then .error errBusy
    else .ok (i64 (row.fencingToken + 1))

def acquire (tenantID streamID owner : Bytes) (ttl : Duration) (now : Time) :
    Except Error (Database × Lease) := do
  validateLeaseInput p tenantID streamID owner ttl
  let now := normalizeTime now
  let token ← nextToken db tenantID streamID owner (unixMicro now)
  let expiresAt := normalizeTime (now + ttl)
  let db ← db.putLease "write sqlite lease" ⟨tenantID, streamID, owner, token, unixMicro expiresAt⟩
  .ok (db, ⟨tenantID, streamID, owner, token, expiresAt⟩)

def renew (lease : Lease) (ttl : Duration) (now : Time) : Except Error (Database × Lease) := do
  validateLeaseInput p lease.tenantID lease.streamID lease.owner ttl
  ensure (0 < lease.fencingToken) (errorText "positive lease fencing token is required")
  let now := normalizeTime now
  let expiresAt := normalizeTime (now + ttl)
  let (db, rows) ← db.updateLease "renew sqlite lease"
    (fun l => lease.Names l ∧ unixMicro now < l.expiresAt)
    (fun l => { l with expiresAt := unixMicro expiresAt })
  if rows ≠ 1 then .error errLost
  else .ok (db, { lease with expiresAt })

def release (lease : Lease) (now : Time) : Except Error Database := do
  validateScope p lease.tenantID lease.streamID
  ensure (!isBlank lease.owner && 0 < lease.fencingToken)
    (errorText "lease owner and positive fencing token are required")
  let now := normalizeTime now
  let (db, rows) ← db.updateLease "release sqlite lease"
    (fun l => lease.Names l ∧ unixMicro now < l.expiresAt) (fun l => { l with expiresAt := 0 })
  if rows ≠ 1 then .error errLost else .ok db

end Sqlite

namespace Postgres

/-- The `integer` column of the outbox has 32 bits. -/
def dialect : Dialect := ⟨"PostgreSQL", 2 ^ 31 - 1⟩

variable (p : Platform) (db : Database)

/-- A `bigint`, which does not wrap. -/
def bigint (context : String) (n : Int) : Except Error Int :=
  if -(2 ^ 63) ≤ n ∧ n ≤ maxInt64 then .ok n else .error (errorText context)

def databaseNowMicros (now : Time) : Except Error Int :=
  bigint "read PostgreSQL transaction time" (microseconds now)

/-- `INSERT INTO event_streams ... ON CONFLICT (stream_id) DO NOTHING`. -/
def ensureStream (row : StreamRow) : Except Error Database :=
  match db.findStream row.streamID with
  | some _ => .ok db
  | none => db.insertStream "ensure PostgreSQL event stream" row

def loadStreamForUpdate (streamID : Bytes) : Except Error StreamRow :=
  match db.findStream streamID with
  | some s => .ok s
  | none => .error (errorText "lock PostgreSQL event stream")

def append (request : AppendRequest) (assertedAt committedAt : Time) (newID : Nat → Bytes) :
    Except Error (Database × AppendResult) := do
  let validated ← validateAppend p request
  let db ← ensureStream db ⟨request.streamID, validated.tenantID, validated.workspaceID, 0, []⟩
  let stream ← loadStreamForUpdate db request.streamID
  match ← findReplay p db request validated.digest with
  | some replay => .ok (db, replay)
  | none =>
    ensure (stream.tenantID == validated.tenantID && stream.workspaceID == validated.workspaceID)
      (errorText "event stream tenant or workspace mismatch")
    ensure (stream.currentSequence == request.expectedSequence) errConflict
    assertRequest db request validated.tenantID (databaseNowMicros assertedAt)
    let envelopes ← commitEvents p request.expectedSequence (normalizeTime committedAt) newID 0
      stream.headDigest request.events
    checkSnapshot p request (resultOf envelopes).lastSequence
    writeAppend dialect request validated db envelopes

/-- `time.UnixMicro`. -/
def timeOfMicros (us : Int) : Time := us * 1000 + 62135596800 * 10 ^ 9

def acquire (tenantID streamID owner : Bytes) (ttl : Duration) (now : Time) :
    Except Error (Database × Lease) := do
  validateLeaseInput p tenantID streamID owner ttl
  -- The row to insert is computed before the conflict is seen.
  let context := "insert PostgreSQL lease"
  let clock ← bigint context (microseconds now)
  let expiresAt ← bigint context (clock + durationMicros ttl)
  match db.findLease tenantID streamID with
  | none =>
    let db ← db.insertLease context ⟨tenantID, streamID, owner, 1, expiresAt⟩
    .ok (db, ⟨tenantID, streamID, owner, 1, timeOfMicros expiresAt⟩)
  | some row =>
    let now ← databaseNowMicros now
    if row.owner ≠ owner ∧ now < row.expiresAt then .error errBusy
    else do
      let token := i64 (row.fencingToken + 1)
      let expiresAt := i64 (now + durationMicros ttl)
      let (db, _) ← db.updateLease "take over PostgreSQL lease"
        (fun l => l.tenantID = tenantID ∧ l.streamID = streamID)
        (fun l => { l with owner, fencingToken := token, expiresAt })
      .ok (db, ⟨tenantID, streamID, owner, token, timeOfMicros expiresAt⟩)

/-- The check of `Renew` and `Release` that the lease is held, and the time it was made. -/
def checkHeld (lease : Lease) (now : Time) : Except Error Int :=
  match db.findLease lease.tenantID lease.streamID with
  | none => .error errLost
  | some row => do
    let now ← databaseNowMicros now
    if row.owner ≠ lease.owner ∨ row.fencingToken ≠ lease.fencingToken ∨ row.expiresAt ≤ now then
      .error errLost
    else .ok now

def renew (lease : Lease) (ttl : Duration) (now : Time) : Except Error (Database × Lease) := do
  validateLeaseInput p lease.tenantID lease.streamID lease.owner ttl
  ensure (0 < lease.fencingToken) (errorText "positive lease fencing token is required")
  let now ← checkHeld db lease now
  let expiresAt := i64 (now + durationMicros ttl)
  let (db, rows) ← db.updateLease "renew PostgreSQL lease" (fun l => lease.Names l)
    (fun l => { l with expiresAt })
  if rows ≠ 1 then .error errLost
  else .ok (db, { lease with expiresAt := timeOfMicros expiresAt })

def release (lease : Lease) (now : Time) : Except Error Database := do
  validateScope p lease.tenantID lease.streamID
  ensure (!isBlank lease.owner && 0 < lease.fencingToken)
    (errorText "lease owner and positive fencing token are required")
  let _ ← checkHeld db lease now
  let (db, rows) ← db.updateLease "release PostgreSQL lease" (fun l => lease.Names l)
    (fun l => { l with expiresAt := 0 })
  if rows ≠ 1 then .error errLost else .ok db

end Postgres

inductive Backend
  | sqlite
  | postgres
  deriving DecidableEq, Repr

/-- A call with the clock readings it makes and the identifiers it is given. -/
inductive Call
  | append (request : AppendRequest) (assertedAt committedAt : Time) (newID : Nat → Bytes)
  | read (streamID : Bytes) (after limit : Int)
  | head (streamID : Bytes)
  | acquire (tenantID streamID owner : Bytes) (ttl : Duration) (now : Time)
  | renew (lease : Lease) (ttl : Duration) (now : Time)
  | release (lease : Lease) (now : Time)

inductive Response
  | appended (result : AppendResult)
  | events (page : List Envelope)
  | head (sequence : Int) (digest : Bytes)
  | leased (lease : Lease)
  | released
  deriving DecidableEq, Repr

section Calls

variable (b : Backend) (p : Platform) (db : Database)

def append (request : AppendRequest) (assertedAt committedAt : Time) (newID : Nat → Bytes) :
    Except Error (Database × AppendResult) :=
  match b with
  | .sqlite => Sqlite.append p db request assertedAt committedAt newID
  | .postgres => Postgres.append p db request assertedAt committedAt newID

def acquire (tenantID streamID owner : Bytes) (ttl : Duration) (now : Time) :
    Except Error (Database × Lease) :=
  match b with
  | .sqlite => Sqlite.acquire p db tenantID streamID owner ttl now
  | .postgres => Postgres.acquire p db tenantID streamID owner ttl now

def renew (lease : Lease) (ttl : Duration) (now : Time) : Except Error (Database × Lease) :=
  match b with
  | .sqlite => Sqlite.renew p db lease ttl now
  | .postgres => Postgres.renew p db lease ttl now

def release (lease : Lease) (now : Time) : Except Error Database :=
  match b with
  | .sqlite => Sqlite.release p db lease now
  | .postgres => Postgres.release p db lease now

/-- A call in its transaction: the tables it commits and what it returns. -/
def call : Call → Except Error (Database × Response)
  | .append request assertedAt committedAt newID =>
    (append b p db request assertedAt committedAt newID).map fun x => (x.1, .appended x.2)
  | .read streamID after limit => (read p db streamID after limit).map fun page =>
      (db, .events page)
  | .head streamID => (head p db streamID).map fun x => (db, .head x.1 x.2)
  | .acquire tenantID streamID owner ttl now =>
    (acquire b p db tenantID streamID owner ttl now).map fun x => (x.1, .leased x.2)
  | .renew lease ttl now => (renew b p db lease ttl now).map fun x => (x.1, .leased x.2)
  | .release lease now => (release b p db lease now).map fun db => (db, .released)

/-- The tables after a call; one that fails is rolled back. -/
def step (c : Call) : Database :=
  match call b p db c with
  | .ok (db, _) => db
  | .error _ => db

def respond (c : Call) : Except Error Response := (call b p db c).map Prod.snd

end Calls

end Adro.EventStore
