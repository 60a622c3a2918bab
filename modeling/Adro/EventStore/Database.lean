import Adro.EventStore.Contract
import Adro.Lib.Table

/-!
# The tables of the event stores

The schema that both adapters create, with its checks, unique keys and
references, and the statements they run on it. A statement that breaks a
constraint fails with the adapter's context; the engine's text is left out. The
columns that say when a row was written are left out: no statement reads them.
-/

namespace Adro.EventStore

open Adro.Go Adro.Event

/-- `event_streams`. -/
structure StreamRow where
  streamID : Bytes
  tenantID : Bytes
  workspaceID : Bytes
  currentSequence : Int
  headDigest : Bytes
  deriving DecidableEq, Repr

/-- `event_records`. -/
structure RecordRow where
  tenantID : Bytes
  streamID : Bytes
  sequence : Int
  eventID : Bytes
  eventType : Bytes
  idempotencyKey : Bytes
  appendDigest : Bytes
  payloadDigest : Bytes
  previousDigest : Bytes
  envelopeDigest : Bytes
  envelopeJSON : Bytes
  committedAt : Int
  deriving DecidableEq, Repr

/-- `event_outbox` and `runtime_event_outbox`. -/
structure OutboxRow where
  tenantID : Bytes
  streamID : Bytes
  sequence : Int
  ordinal : Nat
  topic : Bytes
  messageKey : Bytes
  payload : Bytes
  deriving DecidableEq, Repr

/-- `event_snapshots`. -/
structure SnapshotRow where
  tenantID : Bytes
  streamID : Bytes
  sequence : Int
  digest : Bytes
  payload : Bytes
  deriving DecidableEq, Repr

/-- `event_leases`. -/
structure LeaseRow where
  tenantID : Bytes
  streamID : Bytes
  owner : Bytes
  fencingToken : Int
  expiresAt : Int
  deriving DecidableEq, Repr

def streamSchema : Schema StreamRow where
  check r := 0 ≤ r.currentSequence
  clash a b := a.streamID = b.streamID
  symm h := h.symm

def recordSchema : Schema RecordRow where
  check r := 0 < r.sequence
  clash a b :=
    (a.tenantID = b.tenantID ∧ a.streamID = b.streamID ∧ a.sequence = b.sequence) ∨
      a.eventID = b.eventID ∨
      (a.tenantID = b.tenantID ∧ a.streamID = b.streamID ∧ a.idempotencyKey = b.idempotencyKey)
  symm := by
    rintro a b (⟨h₁, h₂, h₃⟩ | h | ⟨h₁, h₂, h₃⟩)
    · exact .inl ⟨h₁.symm, h₂.symm, h₃.symm⟩
    · exact .inr (.inl h.symm)
    · exact .inr (.inr ⟨h₁.symm, h₂.symm, h₃.symm⟩)

def outboxSchema : Schema OutboxRow where
  check _ := True
  clash a b :=
    (a.tenantID = b.tenantID ∧ a.topic = b.topic ∧ a.messageKey = b.messageKey) ∨
      (a.tenantID = b.tenantID ∧ a.streamID = b.streamID ∧ a.sequence = b.sequence ∧
        a.ordinal = b.ordinal)
  symm := by
    rintro a b (⟨h₁, h₂, h₃⟩ | ⟨h₁, h₂, h₃, h₄⟩)
    · exact .inl ⟨h₁.symm, h₂.symm, h₃.symm⟩
    · exact .inr ⟨h₁.symm, h₂.symm, h₃.symm, h₄.symm⟩

def snapshotSchema : Schema SnapshotRow where
  check r := 0 < r.sequence
  clash a b := a.tenantID = b.tenantID ∧ a.streamID = b.streamID
  symm h := ⟨h.1.symm, h.2.symm⟩

def leaseSchema : Schema LeaseRow where
  check r := 0 < r.fencingToken
  clash a b := a.tenantID = b.tenantID ∧ a.streamID = b.streamID
  symm h := ⟨h.1.symm, h.2.symm⟩

def References (streams : Table streamSchema) (tenantID streamID : Bytes) : Prop :=
  ∃ s ∈ streams.rows, s.tenantID = tenantID ∧ s.streamID = streamID

instance {streams : Table streamSchema} {tenantID streamID : Bytes} :
    Decidable (References streams tenantID streamID) :=
  inferInstanceAs (Decidable (∃ s ∈ streams.rows, _))

@[ext] structure Database where
  streams : Table streamSchema
  records : Table recordSchema
  outbox : Table outboxSchema
  snapshots : Table snapshotSchema
  leases : Table leaseSchema
  recordsRef : ∀ r ∈ records.rows, References streams r.tenantID r.streamID
  outboxRef : ∀ r ∈ outbox.rows, References streams r.tenantID r.streamID
  snapshotsRef : ∀ r ∈ snapshots.rows, References streams r.tenantID r.streamID

/-- What `createSchema` leaves in a new database. -/
def Database.empty : Database :=
  ⟨.empty, .empty, .empty, .empty, .empty, by simp [Table.empty], by simp [Table.empty],
    by simp [Table.empty]⟩

namespace Database

variable (db : Database) (context : String)

def withStreams (streams : Table streamSchema)
    (h : ∀ tenantID streamID, References db.streams tenantID streamID →
      References streams tenantID streamID) : Database :=
  { db with
    streams
    recordsRef := fun r hr => h _ _ (db.recordsRef r hr)
    outboxRef := fun r hr => h _ _ (db.outboxRef r hr)
    snapshotsRef := fun r hr => h _ _ (db.snapshotsRef r hr) }

def insertStream (row : StreamRow) : Except Error Database :=
  if h : db.streams.Fits row then
    .ok (db.withStreams (db.streams.insert row h) fun _ _ ⟨s, hs, heq⟩ =>
      ⟨s, List.mem_append_left _ hs, heq⟩)
  else .error (errorText context)

def insertRecord (row : RecordRow) : Except Error Database :=
  if h : db.records.Fits row ∧ References db.streams row.tenantID row.streamID then
    .ok { db with
      records := db.records.insert row h.1
      recordsRef := by
        simp only [Table.rows_insert, List.forall_mem_append, List.forall_mem_singleton]
        exact ⟨db.recordsRef, h.2⟩ }
  else .error (errorText context)

def insertOutbox (row : OutboxRow) : Except Error Database :=
  if h : db.outbox.Fits row ∧ References db.streams row.tenantID row.streamID then
    .ok { db with
      outbox := db.outbox.insert row h.1
      outboxRef := by
        simp only [Table.rows_insert, List.forall_mem_append, List.forall_mem_singleton]
        exact ⟨db.outboxRef, h.2⟩ }
  else .error (errorText context)

/-- `INSERT INTO event_snapshots ... ON CONFLICT (tenant_id, stream_id) DO UPDATE`. -/
def putSnapshot (row : SnapshotRow) : Except Error Database :=
  if href : References db.streams row.tenantID row.streamID then
    match h : db.snapshots.upsert row with
    | some snapshots => .ok { db with
        snapshots
        snapshotsRef := fun a ha => by
          rcases Table.mem_upsert h ha with rfl | ha
          · exact href
          · exact db.snapshotsRef a ha }
    | none => .error (errorText context)
  else .error (errorText context)

/-- `INSERT INTO event_leases ... ON CONFLICT (tenant_id, stream_id) DO UPDATE`. -/
def putLease (row : LeaseRow) : Except Error Database :=
  match db.leases.upsert row with
  | some leases => .ok { db with leases }
  | none => .error (errorText context)

def insertLease (row : LeaseRow) : Except Error Database :=
  if h : db.leases.Fits row then .ok { db with leases := db.leases.insert row h }
  else .error (errorText context)

/-- `UPDATE event_leases SET ... WHERE ...`, with the number of rows it changes. -/
def updateLease (q : LeaseRow → Bool) (set : LeaseRow → LeaseRow) : Except Error (Database × Nat) :=
  if h : db.leases.Allows fun l => if q l then set l else l then
    .ok ({ db with leases := db.leases.update _ h }, db.leases.rows.countP q)
  else .error (errorText context)

/-- The row of a stream after `UPDATE event_streams`. -/
def advanced (streamID tenantID : Bytes) (expected last : Int) (head : Bytes) (s : StreamRow) :
    StreamRow :=
  if s.streamID = streamID ∧ s.tenantID = tenantID ∧ s.currentSequence = expected then
    { s with currentSequence := last, headDigest := head }
  else s

theorem advanced_keys (streamID tenantID : Bytes) (expected last : Int) (head : Bytes) :
    (advanced streamID tenantID expected last head s).streamID = s.streamID ∧
      (advanced streamID tenantID expected last head s).tenantID = s.tenantID := by
  unfold advanced
  split <;> simp

/-- `UPDATE event_streams SET ... WHERE stream_id=? AND tenant_id=? AND
current_sequence=?`, with the
number of rows it changes. -/
def advanceStream (streamID tenantID : Bytes) (expected last : Int) (head : Bytes) :
    Except Error (Database × Nat) :=
  if h : db.streams.Allows (advanced streamID tenantID expected last head) then
    .ok (db.withStreams (db.streams.update _ h) fun _ _ ⟨s, hs, heq⟩ =>
        ⟨_, List.mem_map_of_mem hs, by
          obtain ⟨hstream, htenant⟩ := advanced_keys streamID tenantID expected last head
          rw [hstream, htenant]
          exact heq⟩,
      db.streams.rows.countP fun s =>
        s.streamID = streamID ∧ s.tenantID = tenantID ∧ s.currentSequence = expected)
  else .error (errorText context)

def findStream (streamID : Bytes) : Option StreamRow :=
  db.streams.find fun s => s.streamID = streamID

def findByKey (tenantID streamID key : Bytes) : Option RecordRow :=
  db.records.find fun r => r.tenantID = tenantID ∧ r.streamID = streamID ∧ r.idempotencyKey = key

/-- `WHERE stream_id=? AND sequence=?`. -/
def findAt (streamID : Bytes) (sequence : Int) : Option RecordRow :=
  db.records.find fun r => r.streamID = streamID ∧ r.sequence = sequence

/-- `WHERE stream_id=? AND sequence>? ORDER BY sequence LIMIT ?`. -/
def recordsAfter (streamID : Bytes) (after limit : Int) : List RecordRow :=
  ((db.records.rows.filter fun r => r.streamID = streamID ∧ after < r.sequence).mergeSort
    fun a b => a.sequence ≤ b.sequence).take limit.toNat

/-- `WHERE tenant_id=? AND stream_id=? AND sequence=? ORDER BY ordinal`. -/
def outboxAt (tenantID streamID : Bytes) (sequence : Int) : List OutboxRow :=
  (db.outbox.rows.filter fun r =>
    r.tenantID = tenantID ∧ r.streamID = streamID ∧ r.sequence = sequence).mergeSort
    fun a b => a.ordinal ≤ b.ordinal

def findSnapshot (tenantID streamID : Bytes) : Option SnapshotRow :=
  db.snapshots.find fun s => s.tenantID = tenantID ∧ s.streamID = streamID

def findLease (tenantID streamID : Bytes) : Option LeaseRow :=
  db.leases.find fun l => l.tenantID = tenantID ∧ l.streamID = streamID

end Database

end Adro.EventStore
