import Adro.Event.Envelope
import Adro.Go.Bytes
import Adro.Go.Value

/-!
# Harness sessions

`internal/harness`: the records that a session is made of, their digests and
the checks on single records. A record's fields default to the zero values of
the source. An integer field is the integer it holds; the two that are counted
up without a bound of their own, the version of a lease and the attempts of an
event, wrap at 64 bits. A nil list or map is not told apart from an empty one.
-/

namespace Adro.Harness

open Adro.Go Adro.Json Adro.Encoding

/-- What is used of `crypto/sha256` and `unicode`. -/
structure Platform where
  sha256 : Bytes → Bytes
  lower : Char → Char
  fold : Char → Char

/-- What one call of `domain.NewID` and of `time.Now` at the same place give. -/
structure Stamp where
  id : Bytes
  time : Time
  deriving DecidableEq, Repr

inductive Sentinel
  | notFound
  | conflict
  | corrupt
  | leaseBusy
  | leaseLost
  | windowUsed
  deriving DecidableEq, Repr

structure Error where
  sentinel : Option Sentinel
  text : Bytes
  deriving DecidableEq, Repr

def Sentinel.text : Sentinel → Bytes
  | .notFound => bytesOf "harness session not found"
  | .conflict => bytesOf "harness state conflict"
  | .corrupt => bytesOf "harness state is corrupt"
  | .leaseBusy => bytesOf "lease is held by another owner"
  | .leaseLost => bytesOf "lease is no longer owned"
  | .windowUsed => bytesOf "compaction window overlaps an existing archive"

def Sentinel.error (s : Sentinel) : Error := ⟨some s, s.text⟩

def Sentinel.because (s : Sentinel) (detail : Bytes) : Error :=
  ⟨some s, s.text ++ bytesOf ": " ++ detail⟩

def errorText (text : String) : Error := ⟨none, bytesOf text⟩

def Error.wrap (context : String) (e : Error) : Error :=
  ⟨e.sentinel, bytesOf context ++ bytesOf ": " ++ e.text⟩

inductive Role
  | system
  | user
  | assistant
  | tool
  | other (name : Bytes)
  deriving DecidableEq, Repr

def Role.text : Role → Bytes
  | .system => bytesOf "system"
  | .user => bytesOf "user"
  | .assistant => bytesOf "assistant"
  | .tool => bytesOf "tool"
  | .other name => name

def validRole : Role → Bool
  | .other _ => false
  | _ => true

structure Turn where
  id : Bytes := []
  sessionID : Bytes := []
  sequence : Int := 0
  attemptID : Bytes := []
  role : Role := .other []
  content : Bytes := []
  toolName : Bytes := []
  toolCallID : Bytes := []
  toolStatus : Bytes := []
  idempotencyKey : Bytes := []
  metadata : ByteMap Bytes := ∅
  prevHash : Bytes := []
  hash : Bytes := []
  createdAt : Time := 0

inductive CheckpointPhase
  | turnStarted
  | toolBefore
  | toolAfter
  | compactionBegin
  | compactionDone
  | effectBefore
  | effectAfter
  | other (name : Bytes)
  deriving DecidableEq, Repr

def CheckpointPhase.text : CheckpointPhase → Bytes
  | .turnStarted => bytesOf "turn_started"
  | .toolBefore => bytesOf "tool_before"
  | .toolAfter => bytesOf "tool_after"
  | .compactionBegin => bytesOf "compaction_before"
  | .compactionDone => bytesOf "compaction_after"
  | .effectBefore => bytesOf "effect_before"
  | .effectAfter => bytesOf "effect_after"
  | .other name => name

def CheckpointPhase.valid : CheckpointPhase → Bool
  | .other _ => false
  | _ => true

structure Checkpoint where
  id : Bytes := []
  sessionID : Bytes := []
  turnSequence : Int := 0
  phase : CheckpointPhase := .other []
  eventHash : Bytes := []
  prevHash : Bytes := []
  toolCallID : Bytes := []
  contextVersion : Int := 0
  outboxIDs : List Bytes := []
  leaseIDs : List Bytes := []
  state : Bytes := []
  hash : Bytes := []
  createdAt : Time := 0
  deriving DecidableEq

structure CompressionRecord where
  sourceBlockIDs : List Bytes := []
  algorithm : Bytes := []
  version : Bytes := []
  sourceHash : Bytes := []
  summaryHash : Bytes := []
  targetTokens : Int := 0
  retainedFacts : List Bytes := []
  droppedFacts : List Bytes := []
  qualityScore : F64 := .finite 0
  fallbackReason : Bytes := []
  droppedReason : Bytes := []
  overflowReason : Bytes := []
  replayKey : Bytes := []
  deriving DecidableEq

structure ArchiveWindow where
  id : Bytes := []
  sessionID : Bytes := []
  startSequence : Int := 0
  endSequence : Int := 0
  sourceHash : Bytes := []
  replacementHash : Bytes := []
  summary : Bytes := []
  retainedTail : Int := 0
  parentArchiveID : Bytes := []
  reason : Bytes := []
  compression : CompressionRecord := {}
  createdAt : Time := 0
  deriving DecidableEq

inductive MemoryScope
  | working
  | session
  | project
  | other (name : Bytes)
  deriving DecidableEq, Repr

def MemoryScope.text : MemoryScope → Bytes
  | .working => bytesOf "working"
  | .session => bytesOf "session"
  | .project => bytesOf "project"
  | .other name => name

def MemoryScope.ofText (b : Bytes) : MemoryScope :=
  ([.working, .session, .project].find? fun scope : MemoryScope => scope.text == b).getD (.other b)

inductive MemoryStatus
  | candidate
  | quarantined
  | confirmed
  | superseded
  | forgotten
  | rejected
  | other (name : Bytes)
  deriving DecidableEq, Repr

def MemoryStatus.text : MemoryStatus → Bytes
  | .candidate => bytesOf "candidate"
  | .quarantined => bytesOf "quarantined"
  | .confirmed => bytesOf "confirmed"
  | .superseded => bytesOf "superseded"
  | .forgotten => bytesOf "forgotten"
  | .rejected => bytesOf "rejected"
  | .other name => name

def MemoryStatus.ofText (b : Bytes) : MemoryStatus :=
  ([.candidate, .quarantined, .confirmed, .superseded, .forgotten, .rejected].find?
    fun status : MemoryStatus => status.text == b).getD (.other b)

/-- `validMemoryStatus`; a record may have no status. -/
def validMemoryStatus : MemoryStatus → Bool
  | .other name => name.isEmpty
  | _ => true

structure MemoryItem where
  id : Bytes := []
  sessionID : Bytes := []
  scope : MemoryScope := .other []
  projectID : Bytes := []
  kind : Bytes := []
  fingerprint : Bytes := []
  content : Bytes := []
  sourceIDs : List Bytes := []
  confidence : F64 := .finite 0
  importance : F64 := .finite 0
  status : MemoryStatus := .other []
  qualityScore : F64 := .finite 0
  evidenceHash : Bytes := []
  sensitivity : Bytes := []
  pollutionLineage : List Bytes := []
  conflictPackage : List Bytes := []
  reviewer : Bytes := []
  lastReason : Bytes := []
  pinned : Bool := false
  expiresAt : Option Time := none
  supersedes : List Bytes := []
  createdAt : Time := 0
  deriving DecidableEq

/-- The test that a score lies outside the unit interval; NaN does not. -/
def outsideUnit (x : F64) : Bool := x.lt (.finite 0) || F64.lt (.finite 1) x

structure Session where
  id : Bytes := []
  tenantID : Bytes := []
  workspaceID : Bytes := []
  projectID : Bytes := []
  budgetTokens : Int := 0
  autoCompaction : Bool := false
  compactionThreshold : F64 := .finite 0
  compactionRetainTail : Int := 0
  autoCompactionSet : Bool := false
  contextVersion : Int := 0
  createdAt : Time := 0
  updatedAt : Time := 0
  deriving DecidableEq

inductive LeaseState
  | held
  | released
  | expired
  | other (name : Bytes)
  deriving DecidableEq, Repr

structure Lease where
  id : Bytes := []
  sessionID : Bytes := []
  key : Bytes := []
  owner : Bytes := []
  state : LeaseState := .other []
  version : Int := 0
  expiresAt : Time := 0
  createdAt : Time := 0
  updatedAt : Time := 0
  deriving DecidableEq, Repr

inductive OutboxState
  | pending
  | processing
  | published
  | other (name : Bytes)
  deriving DecidableEq, Repr

structure OutboxEvent where
  id : Bytes := []
  sessionID : Bytes := []
  idempotencyKey : Bytes := []
  payload : Bytes := []
  state : OutboxState := .other []
  attempts : Int := 0
  owner : Bytes := []
  leaseUntil : Time := 0
  nextAttemptAt : Time := 0
  publishedAt : Option Time := none
  createdAt : Time := 0
  deriving DecidableEq, Repr

structure SessionState where
  session : Session := {}
  turns : List Turn := []
  checkpoints : List Checkpoint := []
  archives : List ArchiveWindow := []
  memories : List MemoryItem := []
  leases : List Lease := []
  outbox : List OutboxEvent := []

/-- A list of strings with `omitempty`. -/
def nonEmptyStrings (items : List Bytes) : Option Syntax :=
  if items.isEmpty then none else some (.arr (items.map stringTree))

/-- A map with `omitempty`; its members are written in key order. -/
def nonEmptyMap (m : ByteMap Bytes) : Option Syntax :=
  if m.isEmpty then none else some (object (m.toList.map fun e => (e.1, some (stringTree e.2))))

def Turn.fields (t : Turn) (createdAt : Bytes) : Fields :=
  [(bytesOf "id", some (stringTree t.id)),
    (bytesOf "session_id", some (stringTree t.sessionID)),
    (bytesOf "sequence", some (intTree t.sequence)),
    (bytesOf "attempt_id", nonEmpty t.attemptID),
    (bytesOf "role", some (stringTree t.role.text)),
    (bytesOf "content", some (stringTree t.content)),
    (bytesOf "tool_name", nonEmpty t.toolName),
    (bytesOf "tool_call_id", nonEmpty t.toolCallID),
    (bytesOf "tool_status", nonEmpty t.toolStatus),
    (bytesOf "idempotency_key", nonEmpty t.idempotencyKey),
    (bytesOf "metadata", nonEmptyMap t.metadata),
    (bytesOf "prev_hash", nonEmpty t.prevHash),
    (bytesOf "hash", some (stringTree t.hash)),
    (bytesOf "created_at", some (stringTree createdAt))]

/-- `json.Marshal` of a turn; the error of a time that has no text is dropped. -/
def Turn.marshal (t : Turn) : Bytes :=
  (rfc3339 t.createdAt).elim [] fun createdAt => (object (t.fields createdAt)).text

def Checkpoint.fields (c : Checkpoint) (createdAt : Bytes) : Fields :=
  [(bytesOf "id", some (stringTree c.id)),
    (bytesOf "session_id", some (stringTree c.sessionID)),
    (bytesOf "turn_sequence", some (intTree c.turnSequence)),
    (bytesOf "phase", some (stringTree c.phase.text)),
    (bytesOf "event_hash", some (stringTree c.eventHash)),
    (bytesOf "prev_hash", nonEmpty c.prevHash),
    (bytesOf "tool_call_id", nonEmpty c.toolCallID),
    (bytesOf "context_version", some (intTree c.contextVersion)),
    (bytesOf "outbox_ids", nonEmptyStrings c.outboxIDs),
    (bytesOf "lease_ids", nonEmptyStrings c.leaseIDs),
    (bytesOf "state", nonEmpty c.state),
    (bytesOf "hash", some (stringTree c.hash)),
    (bytesOf "created_at", some (stringTree createdAt))]

def Checkpoint.marshal (c : Checkpoint) : Bytes :=
  (rfc3339 c.createdAt).elim [] fun createdAt => (object (c.fields createdAt)).text

section Digest

variable (p : Platform)

def digest (data : Bytes) : Bytes := bytesOf "sha256:" ++ hexText (p.sha256 data)

def hashTurn (t : Turn) : Bytes := digest p { t with hash := [] }.marshal

def turnDigest (t : Turn) : Bytes :=
  hashTurn p { t with id := [], sequence := 0, prevHash := [], hash := [], createdAt := 0 }

def hashCheckpoint (c : Checkpoint) : Bytes := digest p { c with hash := [] }.marshal

end Digest

/-- `strings.TrimSpace(s) == ""`. -/
def isBlank (b : Bytes) : Bool := Event.trimSpace b == []

def hasTurnHash (turns : List Turn) (value : Bytes) : Bool := turns.any (·.hash == value)

def hasTurnID (turns : List Turn) (value : Bytes) : Bool := turns.any (·.id == value)

def hasMemoryID (items : List MemoryItem) (value : Bytes) : Bool := items.any (·.id == value)

def turnArchived (archives : List ArchiveWindow) (sequence : Int) : Bool :=
  archives.any fun a => decide (a.startSequence ≤ sequence) && decide (sequence ≤ a.endSequence)

end Adro.Harness
