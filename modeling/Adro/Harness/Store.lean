import Adro.Harness.Lease
import Adro.Harness.Validate

/-!
# The harness store

The operations of `Store`. What an operation does is a plan: it fails, it
returns a result, or it replaces the sessions and project memories and has that
made durable, with what it puts back when the write fails. A storage says what
becomes of a snapshot that is written and of turns that are appended to the
transcript log; it may refuse either. The methods hold one lock, so a run of the
store is a sequence of calls.
-/

namespace Adro.Harness

open Adro.Go

structure Store where
  sessions : ByteMap SessionState := ∅
  projectMemories : ByteMap (List MemoryItem) := ∅

def Store.setSession (s : Store) (id : Bytes) (state : SessionState) : Store :=
  { s with sessions := s.sessions.insert id state }

def Store.setProject (s : Store) (id : Bytes) (items : List MemoryItem) : Store :=
  { s with projectMemories := s.projectMemories.insert id items }

def Store.project (s : Store) (id : Bytes) : List MemoryItem := s.projectMemories[id]?.getD []

/-- Turns are logged after the write that stores them. -/
inductive Plan (α : Type)
  | fail (e : Error)
  | keep (result : α)
  | write (next undo : Store) (context : String) (result : α) (turns : List Turn)
      (logContext : String)

/-- `persistLocked` and `appendTranscriptBatch`, on the state of a storage. -/
structure Storage (δ : Type) where
  persist : δ → Store → Except Error Unit × δ
  appendTranscript : δ → List Turn → Except Error Unit × δ

structure World (δ : Type) where
  store : Store
  disk : δ

variable {δ α β : Type}

/-- The store keeps what became durable when the log of the turns fails. -/
def World.perform (io : Storage δ) (w : World δ) : Plan α → Except Error α × World δ
  | .fail e => (.error e, w)
  | .keep result => (.ok result, w)
  | .write next undo context result turns logContext =>
    match io.persist w.disk next with
    | (.error e, disk) => (.error (e.wrap context), ⟨undo, disk⟩)
    | (.ok _, disk) =>
      if turns.isEmpty then (.ok result, ⟨next, disk⟩)
      else match io.appendTranscript disk turns with
        | (.error e, disk) => (.error (e.wrap logContext), ⟨next, disk⟩)
        | (.ok _, disk) => (.ok result, ⟨next, disk⟩)

def Plan.map (f : α → β) : Plan α → Plan β
  | .fail e => .fail e
  | .keep result => .keep (f result)
  | .write next undo context result turns logContext =>
    .write next undo context (f result) turns logContext

/-- An operation on one session, which may fail before it writes anything. -/
def Store.onSession (s : Store) (id : Bytes) (f : SessionState → Except Error (Plan α)) : Plan α :=
  match s.sessions[id]? with
  | none => .fail Sentinel.notFound.error
  | some state =>
    match f state with
    | .error e => .fail e
    | .ok plan => plan

/-- The write of one session, which a failure takes back. -/
def Store.saveSession (s : Store) (id : Bytes) (next : SessionState) (context : String) (result : α)
    (turns : List Turn) (logContext : String) : Plan α :=
  .write (s.setSession id next) s context result turns logContext

variable (p : Platform) (cfg : Config) (s : Store)

/-- The session that `CreateSession` stores for a request that passes its checks. -/
def newSession (session : Session) (stamp : Stamp) : Except Error Session := do
  let session := if isBlank session.id then { session with id := stamp.id } else session
  ensure (!isBlank session.tenantID && !isBlank session.workspaceID)
    (errorText "tenant_id and workspace_id are required")
  ensure (decide (0 ≤ session.budgetTokens)) (errorText "budget_tokens cannot be negative")
  let session := if session.compactionThreshold.le (.finite 0) then
    { session with compactionThreshold := defaultThreshold } else session
  ensure (!F64.lt (.finite 1) session.compactionThreshold)
    (errorText "compaction_threshold must be in (0,1]")
  ensure (decide (0 ≤ session.compactionRetainTail))
    (errorText "compaction_retain_tail cannot be negative")
  let bounded := decide (0 < session.budgetTokens)
  return { session with
    autoCompaction := session.autoCompaction || (bounded && !session.autoCompactionSet)
    compactionRetainTail :=
      if bounded && session.compactionRetainTail == 0 then 4 else session.compactionRetainTail
    contextVersion := 1
    createdAt := stamp.time
    updatedAt := stamp.time }

def createSession (session : Session) (stamp : Stamp) : Plan Session :=
  match newSession session stamp with
  | .error e => .fail e
  | .ok session =>
    if s.sessions[session.id]?.isSome then .fail Sentinel.conflict.error
    else s.saveSession session.id { session } "persist session" session [] ""

def Store.appendTurn (sessionID : Bytes) (turn : Turn) (stamps : TurnStamps) : Plan Turn :=
  s.onSession sessionID fun state => do
    let (turn, added, next) ← Harness.appendTurn p cfg state sessionID turn stamps
    return if added then
      s.saveSession sessionID next "persist turn" turn [turn] "persist transcript"
    else .keep turn

def Store.recordToolCall (sessionID callID name input output : Bytes) (contextVersion : Int)
    (stamps : ToolStamps) : Plan (Checkpoint × Checkpoint) :=
  let callID := Event.trimSpace callID
  let name := Event.trimSpace name
  if callID == [] then .fail (errorText "tool call id is required")
  else s.onSession sessionID fun state => do
    let r ← Harness.recordToolCall p cfg state sessionID callID name input output
      contextVersion stamps
    return if r.added.isEmpty && r.state.checkpoints.length == state.checkpoints.length then
      .keep (r.before, r.after)
    else
      s.saveSession sessionID r.state "persist tool call" (r.before, r.after) r.added
        "persist tool transcript"

def Store.saveCheckpoint (sessionID : Bytes) (c : Checkpoint) (stamp : Stamp) : Plan Checkpoint :=
  s.onSession sessionID fun state => do
    let (saved, next) ← saveCheckpointLocked p state c stamp
    return s.saveSession sessionID next "persist checkpoint" saved [] ""

def Store.compact (sessionID : Bytes) (r : CompactRequest) (stamps : CompactionStamps) :
    Plan ArchiveWindow :=
  s.onSession sessionID fun state => do
    let (archive, next) ← Harness.compact p state r stamps
    return s.saveSession sessionID next "persist compaction" archive [] ""

def givenScope (item : MemoryItem) : MemoryScope :=
  let scope := MemoryScope.ofText (utf8 (lowered p.lower (Event.trimSpace item.scope.text)))
  if scope = .other [] then .session else scope

def givenStatus (item : MemoryItem) : MemoryStatus :=
  let status := MemoryStatus.ofText (utf8 (lowered p.lower (Event.trimSpace item.status.text)))
  if status = .other [] then .confirmed else status

/-- The fields of a memory that `AddMemory` fills in or refuses before it looks at the store. -/
def normalizeMemory (session : Session) (item : MemoryItem) : Except Error MemoryItem := do
  let scope := givenScope p item
  ensure (scope == .working || scope == .session || scope == .project)
    (errorText "memory scope must be working, session, or project")
  ensure (!isBlank item.kind && !isBlank item.content && !item.sourceIDs.isEmpty &&
      !outsideUnit item.confidence && !outsideUnit item.importance &&
      !outsideUnit item.qualityScore)
    (errorText "memory kind, content, source_ids and confidence are required")
  let status := givenStatus p item
  ensure (validMemoryStatus status) (errorText "memory status is invalid")
  let qualityScore :=
    if item.qualityScore.eq (.finite 0) then item.confidence else item.qualityScore
  let fingerprint := memoryFingerprint p item.kind item.content
  ensure (item.fingerprint == [] || item.fingerprint == fingerprint)
    (errorText "memory fingerprint does not match kind and content")
  ensure (scope != .project || !isBlank session.projectID)
    (errorText "project memory requires a session project_id")
  let named := Event.trimSpace item.projectID
  let projectID := if scope == .project then
    (if named == [] then session.projectID else named) else []
  ensure (scope != .project || projectID == session.projectID) Sentinel.conflict.error
  return { item with scope, status, qualityScore, fingerprint, projectID }

/-- The memories that a new one of a scope is compared with. -/
def availableMemories (state : SessionState) (item : MemoryItem) : List MemoryItem :=
  if item.scope == .project then s.project item.projectID else state.memories

/-- The active memory that says the same as a new one. -/
def sameClaim (item existing : MemoryItem) : Bool :=
  let fingerprint := if existing.fingerprint == [] then
    memoryFingerprint p existing.kind existing.content else existing.fingerprint
  existing.scope == item.scope && existing.kind == item.kind && fingerprint == item.fingerprint

def checkSupersedes (available : List MemoryItem) (item : MemoryItem) : Except Error Unit :=
  eachOk (fun superseded => do
    ensure (Event.trimSpace superseded != item.id)
      (Sentinel.conflict.because (bytesOf "memory cannot supersede itself"))
    ensure (hasMemoryID available superseded)
      (Sentinel.corrupt.because (bytesOf "superseded memory " ++
        superseded ++ bytesOf " is missing")))
    item.supersedes

/-- A memory with an id of its own, or the one that is drawn for it. -/
def MemoryItem.identified (m : MemoryItem) (fresh : Bytes) : MemoryItem :=
  let id := Event.trimSpace m.id
  { m with id := if id == [] then fresh else id }

def MemoryItem.recorded (m : MemoryItem) (time : Time) : MemoryItem :=
  { m with evidenceHash := Harness.evidenceHash p m.sourceIDs m.content, createdAt := time }

/-- What `AddMemory` would add, or the active memory that it returns instead. -/
def admitMemory (state : SessionState) (item : MemoryItem) (now : Time) (stamp : Stamp) :
    Except Error (MemoryItem ⊕ MemoryItem) := do
  let item ← normalizeMemory p state.session item
  eachOk (fun source => ensure (hasTurnID state.turns source)
    (Sentinel.corrupt.because (bytesOf "memory source turn " ++ source ++ bytesOf " is missing")))
    item.sourceIDs
  let item := item.identified stamp.id
  ensure (!hasMemoryID state.memories item.id && !hasMemoryID (s.project item.projectID) item.id)
    Sentinel.conflict.error
  let available := availableMemories s state item
  match (activeMemoryFrontier available now).find? (sameClaim p item) with
  | some existing => return .inl existing
  | none =>
    checkSupersedes available item
    return .inr (item.recorded p stamp.time)

/-- The store with a memory added, and the store that is left when that is not durable: the
memory is taken back, the time of the update and an empty project are not. -/
def addedMemory (sessionID : Bytes) (state : SessionState) (item : MemoryItem) :
    Store × Store :=
  let state := { state with session.updatedAt := item.createdAt }
  if item.scope == .project then
    ((s.setProject item.projectID (s.project item.projectID ++ [item])).setSession sessionID state,
      (s.setProject item.projectID (s.project item.projectID)).setSession sessionID state)
  else
    (s.setSession sessionID { state with memories := state.memories ++ [item] },
      s.setSession sessionID state)

def Store.addMemory (item : MemoryItem) (now : Time) (stamp : Stamp) : Plan MemoryItem :=
  s.onSession item.sessionID fun state => do
    match ← admitMemory p s state item now stamp with
    | .inl existing => return .keep existing
    | .inr added =>
      let (next, undo) := addedMemory s item.sessionID state added
      return .write next undo "persist memory" added [] ""

/-- A memory after a transition; one that is over does not expire any more. -/
def MemoryItem.transition (status : MemoryStatus) (reviewer reason : Bytes) (m : MemoryItem) :
    MemoryItem :=
  { m with
    status
    reviewer := Event.trimSpace reviewer
    lastReason := Event.trimSpace reason
    expiresAt :=
      if status = .superseded ∨ status = .forgotten ∨ status = .rejected then
        none else m.expiresAt }

/-- The memory of an id, in the session or else in its project, with the store where it is
changed and the store that is left when that is not durable. -/
def transitionStores (sessionID memoryID : Bytes) (state : SessionState)
    (change : MemoryItem → MemoryItem) (now : Time) : Option (MemoryItem × Store × Store) :=
  let touched := { state with session.updatedAt := now }
  let isTarget (m : MemoryItem) : Bool := m.id == memoryID
  match state.memories.find? isTarget with
  | some m =>
    some (m, s.setSession sessionID { touched with
      memories := modifyFirst isTarget change state.memories }, s)
  | none =>
    let items := s.project state.session.projectID
    (items.find? isTarget).map fun m =>
      let changed := modifyFirst isTarget change items
      -- A failed write puts back the status of the memory and nothing else of it.
      let restored := if state.session.projectID == [] then changed
        else changed.map fun c => if isTarget c then { c with status := m.status } else c
      (m, (s.setProject state.session.projectID changed).setSession sessionID touched,
        s.setProject state.session.projectID restored)

def Store.transitionMemoryWithReview (sessionID memoryID status reviewer reason : Bytes)
    (now : Time) :
    Plan MemoryItem :=
  let status := MemoryStatus.ofText (utf8 (lowered p.lower (Event.trimSpace status)))
  if !validMemoryStatus status || status = .other [] then
    .fail (errorText "memory status is invalid")
  else s.onSession sessionID fun state => do
    let change := MemoryItem.transition status reviewer reason
    let some (target, next, undo) := transitionStores s sessionID memoryID state change now
      | throw Sentinel.notFound.error
    ensure (memoryTransitionAllowed target.status status)
      (Sentinel.conflict.because (bytesOf "invalid memory transition " ++ target.status.text ++
        bytesOf " -> " ++ status.text))
    return .write next undo "persist memory transition" (change target) [] ""

/-- An operation on the leases or the outbox of a session. -/
def Store.operate (sessionID : Bytes) (f : SessionState → Except Error (Effect α)) : Plan α :=
  s.onSession sessionID fun state => do
    match ← f state with
    | .keep result => return .keep result
    | .write next undo context result =>
      return .write (s.setSession sessionID next) (s.setSession sessionID undo) context result [] ""

def Store.recover (sessionID : Bytes) (now reading : Time) : Plan Recovery :=
  s.operate sessionID fun state => do
    validateSessionState p state
    return recoverSession state now reading

end Adro.Harness
