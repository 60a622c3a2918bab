import Adro.Harness.Store

/-!
# What a session remembers

`ListMemories`, the memory count of `ContextStatus` and the blocks that
`compileManifest` hands to the context compiler, each at one reading of the
clock; and `ReduceMemories`, which reads the clock once for each claim.
-/

namespace Adro.Harness

open Adro.Go Adro.Encoding

/-- The memories of a session and of the project it names. -/
def visibleMemories (s : Store) (state : SessionState) : List MemoryItem :=
  state.memories ++ if state.session.projectID == [] then [] else s.project state.session.projectID

def activeMemories (s : Store) (state : SessionState) (now : Time) : List MemoryItem :=
  (visibleMemories s state).filter (memoryActive · now)

def listMemories (s : Store) (sessionID : Bytes) (now : Time) : Except Error (List MemoryItem) :=
  match s.sessions[sessionID]? with
  | none => .error Sentinel.notFound.error
  | some state => .ok (activeMemoryFrontier (activeMemories s state now) now)

structure ContextStatus where
  sessionID : Bytes
  contextVersion : Int
  turnCount : Nat
  archivedTurns : Int
  tokenEstimate : Int
  budgetTokens : Int
  archiveCount : Nat
  memoryCount : Nat
  checkpointCount : Nat
  autoCompaction : Bool
  compactionThreshold : F64
  compactionRetainTail : Int
  lastTurnHash : Bytes
  transcriptDurable : Bool

/-- The memories that `ContextStatus` counts. -/
def countedMemories (s : Store) (state : SessionState) (now : Time) : List MemoryItem :=
  activeMemoryFrontier (state.memories ++ s.project state.session.projectID) now

def contextStatus (durable : Bool) (s : Store) (sessionID : Bytes) (now : Time) :
    Except Error ContextStatus :=
  match s.sessions[sessionID]? with
  | none => .error Sentinel.notFound.error
  | some state => .ok
    { sessionID
      contextVersion := state.session.contextVersion
      turnCount := state.turns.length
      archivedTurns := (state.archives.map fun a => a.endSequence - a.startSequence + 1).sum
      tokenEstimate := ((state.turns.filter fun t =>
        decide (0 < t.sequence) && !turnArchived state.archives t.sequence).map fun t =>
          (((runes t.content).length + 3) / 4 : Int)).sum
      budgetTokens := state.session.budgetTokens
      archiveCount := state.archives.length
      memoryCount := (countedMemories s state now).length
      checkpointCount := state.checkpoints.length
      autoCompaction := state.session.autoCompaction
      compactionThreshold := state.session.compactionThreshold
      compactionRetainTail := state.session.compactionRetainTail
      lastTurnHash := lastTurnHash state.turns
      transcriptDurable := durable }

variable (p : Platform)

section

variable (blocks : List Block) (turns : List Turn)

/-- `appendBlock`: a block that ends in one newline, with an id of its own if its source
has none. -/
def appendBlock (kind source content policy trust reason : Bytes)
    (mandatory : Bool) (metadata : ByteMap Bytes) : List Block :=
  let content := (if content.getLast? == some newline then content.dropLast else content) ++
    [newline]
  blocks ++ [
    { id := kind ++ bytesOf ":" ++ if source == [] then
      intText (blocks.length + 1 : Nat) else source
      kind, source, content, hash := hexText (p.sha256 content), policy, trust,
      selectionReason := reason, tokenEstimate := tokenEstimate content, mandatory, metadata }]

def metadata (entries : List (String × Bytes)) : ByteMap Bytes :=
  entries.foldl (fun m e => m.insert (bytesOf e.1) e.2) ∅

def archiveBlock (a : ArchiveWindow) : List Block :=
  appendBlock p blocks (bytesOf "archive") a.id
    (bytesOf "[archive " ++ a.id ++ bytesOf "] " ++ a.summary)
    (bytesOf "verified_summary") (bytesOf "verified") (bytesOf "archive_order") false
    (metadata [("start_sequence", intText a.startSequence),
      ("end_sequence", intText a.endSequence)])

/-- The memories that `compileManifest` makes blocks of. -/
def manifestMemories (s : Store) (state : SessionState) (now : Time) : List MemoryItem :=
  let items := sortMemories (activeMemories s state now)
  items.filter fun m => !(supersededIDs items).contains m.id

def memoryBlock (m : MemoryItem) : List Block :=
  appendBlock p blocks (bytesOf "memory") m.id
    (bytesOf "[memory " ++ m.kind ++ bytesOf " " ++ m.id ++ bytesOf "] " ++ m.content)
    (bytesOf "active_frontier") (bytesOf "source_turn") (bytesOf "memory_priority") false
    (metadata [("scope", m.scope.text), ("fingerprint", m.fingerprint)])

/-- A tool call of which the transcript has one side only. -/
def incompleteToolCall (callID : Bytes) : Bool :=
  let has (status : String) := turns.any fun t =>
    t.toolCallID == callID && t.toolStatus == bytesOf status
  !has "before" || !has "after"

def latestUser : Int :=
  turns.foldl (fun latest t => if t.role = .user then max latest t.sequence else latest) 0

def turnMandatory (t : Turn) : Bool :=
  t.role == .system || (t.role == .user && t.sequence == latestUser turns) ||
    (t.toolCallID != [] && incompleteToolCall turns t.toolCallID)

def promptKind (t : Turn) : String :=
  if t.role = .system then "system_policy"
  else if t.role = .user ∧ t.sequence = latestUser turns then "latest_objective"
  else if t.toolCallID ≠ [] then "tool_schema"
  else "context_memory"

end

def transcriptBlock (state : SessionState) (blocks : List Block) (t : Turn) : List Block :=
  let mandatory := turnMandatory state.turns t
  if turnArchived state.archives t.sequence && !mandatory then blocks
  else
    appendBlock p blocks (bytesOf "turn") t.id (t.role.text ++ bytesOf ": " ++ t.content)
      (bytesOf "transcript") (bytesOf "hash_chain")
        (bytesOf "latest_objective_or_transaction") mandatory
      (metadata [("sequence", intText t.sequence), ("turn_hash", t.hash),
        ("tool_call_id", t.toolCallID),
        ("tool_status", t.toolStatus), ("prompt_kind", bytesOf (promptKind state.turns t))])

/-- The blocks that `compileManifest` gives to the context compiler. -/
def contextBlocks (s : Store) (state : SessionState) (now : Time) : List Block :=
  let blocks := state.archives.foldl (archiveBlock p) []
  let blocks := (manifestMemories s state now).foldl (memoryBlock p) blocks
  state.turns.foldl (transcriptBlock p state) blocks

structure MemoryReduction where
  added : List MemoryItem := []
  superseded : List Bytes := []
  conflicts : List Bytes := []
  sourceTurns : List Bytes := []

def sameSubject (item : MemoryItem) (now : Time) (old : MemoryItem) : Bool :=
  old.scope == item.scope && old.kind == item.kind &&
    memorySubject p old.content == memorySubject p item.content && memoryActive old now

def restates (item old : MemoryItem) : Bool :=
  old.fingerprint == item.fingerprint ||
    foldEqual p.fold (Event.trimSpace old.content) (Event.trimSpace item.content)

/-- The loop over the memories of a subject: the first that says the same as the claim, and the
ids of those before it. -/
def scanClaims (item : MemoryItem) : List MemoryItem → Option MemoryItem × List Bytes
  | [] => (none, [])
  | old :: rest =>
    if restates p item old then (some old, [])
    else
      let (found, superseded) := scanClaims item rest
      (found, old.id :: superseded)

def claimItem (sessionID : Bytes) (sourceIDs : List Bytes) (claim : ParsedClaim) : MemoryItem :=
  { sessionID, scope := .session, kind := claim.kind, content := claim.content, sourceIDs,
    confidence := claim.confidence, importance := claim.importance,
    fingerprint := memoryFingerprint p claim.kind claim.content }

variable {δ : Type} (io : Storage δ)

structure Reducing (δ : Type) where
  existing : List MemoryItem
  reduction : MemoryReduction
  world : World δ

def reduceClaim (sessionID : Bytes) (sourceIDs : List Bytes) (r : Reducing δ) (claim : ParsedClaim)
    (stamp : Stamp) : Reducing δ × Option Error :=
  let item := claimItem p sessionID sourceIDs claim
  let (found, superseded) := scanClaims p item (r.existing.filter (sameSubject p item stamp.time))
  let reduction := { r.reduction with
    superseded := r.reduction.superseded ++ superseded
    conflicts := r.reduction.conflicts ++ superseded }
  if (found.elim [] (·.id)) != [] then ({ r with reduction }, none)
  else match r.world.perform io
      (r.world.store.addMemory p { item with supersedes := superseded } stamp.time stamp) with
    | (.error e, world) => ({ r with reduction, world }, some e)
    | (.ok saved, world) =>
      (⟨r.existing ++ [saved], { reduction with added := reduction.added ++ [saved] }, world⟩, none)

/-- The claims one after the other, with the stamps of each. -/
def reduceClaims (sessionID : Bytes) (sourceIDs : List Bytes) (stamps : Nat → Stamp) :
    Nat → Reducing δ → List ParsedClaim → Reducing δ × Option Error
  | _, r, [] => (r, none)
  | i, r, claim :: rest =>
    match reduceClaim p io sessionID sourceIDs r claim (stamps i) with
    | (r, some e) => (r, some e)
    | (r, none) => reduceClaims sessionID sourceIDs stamps (i + 1) r rest

/-- What `ReduceMemories` starts from, when it does not refuse the request. -/
def startReducing (w : World δ) (sessionID : Bytes) (sourceIDs : List Bytes) (content : Bytes) :
    Except Error (Reducing δ) := do
  ensure (!sourceIDs.isEmpty && !isBlank content) (errorText "source_ids and content are required")
  let some state := w.store.sessions[sessionID]? | throw Sentinel.notFound.error
  eachOk (fun source => ensure (hasTurnID state.turns source)
    (Sentinel.corrupt.because (bytesOf "memory source turn " ++ source ++ bytesOf " is missing")))
    sourceIDs
  ensure (!(parseClaims p content).isEmpty) (errorText "no memory claims found")
  return ⟨visibleMemories w.store state, { sourceTurns := sourceIDs }, w⟩

def World.reduceMemories (w : World δ) (sessionID : Bytes) (sourceIDs : List Bytes)
    (content : Bytes)
    (stamps : Nat → Stamp) : MemoryReduction × Option Error × World δ :=
  let sourceIDs := uniqueNonEmpty sourceIDs
  match startReducing p w sessionID sourceIDs content with
  | .error e => ({}, some e, w)
  | .ok r =>
    let (r, failure) := reduceClaims p io sessionID sourceIDs stamps 0 r (parseClaims p content)
    (r.reduction, failure, r.world)

end Adro.Harness
