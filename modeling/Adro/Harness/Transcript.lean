import Adro.Harness.Model
import Adro.Go.Json

/-!
# Turns, checkpoints and archives

How a turn is appended to a session, a checkpoint saved and a window of turns
replaced by a summary, at the caller's request or when the turns exceed the
token budget. The summarizer and the tokenizer are those that are installed in
the store. A function that fails leaves the session as it was: the source drops
the copy it worked on.
-/

namespace Adro.Harness

open Adro.Go

variable (p : Platform)

def Checkpoint.replays (existing c : Checkpoint) : Bool :=
  existing.turnSequence == c.turnSequence && existing.phase == c.phase &&
    existing.eventHash == c.eventHash && existing.toolCallID == c.toolCallID &&
    existing.contextVersion == c.contextVersion && existing.state == c.state &&
    existing.outboxIDs == c.outboxIDs && existing.leaseIDs == c.leaseIDs

/-- What the request says of the generated fields is what is stored. -/
def Checkpoint.describes (existing c : Checkpoint) : Bool :=
  (c.id == [] || c.id == existing.id) && (c.sessionID == [] || c.sessionID == existing.sessionID) &&
    (c.prevHash == [] || c.prevHash == existing.prevHash) &&
    (c.hash == [] || c.hash == existing.hash) &&
    (Time.isZero c.createdAt || c.createdAt == existing.createdAt)

section

variable (state : SessionState) (checkpoints : List Checkpoint) (c : Checkpoint)

def hasToolPhase (callID : Bytes) (phase : CheckpointPhase) : Bool :=
  checkpoints.any fun c => c.toolCallID == callID && c.phase == phase

/-- A tool call has one checkpoint before it and then one after it. -/
def checkPairing : Except Error Unit :=
  if c.toolCallID == [] then .ok ()
  else
    let before := hasToolPhase checkpoints c.toolCallID .toolBefore
    let after := hasToolPhase checkpoints c.toolCallID .toolAfter
    match c.phase with
    | .toolBefore =>
      ensure (!before) (Sentinel.conflict.because (bytesOf "tool checkpoint is already open"))
    | .toolAfter =>
      ensure (before && !after)
        (Sentinel.conflict.because (bytesOf "tool checkpoint has no unique before phase"))
    | _ => .ok ()

def opensCompaction (isOpen : Bool) (c : Checkpoint) : Bool :=
  match c.phase with
  | .compactionBegin => true
  | .compactionDone => false
  | _ => isOpen

def compactionOpen : Bool := checkpoints.foldl opensCompaction false

def checkBracketing : Except Error Unit :=
  match c.phase with
  | .compactionBegin =>
    ensure (!compactionOpen checkpoints)
      (Sentinel.conflict.because (bytesOf "compaction checkpoint is already open"))
  | .compactionDone =>
    ensure (compactionOpen checkpoints)
      (Sentinel.conflict.because (bytesOf "compaction checkpoint has no begin phase"))
  | _ => .ok ()

def lastHash : Bytes := checkpoints.getLast?.elim [] (·.hash)

def sealCheckpoint (stamp : Stamp) : Checkpoint :=
  let id := Event.trimSpace c.id
  let c := { c with
    id := if id == [] then stamp.id else id
    sessionID := state.session.id
    prevHash := lastHash state.checkpoints
    createdAt := stamp.time }
  { c with hash := hashCheckpoint p c }

def SessionState.addCheckpoint : SessionState :=
  { state with checkpoints := state.checkpoints ++ [c], session.updatedAt := c.createdAt }

/-- A checkpoint without a context version is one of the session's. -/
def Checkpoint.ofSession (session : Session) : Checkpoint :=
  if c.contextVersion = 0 then { c with contextVersion := session.contextVersion } else c

def saveCheckpointLocked (stamp : Stamp) : Except Error (Checkpoint × SessionState) := do
  ensure (c.phase.valid && decide (0 ≤ c.turnSequence) && decide (0 ≤ c.contextVersion))
    (errorText "invalid checkpoint phase, turn sequence, or context version")
  let c := c.ofSession state.session
  ensure (decide (0 < c.contextVersion)) (errorText "invalid checkpoint context version")
  ensure (decide (c.turnSequence ≤ state.turns.length)) Sentinel.conflict.error
  ensure (c.eventHash == [] || hasTurnHash state.turns c.eventHash)
    (Sentinel.corrupt.because (bytesOf "checkpoint event hash is not in the transcript"))
  match state.checkpoints.find? (·.replays c) with
  | some existing =>
    ensure (existing.describes c)
      (Sentinel.corrupt.because
        (bytesOf "replayed checkpoint identity or chain fields do not match"))
    return (existing, state)
  | none =>
    let last := state.checkpoints.getLast?
    ensure (last.all fun l => decide (l.turnSequence ≤ c.turnSequence)) Sentinel.conflict.error
    ensure (last.all fun l => decide (l.contextVersion ≤ c.contextVersion)) Sentinel.conflict.error
    ensure (c.prevHash == [] || c.prevHash == lastHash state.checkpoints)
      (Sentinel.corrupt.because (bytesOf "checkpoint previous hash does not match the chain"))
    checkPairing state.checkpoints c
    checkBracketing state.checkpoints c
    let saved := sealCheckpoint p state c stamp
    return (saved, state.addCheckpoint saved)

end

structure Tokenizer where
  id : Bytes
  estimate : Bytes → Int

/-- `contextcontract.Block`. -/
structure Block where
  id : Bytes
  kind : Bytes
  source : Bytes
  content : Bytes
  hash : Bytes := []
  policy : Bytes
  trust : Bytes
  selectionReason : Bytes
  tokenEstimate : Int
  mandatory : Bool := false
  metadata : ByteMap Bytes := ∅

structure SummaryRequest where
  blocks : List Block
  targetTokens : Int
  tokenizerID : Bytes
  estimate : Bytes → Int

structure SummaryResult where
  content : Bytes
  retainedFacts : List Bytes
  droppedFacts : List Bytes
  qualityScore : F64

/-- The summarizer and the tokenizer of a store. A summarizer returns a result
and the text of an error, if it has one. -/
structure Config where
  tokenizer : Tokenizer
  summarize : SummaryRequest → SummaryResult × Option Bytes

def tokenEstimate (content : Bytes) : Int :=
  ((runes (Event.trimSpace content)).length + 3) / 4

def rune4Tokenizer : Tokenizer := ⟨bytesOf "rune4-v1", tokenEstimate⟩

/-- A tokenizer without an id is replaced by the default one. -/
def Config.tokens (cfg : Config) : Tokenizer :=
  if isBlank cfg.tokenizer.id then rune4Tokenizer else cfg.tokenizer

def Tokenizer.total (t : Tokenizer) (turns : List Turn) : Int :=
  turns.foldl (fun total turn => i64 (total + t.estimate turn.content)) 0

/-- The words of `summaryCoverage`. -/
def semanticWords (value : Bytes) : List (List Char) :=
  fieldsBy (fun r => !('a' ≤ r && r ≤ 'z') && !('0' ≤ r && r ≤ '9') &&
    !(0x4e00 ≤ r.toNat && r.toNat ≤ 0x9fff)) (lowered p.lower value)

/-- The words that are left and the number of those found, after the words of a summary. -/
def retainWords (source : List (List Char)) (words : List (List Char)) : List (List Char) × Nat :=
  words.foldl (fun found word =>
    if found.1.contains word then (found.1.erase word, found.2 + 1) else found) (source, 0)

def inWindow (start stop : Int) (turns : List Turn) : List Turn :=
  turns.filter fun t => decide (start ≤ t.sequence) && decide (t.sequence ≤ stop)

/-- `summaryCoverage` of the turns of a window. -/
def summaryCoverage (turns : List Turn) (start stop : Int) (summary : Bytes) : F64 :=
  let source := ((inWindow start stop turns).flatMap fun t => semanticWords p t.content).dedup
  if source.isEmpty then .finite 1
  else
    let found := retainWords source (semanticWords p summary)
    F64.ratio found.2 (found.2 + found.1.length : Nat)

/-- The lines of `automaticSummary`, up to a length in runes that is measured in bytes. -/
def summaryLines (maxRunes : Int) : Bytes → List Turn → Bytes
  | built, [] => built
  | built, turn :: turns =>
    let line := bytesOf "[" ++ intText turn.sequence ++ bytesOf " " ++ turn.role.text ++
      bytesOf "] " ++ Event.trimSpace turn.content ++ [newline]
    let remaining := maxRunes - built.length
    if remaining ≤ 0 then built
    else
      let line := if remaining < (runes line).length && 4 < remaining then
        utf8 ((runes line).take (remaining - 4).toNat) ++ bytesOf "...\n" else line
      summaryLines maxRunes (built ++ line) turns

def automaticSummary (turns : List Turn) (budget : Int) : Bytes :=
  let sourceRunes : Int := (turns.map fun t => ((runes t.content).length : Int) + 24).sum
  let budgetRunes := i64 (budget * 2)
  let maxRunes := sourceRunes / 3
  let maxRunes := if 0 < budgetRunes && budgetRunes < maxRunes then budgetRunes else maxRunes
  let maxRunes := min 12000 (max 96 maxRunes)
  Event.trimSpace (summaryLines maxRunes
    (bytesOf "Auto-archived transcript; full turns remain available for replay.\n") turns)

structure CompactRequest where
  startSequence : Int
  endSequence : Int
  summary : Bytes
  retainedTail : Int
  reason : Bytes
  compression : CompressionRecord := {}

section

variable (turns : List Turn) (state : SessionState) (r : CompactRequest)

/-- The text whose digest an archive keeps of the turns it replaces. -/
def archiveSource (start stop : Int) : Bytes :=
  (inWindow start stop turns).flatMap fun t => t.marshal ++ [newline]

/-- The record that is stored with an archive: what the request leaves open is filled in. -/
def completeCompression (sourceHash replacementHash : Bytes) : CompressionRecord :=
  let c := r.compression
  let c := if c.algorithm == [] then
    { algorithm := bytesOf "operator-summary", version := bytesOf "v1", sourceHash,
      summaryHash := replacementHash,
      qualityScore := summaryCoverage p turns r.startSequence r.endSequence r.summary,
      replayKey := sourceHash ++ bytesOf ":" ++ replacementHash } else c
  let c := if c.sourceHash == [] then { c with sourceHash } else c
  let c := if c.summaryHash == [] then { c with summaryHash := replacementHash } else c
  if c.replayKey == [] then { c with replayKey := c.sourceHash ++ bytesOf ":" ++
    c.summaryHash } else c

def sealArchive (stamp : Stamp) : ArchiveWindow :=
  let sourceHash := digest p (archiveSource state.turns r.startSequence r.endSequence)
  let replacementHash := digest p (Event.trimSpace r.summary)
  { id := stamp.id, sessionID := state.session.id, startSequence := r.startSequence,
    endSequence := r.endSequence, sourceHash, replacementHash,
    summary := Event.trimSpace r.summary, retainedTail := r.retainedTail,
    parentArchiveID := state.archives.getLast?.elim [] (·.id), reason := Event.trimSpace r.reason,
    compression := completeCompression p state.turns r sourceHash replacementHash,
    createdAt := stamp.time }

def SessionState.addArchive (a : ArchiveWindow) : SessionState :=
  { state with
    archives := state.archives ++ [a]
    session.contextVersion := state.session.contextVersion + 1
    session.updatedAt := a.createdAt }

def compactLocked (stamp : Stamp) : Except Error (ArchiveWindow × SessionState) := do
  ensure (decide (1 ≤ r.startSequence) && decide (r.startSequence ≤ r.endSequence) &&
      decide (r.endSequence ≤ state.turns.length) && !isBlank r.summary)
    (errorText "invalid compaction window or summary")
  ensure (decide (0 ≤ r.retainedTail)) (errorText "retained_tail cannot be negative")
  ensure (state.archives.all fun a =>
      !(decide (r.startSequence ≤ a.endSequence) && decide (a.startSequence ≤ r.endSequence)))
    Sentinel.windowUsed.error
  let archive := sealArchive p state r stamp
  return (archive, state.addArchive archive)

/-- The stamps of the two checkpoints around an archive and of the archive. -/
structure CompactionStamps where
  opening : Stamp
  archive : Stamp
  closing : Stamp
  deriving DecidableEq, Repr

def lastTurnHash : Bytes := turns.getLast?.elim [] (·.hash)

/-- The checkpoint around an archive, at the end of the transcript. -/
def compactionCheckpoint (phase : CheckpointPhase) (text : String) : Checkpoint :=
  { turnSequence := state.turns.length, phase, eventHash := lastTurnHash state.turns,
    contextVersion := state.session.contextVersion, state := bytesOf text }

/-- `Compact`, on the session. -/
def compact (stamps : CompactionStamps) : Except Error (ArchiveWindow × SessionState) := do
  let (_, state) ← saveCheckpointLocked p state
    (compactionCheckpoint state .compactionBegin "compaction pending") stamps.opening
  let (archive, state) ← compactLocked p state r stamps.archive
  let sourceTokens := rune4Tokenizer.total (inWindow r.startSequence r.endSequence state.turns)
  ensure (decide (sourceTokens < 16) || decide (tokenEstimate archive.summary < sourceTokens))
    (errorText "compaction summary does not reduce token estimate")
  let (_, state) ← saveCheckpointLocked p state
    (compactionCheckpoint state .compactionDone "compaction committed") stamps.closing
  return (archive, state)

end

def defaultThreshold : F64 := .round (4 / 5)

section

variable (cfg : Config) (t : Tokenizer) (state : SessionState)

def overBudget : Bool :=
  let threshold := state.session.compactionThreshold
  let threshold := if F64.le threshold (.finite 0) || F64.lt (.finite 1) threshold then
    defaultThreshold else threshold
  let total := t.total (state.turns.filter fun turn => !turnArchived state.archives turn.sequence)
  !F64.le (.ofInt total) (.mul (.ofInt state.session.budgetTokens) threshold)

/-- The first turns that no archive holds, up to the next one that an archive holds. -/
def activeTurns : List Turn :=
  (state.turns.dropWhile fun t => turnArchived state.archives t.sequence).takeWhile
    fun t => !turnArchived state.archives t.sequence

def retainTail (session : Session) : Nat := max 1 session.compactionRetainTail.toNat

/-- The turns that automatic compaction replaces, if it replaces any. -/
def selectedTurns : Option (List Turn) :=
  if !state.session.autoCompaction || decide (state.session.budgetTokens ≤ 0) ||
      state.turns.isEmpty || !overBudget t state then none
  else
    let active := activeTurns state
    let selected := active.take (active.length - retainTail state.session)
    if active.length ≤ retainTail state.session || decide (t.total selected < 16) then none
    else some selected

def turnBlock (turn : Turn) : Block :=
  { id := turn.id, kind := bytesOf "turn", source := turn.id, content := turn.content,
    policy := bytesOf "transcript", trust := bytesOf "hash_chain",
    selectionReason := bytesOf "automatic_compaction", tokenEstimate := t.estimate turn.content }

def summaryTarget (budget selectedTokens : Int) : Int :=
  let target := max 16 (selectedTokens / 3)
  if 0 < budget && budget / 2 < target then budget / 2 else target

/-- The summary of the selected turns and its record. A summary that fails, says too little
or does not get shorter is replaced by the first lines of the turns. -/
def summarizeTurns (budget : Int) (selected : List Turn) : Bytes × CompressionRecord :=
  let t := cfg.tokens
  let selectedTokens := t.total selected
  let (semantic, failure) := cfg.summarize
    { blocks := selected.map (turnBlock t), targetTokens := summaryTarget budget selectedTokens,
      tokenizerID := t.id, estimate := t.estimate }
  let summary := Event.trimSpace semantic.content
  let low := semantic.qualityScore.lt (.round (3 / 5))
  let record : CompressionRecord :=
    { sourceBlockIDs := selected.map (·.id), algorithm := bytesOf "semantic-extractive",
      version := bytesOf "v1", targetTokens := t.estimate summary,
      retainedFacts := semantic.retainedFacts, droppedFacts := semantic.droppedFacts,
      qualityScore := semantic.qualityScore }
  if failure.isSome || summary == [] || low || decide (selectedTokens ≤ t.estimate summary) then
    let summary := automaticSummary selected budget
    let start := selected.head?.elim 0 (·.sequence)
    let stop := selected.getLast?.elim 0 (·.sequence)
    (summary, { record with
      algorithm := bytesOf "deterministic-extractive-fallback"
      targetTokens := t.estimate summary
      qualityScore := summaryCoverage p selected start stop summary
      fallbackReason := match failure with
        | some text => bytesOf "summarizer_failed: " ++ text
        | none =>
          bytesOf (if low then "summary_quality_below_threshold" else "summary_did_not_reduce") })
  else (summary, record)

def automaticRequest (session : Session) (selected : List Turn) : CompactRequest :=
  let (summary, record) := summarizeTurns p cfg session.budgetTokens selected
  { startSequence := selected.head?.elim 0 (·.sequence)
    endSequence := selected.getLast?.elim 0 (·.sequence)
    summary, retainedTail := retainTail session, reason := bytesOf "automatic budget guard",
    compression := record }

def autoCompactLocked (stamps : CompactionStamps) :
    Except Error (Option ArchiveWindow × SessionState) :=
  match selectedTurns cfg.tokens state with
  | none => .ok (none, state)
  | some selected => do
    let request := automaticRequest p cfg state.session selected
    let (_, state) ← saveCheckpointLocked p state
      (compactionCheckpoint state .compactionBegin "automatic compaction pending") stamps.opening
    let (archive, state) ← compactLocked p state request stamps.archive
    let (_, state) ← saveCheckpointLocked p state
      (compactionCheckpoint state .compactionDone "automatic compaction committed") stamps.closing
    return (some archive, state)

end

structure TurnStamps where
  turn : Stamp
  compaction : CompactionStamps
  deriving DecidableEq, Repr

def sealTurn (turns : List Turn) (turn : Turn) (stamp : Stamp) : Turn :=
  let id := Event.trimSpace turn.id
  let turn := { turn with
    id := if id == [] then stamp.id else id
    sequence := turns.length + 1
    prevHash := lastTurnHash turns
    createdAt := stamp.time }
  { turn with hash := hashTurn p turn }

def SessionState.addTurn (state : SessionState) (turn : Turn) : SessionState :=
  { state with turns := state.turns ++ [turn], session.updatedAt := turn.createdAt }

def findTurn (turns : List Turn) (key : Bytes) : Option Turn :=
  if key == [] then none else turns.find? (·.idempotencyKey == key)

/-- What `AppendTurn` and `appendTurnLocked` do to the session: the turn, whether it was added
and the session after it. -/
def appendTurn (cfg : Config) (state : SessionState) (sessionID : Bytes) (turn : Turn)
    (stamps : TurnStamps) : Except Error (Turn × Bool × SessionState) := do
  ensure (validRole turn.role && !isBlank turn.content) (errorText "role and content are required")
  let turn := if turn.sessionID == [] then { turn with sessionID } else turn
  ensure (turn.sessionID == sessionID) Sentinel.conflict.error
  match findTurn state.turns turn.idempotencyKey with
  | some existing =>
    ensure (turnDigest p existing == turnDigest p turn) Sentinel.conflict.error
    return (existing, false, state)
  | none =>
    ensure (turn.sequence == 0 || turn.sequence == state.turns.length + 1) Sentinel.conflict.error
    let turn := sealTurn p state.turns turn stamps.turn
    let (_, state) ← (autoCompactLocked p cfg (state.addTurn turn) stamps.compaction).mapError
      (·.wrap "auto compact turn")
    return (turn, true, state)

def appendTurnLocked (cfg : Config) (state : SessionState) (sessionID : Bytes) (turn : Turn)
    (stamps : TurnStamps) : Except Error (Turn × Bool × SessionState) := do
  ensure (state.session.id == sessionID) Sentinel.notFound.error
  appendTurn p cfg state sessionID turn stamps

structure ToolStamps where
  before : TurnStamps
  beforeCheckpoint : Stamp
  after : TurnStamps
  afterCheckpoint : Stamp
  deriving DecidableEq, Repr

def toolTurn (callID name status content : Bytes) : Turn :=
  { role := .tool, content, toolName := name, toolCallID := callID, toolStatus := status,
    idempotencyKey := bytesOf "tool:" ++ callID ++ bytesOf ":" ++ status }

def toolCheckpoint (turn : Turn) (phase : CheckpointPhase) (callID : Bytes) (contextVersion : Int)
    (text : String) : Checkpoint :=
  { turnSequence := turn.sequence, phase, eventHash := turn.hash, toolCallID := callID,
    contextVersion, state := bytesOf text }

/-- The text of a side of a tool call, or a default where it is blank. -/
def orDefault (text : Bytes) (default : String) : Bytes :=
  let text := Event.trimSpace text
  if text == [] then bytesOf default else text

/-- What `RecordToolCall` returns and stores: the checkpoints, the turns it added and the
session after it. -/
structure ToolRecord where
  before : Checkpoint
  after : Checkpoint
  added : List Turn
  state : SessionState

/-- `RecordToolCall` on the session, for a call id and a name that are trimmed. -/
def recordToolCall (cfg : Config) (original : SessionState)
    (sessionID callID name input output : Bytes)
    (contextVersion : Int) (stamps : ToolStamps) : Except Error ToolRecord := do
  let version := if contextVersion ≤ 0 then original.session.contextVersion else contextVersion
  ensure (decide (0 < version)) (errorText "context version must be positive")
  let (before, beforeAdded, state) ← appendTurnLocked p cfg original sessionID
    (toolTurn callID name (bytesOf "before") (orDefault input "tool call")) stamps.before
  let (beforeCheckpoint, state) ← saveCheckpointLocked p state
    (toolCheckpoint before .toolBefore callID version "tool started") stamps.beforeCheckpoint
  let (after, afterAdded, state) ← appendTurnLocked p cfg state sessionID
    (toolTurn callID name (bytesOf "after") (orDefault output "tool completed")) stamps.after
  let (afterCheckpoint, state) ← saveCheckpointLocked p state
    (toolCheckpoint after .toolAfter callID version "tool completed") stamps.afterCheckpoint
  return ⟨beforeCheckpoint, afterCheckpoint,
    (if beforeAdded then [before] else []) ++ (if afterAdded then [after] else []), state⟩

end Adro.Harness
