import Adro.Harness.Memory
import Adro.Harness.Transcript

/-!
# Valid sessions

`validateSessionState`: the checks that `New`, `Recover` and `VerifyTranscript`
make of a session, in the order of the source.
-/

namespace Adro.Harness

open Adro.Go

variable (p : Platform)

/-- The transcript from an index on, after the turn of a hash. -/
def validateTurns (sessionID : Bytes) : Nat → Bytes → List Turn → Except Error Unit
  | _, _, [] => .ok ()
  | i, previous, t :: rest => do
    ensure (t.id != [] && t.sessionID == sessionID && t.sequence == (i + 1 : Nat) &&
        validRole t.role && !isBlank t.content && t.hash != [] && t.prevHash == previous &&
        hashTurn p t == t.hash)
      (Sentinel.corrupt.because (bytesOf "transcript chain at sequence " ++ intText (i + 1 : Nat)))
    validateTurns sessionID (i + 1) t.hash rest

/-- What the loop over the checkpoints carries: the checkpoint before, the last phase of each
tool call and whether a compaction is open. -/
structure CheckpointScan where
  previous : Option Checkpoint := none
  phases : ByteMap CheckpointPhase := ∅
  isOpen : Bool := false

def scanPhases (phases : ByteMap CheckpointPhase) (c : Checkpoint) :
    Except Error (ByteMap CheckpointPhase) :=
  if c.toolCallID == [] then .ok phases
  else match c.phase with
    | .toolBefore => do
      ensure (phases[c.toolCallID]?.isNone)
        (Sentinel.corrupt.because (bytesOf "duplicate tool-before checkpoint " ++ c.id))
      return phases.insert c.toolCallID c.phase
    | .toolAfter => do
      ensure (phases[c.toolCallID]? == some .toolBefore)
        (Sentinel.corrupt.because (bytesOf "tool-after checkpoint " ++
          c.id ++ bytesOf " has no before phase"))
      return phases.insert c.toolCallID c.phase
    | _ => .ok phases

def scanBracket (isOpen : Bool) (c : Checkpoint) : Except Error Bool :=
  match c.phase with
  | .compactionBegin => do
    ensure (!isOpen) (Sentinel.corrupt.because (bytesOf "duplicate compaction begin " ++ c.id))
    return true
  | .compactionDone => do
    ensure isOpen
      (Sentinel.corrupt.because (bytesOf "compaction done " ++ c.id ++ bytesOf " has no begin"))
    return false
  | _ => .ok isOpen

section

variable (state : SessionState) (m : MemoryItem)

def scanCheckpoint (scan : CheckpointScan) (c : Checkpoint) : Except Error CheckpointScan := do
  ensure (c.id != [] && c.sessionID == state.session.id && c.phase.valid &&
      decide (0 ≤ c.turnSequence) && decide (0 < c.contextVersion) && c.hash != [] &&
      hashCheckpoint p c == c.hash && decide (c.turnSequence ≤ state.turns.length) &&
      (scan.previous.all fun previous => decide (previous.turnSequence ≤ c.turnSequence)) &&
      (scan.previous.all fun previous => decide (previous.contextVersion ≤ c.contextVersion)) &&
      c.prevHash == scan.previous.elim [] (·.hash))
    (Sentinel.corrupt.because (bytesOf "checkpoint " ++ c.id))
  ensure (c.eventHash == [] || hasTurnHash state.turns c.eventHash)
    (Sentinel.corrupt.because (bytesOf "checkpoint event hash " ++ c.eventHash))
  let phases ← scanPhases scan.phases c
  let isOpen ← scanBracket scan.isOpen c
  return ⟨some c, phases, isOpen⟩

def validateArchive (earlier : List ArchiveWindow) (a : ArchiveWindow) : Except Error Unit := do
  ensure (a.sessionID == state.session.id && decide (1 ≤ a.startSequence) &&
      decide (a.startSequence ≤ a.endSequence) && decide (a.endSequence ≤ state.turns.length))
    (Sentinel.corrupt.because (bytesOf "archive " ++ a.id))
  ensure (a.sourceHash == digest p (archiveSource state.turns a.startSequence a.endSequence) &&
      a.replacementHash == digest p (Event.trimSpace a.summary))
    (Sentinel.corrupt.because (bytesOf "archive digest " ++ a.id))
  ensure (a.compression.algorithm == [] || (a.compression.sourceHash == a.sourceHash &&
      a.compression.summaryHash == a.replacementHash && !outsideUnit a.compression.qualityScore &&
      !isBlank a.compression.version && !isBlank a.compression.replayKey))
    (Sentinel.corrupt.because (bytesOf "archive compression record " ++ a.id))
  ensure (earlier.getLast?.all fun previous => a.parentArchiveID == previous.id)
    (Sentinel.corrupt.because (bytesOf "archive parent " ++ a.id))
  ensure (earlier.all fun other =>
      !(decide (a.startSequence ≤ other.endSequence) &&
        decide (other.startSequence ≤ a.endSequence)))
    (Sentinel.corrupt.because (bytesOf "overlapping archive " ++ a.id))

def validateArchives (state : SessionState) :
    List ArchiveWindow → List ArchiveWindow → Except Error Unit
  | _, [] => .ok ()
  | earlier, a :: rest => do
    validateArchive p state earlier a
    validateArchives state (earlier ++ [a]) rest

/-- The checks of the content of a memory, in a session or in a project. -/
def soundMemory : Bool :=
  !isBlank m.content && !outsideUnit m.confidence && !outsideUnit m.importance &&
    !outsideUnit m.qualityScore && validMemoryStatus m.status &&
    (m.fingerprint == [] || m.fingerprint == memoryFingerprint p m.kind m.content)

def soundEvidence : Bool :=
  m.evidenceHash == [] || m.evidenceHash == evidenceHash p m.sourceIDs m.content

def validateMemory : Except Error Unit := do
  ensure (m.id != [] && m.sessionID == state.session.id && m.scope != .project && soundMemory p m)
    (Sentinel.corrupt.because (bytesOf "memory " ++ m.id))
  eachOk (fun source => ensure (hasTurnID state.turns source)
    (Sentinel.corrupt.because (bytesOf "memory source " ++ source))) m.sourceIDs
  ensure (soundEvidence p m) (Sentinel.corrupt.because (bytesOf "memory evidence " ++ m.id))

def validateSessionState : Except Error Unit := do
  ensure (state.session.id != [] && state.session.tenantID != [] &&
    state.session.workspaceID != [] &&
      decide (0 < state.session.contextVersion)) Sentinel.corrupt.error
  validateTurns p state.session.id 0 [] state.turns
  let _ ← state.checkpoints.foldlM (scanCheckpoint p state) {}
  validateArchives p state [] state.archives
  eachOk (validateMemory p state) state.memories

end

end Adro.Harness
