import Adro.Harness.Model
import Adro.Go.Json

/-!
# Memories

The claims a session remembers: their fingerprints and subjects, which of them
are active, in which order they are listed, and how a text is read as claims.
The order is that of a stable sort; it is the source's for importances that are
numbers.
-/

namespace Adro.Harness

open Adro.Go

variable (p : Platform)

def normalizeMemoryText (content : Bytes) : List Char :=
  joined [' '] (fields (lowered p.lower (Event.trimSpace content)))

def memoryFingerprint (kind content : Bytes) : Bytes :=
  digest p (utf8 (lowered p.lower (Event.trimSpace kind)) ++
    0 :: utf8 (normalizeMemoryText p content))

def subjectMarkers : List String := ["=", " must ", " should ", " can ", " is ", " are ", " -> "]

/-- What a claim is about: the text before the first marker that has one, or
the first three words. -/
def memorySubject (content : Bytes) : List Char :=
  let normalized := normalizeMemoryText p content
  let heads := subjectMarkers.filterMap fun marker =>
    (beforeFirst marker.toList normalized).filter fun head => !head.isEmpty
  match heads with
  | head :: _ => trimChars head
  | [] => joined [' '] ((fields normalized).take 3)

def evidenceHash (sourceIDs : List Bytes) (content : Bytes) : Bytes :=
  digest p (joined [0] sourceIDs ++ 0 :: content)

structure ParsedClaim where
  kind : Bytes
  content : Bytes
  confidence : F64
  importance : F64
  deriving DecidableEq

def claimKinds : List String := ["fact", "constraint", "decision", "invariant", "preference"]

/-- The kind that a line starts with, and the rest of the line. The prefix is found in the
lower case of the line and cut off the line itself. -/
def splitKind (line : Bytes) : Bytes × Bytes :=
  match claimKinds.find? fun kind => (kind.toList ++ [':']).isPrefixOf (lowered p.lower line) with
  | some kind => (bytesOf kind, Event.trimSpace (line.drop (bytesOf kind ++ bytesOf ":").length))
  | none => (bytesOf "fact", line)

def parseClaim (raw : Bytes) : Option ParsedClaim :=
  let line := Event.trimSpace raw
  if line == [] || (bytesOf "#").isPrefixOf line then none
  else
    let (kind, content) := splitKind p line
    if content == [] then none
    else some ⟨kind, content, .round (4 / 5), .round (3 / 5)⟩

def parseClaims (content : Bytes) : List ParsedClaim :=
  (lines (unixLines content)).filterMap (parseClaim p)

def uniqueNonEmpty (values : List Bytes) : List Bytes :=
  (values.map Event.trimSpace).foldl
    (fun found value => if value == [] || found.contains value then found else found ++ [value]) []

def memoryActive (m : MemoryItem) (now : Time) : Bool :=
  m.status == .confirmed && m.expiresAt.all fun t => decide (now < t)

def memoryTransitionAllowed (source target : MemoryStatus) : Bool :=
  let source := if source = .other [] then .confirmed else source
  source == target || match source with
    | .candidate => target == .quarantined || target == .confirmed || target == .rejected
    | .quarantined => target == .candidate || target == .confirmed || target == .rejected
    | .confirmed => target == .superseded || target == .forgotten
    | _ => false

def memoryScopeRank : MemoryScope → Nat
  | .working => 0
  | .session => 1
  | .project => 2
  | .other _ => 3

def memoryLess (a b : MemoryItem) : Bool :=
  if a.pinned != b.pinned then a.pinned
  else if !a.importance.eq b.importance then b.importance.lt a.importance
  else if memoryScopeRank a.scope != memoryScopeRank b.scope then
    decide (memoryScopeRank a.scope < memoryScopeRank b.scope)
  else if a.createdAt = b.createdAt then bytesLess a.id b.id
  else decide (a.createdAt < b.createdAt)

def sortMemories (items : List MemoryItem) : List MemoryItem :=
  items.insertionSort fun a b => memoryLess b a = false

def supersededIDs (items : List MemoryItem) : List Bytes := items.flatMap (·.supersedes)

def activeMemoryFrontier (items : List MemoryItem) (now : Time) : List MemoryItem :=
  sortMemories (items.filter fun m => !(supersededIDs items).contains m.id && memoryActive m now)

end Adro.Harness
