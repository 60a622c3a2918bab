import Adro.Go.Value

/-!
# The data of the runtime journal

Events, leases, the file's contents and the contracts of tools. A payload is a
value with the digest of its text, which the platform computes; so is the digest
of an event's envelope. The file holds what was encoded into it: every text is
valid UTF-8 and every instant can be written.
-/

namespace Adro.Runtime

open Adro.Go

inductive Sentinel
  | corrupt
  | conflict
  | idempotencyConflict
  | leaseBusy
  | leaseLost
  | unauthorized
  | approvalRequired
  | toolExecution
  | effectOutcomeUnknown
  deriving DecidableEq, Repr

def Sentinel.text : Sentinel → String
  | .corrupt => "runtime journal is corrupt"
  | .conflict => "runtime journal conflict"
  | .idempotencyConflict => "runtime idempotency key conflict"
  | .leaseBusy => "runtime lease is held by another owner"
  | .leaseLost => "runtime lease is no longer owned"
  | .unauthorized => "runtime tool is not authorized"
  | .approvalRequired => "runtime tool approval is required"
  | .toolExecution => "runtime tool execution failed"
  | .effectOutcomeUnknown => "runtime effect outcome is unknown"

abbrev Error := GoError Sentinel

def Sentinel.error (s : Sentinel) : Error := ⟨some s, s.text⟩

/-- The verb `%w` in front of a detail. -/
def Sentinel.wrap (s : Sentinel) (detail : String) : Error := ⟨some s, s.text ++ ": " ++ detail⟩

def failure (text : String) : Error := ⟨none, text⟩

inductive EventType
  | turnStarted
  | turnFinished
  | turnCheckpointed
  | toolAuthorized
  | toolStarted
  | toolApproved
  | toolFinished
  | toolFailed
  | toolCancelled
  | toolRetried
  | interaction
  | usage
  | effectIntent
  | effectPrepared
  | effectDispatched
  | effectReceipted
  | effectUnknown
  | effectReconciled
  | other (name : String)
  deriving DecidableEq, Repr

namespace EventType

def text : EventType → String
  | .turnStarted => "turn.started"
  | .turnFinished => "turn.finished"
  | .turnCheckpointed => "turn.checkpointed"
  | .toolAuthorized => "tool.authorized"
  | .toolStarted => "tool.started"
  | .toolApproved => "tool.approved"
  | .toolFinished => "tool.finished"
  | .toolFailed => "tool.failed"
  | .toolCancelled => "tool.cancelled"
  | .toolRetried => "tool.retried"
  | .interaction => "interaction.accepted"
  | .usage => "usage.recorded"
  | .effectIntent => "effect.intent_committed"
  | .effectPrepared => "effect.dispatch_prepared"
  | .effectDispatched => "effect.dispatched"
  | .effectReceipted => "effect.receipted"
  | .effectUnknown => "effect.outcome_unknown"
  | .effectReconciled => "effect.reconciled"
  | .other name => name

def known : List EventType :=
  [.turnStarted, .turnFinished, .turnCheckpointed, .toolAuthorized, .toolStarted, .toolApproved,
    .toolFinished, .toolFailed, .toolCancelled, .toolRetried, .interaction, .usage, .effectIntent,
    .effectPrepared, .effectDispatched, .effectReceipted, .effectUnknown, .effectReconciled]

def ofText (s : String) : EventType := (known.find? (·.text == s)).getD (.other s)

def trimmed (t : EventType) : EventType := ofText (trimSpace t.text)

end EventType

inductive Status
  | unset
  | pending
  | committed
  | rejected
  | recoveryNeeded
  | other (name : String)
  deriving DecidableEq, Repr

def Status.known : Status → Bool
  | .pending | .committed | .rejected | .recoveryNeeded => true
  | _ => false

structure Scope where
  tenantID : String
  workspaceID : String
  sessionID : String
  runID : String
  deriving DecidableEq, Repr

def Scope.valid (s : Scope) : Bool :=
  !blank s.tenantID && !blank s.workspaceID && !blank s.sessionID && !blank s.runID

def Scope.leaseKey (s : Scope) : String :=
  s.tenantID ++ "\x00" ++ s.workspaceID ++ "\x00" ++ s.runID

def scopedKey (s : Scope) (key : String) : String :=
  s.tenantID ++ "\x00" ++ s.workspaceID ++ "\x00" ++ s.sessionID ++ "\x00" ++
    s.runID ++ "\x00" ++ key

structure Event where
  eventID : String
  schemaVersion : Int
  sequence : Int
  eventType : EventType
  aggregateType : String
  aggregateID : String
  scope : Scope
  correlationID : String := ""
  causationID : String := ""
  idempotencyKey : String := ""
  writerID : String
  fencingToken : Int
  status : Status
  payload : Value
  payloadHash : String
  previousHash : String
  envelopeHash : String := ""
  createdAt : Time
  committedAt : Time

structure Input where
  eventType : EventType
  aggregateType : String
  aggregateID : String
  scope : Scope
  correlationID : String := ""
  causationID : String := ""
  idempotencyKey : String := ""
  writerID : String := ""
  fencingToken : Int := 0
  status : Status := .unset
  payload : Value := .null

/-- The encoder and the hash. `payloadDigest` is the digest of a value's
compact text, absent where the encoder refuses the value; `envelopeDigest` reads
an event without its own digest; `decoded` is what a value's text decodes to;
`lower` is `strings.ToLower`. -/
structure Platform where
  payloadDigest : Value → Option String
  envelopeDigest : Event → String
  decoded : Value → Value
  lower : String → String

def schemaVersion : Int := 1

/-- A member of an object, of two with one name the later. -/
def member (payload : Value) (name : String) : Option Value :=
  match payload with
  | .obj members => (members.reverse.find? (·.1 == name)).map Prod.snd
  | _ => none

def textMember (payload : Value) (name : String) : String :=
  match member payload name with
  | some (.str s) => s
  | _ => ""

structure Lease where
  key : String
  owner : String
  fencingToken : Int
  expiresAt : Time
  updatedAt : Time
  deriving DecidableEq, Repr

/-- `journalState`; an empty map is not written, and read back as none at all. -/
structure State where
  version : Int
  revision : Int
  events : List Event
  leases : GoMap Lease
  effects : GoMap String

/-- A `Journal` on a file: what it holds of the file since it last read it. -/
structure Journal where
  revision : Int := 0
  events : List Event := []
  leases : GoMap Lease := ∅
  effects : GoMap String := ∅

inductive EffectClass
  | readOnly
  | idempotentWrite
  | reconcilableWrite
  | nonRetriableWrite
  | other (name : String)
  deriving DecidableEq, Repr

namespace EffectClass

def valid : EffectClass → Bool
  | .other _ => false
  | _ => true

def text : EffectClass → String
  | .readOnly => "read_only"
  | .idempotentWrite => "idempotent_write"
  | .reconcilableWrite => "reconcilable_write"
  | .nonRetriableWrite => "non_retriable_write"
  | .other name => name

def ofText (s : String) : EffectClass :=
  ([.readOnly, .idempotentWrite, .reconcilableWrite, .nonRetriableWrite].find?
    (·.text == s)).getD (.other s)

end EffectClass

inductive ReconcilePolicy
  | unset
  | none
  | query
  | compensate
  | human
  | unrecoverable
  | other (name : String)
  deriving DecidableEq, Repr

namespace ReconcilePolicy

def valid : ReconcilePolicy → Bool
  | .unset | .other _ => false
  | _ => true

def text : ReconcilePolicy → String
  | .unset => ""
  | .none => "none"
  | .query => "query"
  | .compensate => "compensate"
  | .human => "human_decision"
  | .unrecoverable => "unrecoverable"
  | .other name => name

def ofText (s : String) : ReconcilePolicy :=
  ([.unset, .none, .query, .compensate, .human, .unrecoverable].find? (·.text == s)).getD (.other s)

/-- `reconcileDecisionAllowed`. -/
def allows : ReconcilePolicy → String → Bool
  | .query, decision => decision == "confirmed" || decision == "not_found"
  | .compensate, decision => decision == "compensated" || decision == "not_found"
  | .human, decision => decision == "human_resolved"
  | .unrecoverable, decision => decision == "unrecoverable"
  | _, _ => false

end ReconcilePolicy

def reconcilePolicyForClass (c : EffectClass) : ReconcilePolicy :=
  if c == .readOnly then .none else .human

def validateReconcilePolicy (c : EffectClass) (policy : ReconcilePolicy) : Except Error Unit :=
  if c == .readOnly && policy == .unset then .ok ()
  else do
    ensure policy.valid (failure "valid reconcile_policy is required")
    ensure (!(c == .readOnly && policy != .none))
      (failure "read_only effects must use reconcile_policy none")
    ensure (!(c != .readOnly && policy == .none))
      (failure "write effects require an explicit reconcile_policy")

structure ToolContract where
  name : String
  sideEffectClass : EffectClass
  reconcilePolicy : ReconcilePolicy := .unset
  maxRetries : Int := 0
  requiresApproval : Bool := false
  deriving DecidableEq, Repr

structure ToolState where
  name : String := ""
  authorized : Bool := false
  started : Bool := false
  approved : Option Bool := none
  finished : Bool := false
  cancelled : Bool := false
  attempts : Int := 0
  lastEventID : String := ""
  reasonCode : String := ""
  deriving DecidableEq, Repr

structure EffectState where
  toolCallID : String := ""
  sideEffectClass : EffectClass := .other ""
  reconcilePolicy : ReconcilePolicy := .unset
  intentCommitted : Bool := false
  dispatchPrepared : Bool := false
  dispatched : Bool := false
  receipted : Bool := false
  outcomeUnknown : Bool := false
  reconciled : Bool := false
  reconcileDecision : String := ""
  reconcileOutput : Value := .null
  lastEventID : String := ""

end Adro.Runtime
