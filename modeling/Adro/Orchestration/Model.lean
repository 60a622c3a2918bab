import Adro.Go.Value

/-!
# The orchestration data model

Graphs, frozen plans, attempts, repair contracts and the projection the
reducer maintains. Field names follow the source; a field's default is its
Go zero value. String-typed enumerations are inductive types with a
constructor for the values outside the declared constants where the code can
meet one. Fields no modelled function reads are left out.
-/

namespace Adro.Orchestration

open Adro.Go

inductive NodeKind
  | agent | squad | gate | human | merge | repair
  | other (name : String)
  deriving DecidableEq, Repr

inductive JoinPolicy
  | all | quorum | firstSuccess
  | other (name : String)
  deriving DecidableEq, Repr

inductive EdgeEvent
  | success | failure | timeout | approval | bug | cancel
  | other (name : String)
  deriving DecidableEq, Repr

inductive PlanStatus
  | unset | draft | validating | ready | waiting | running | terminal
  deriving DecidableEq, Repr, Inhabited

inductive AttemptStatus
  | unset | pending | ready | running | waiting | passed | failed | cancelled | timedOut
  deriving DecidableEq, Repr, Inhabited

inductive RepairLifecycle
  | unset | planned | dispatched | patched | verifying | verified | failed | exhausted
  deriving DecidableEq, Repr, Inhabited

def NodeKind.text : NodeKind → String
  | .agent => "agent"
  | .squad => "squad"
  | .gate => "gate"
  | .human => "human"
  | .merge => "merge"
  | .repair => "repair"
  | .other name => name

def PlanStatus.text : PlanStatus → String
  | .unset => ""
  | .draft => "draft"
  | .validating => "validating"
  | .ready => "ready"
  | .waiting => "waiting"
  | .running => "running"
  | .terminal => "terminal"

def AttemptStatus.text : AttemptStatus → String
  | .unset => ""
  | .pending => "pending"
  | .ready => "ready"
  | .running => "running"
  | .waiting => "waiting"
  | .passed => "passed"
  | .failed => "failed"
  | .cancelled => "cancelled"
  | .timedOut => "timed_out"

def RepairLifecycle.text : RepairLifecycle → String
  | .unset => ""
  | .planned => "planned"
  | .dispatched => "dispatched"
  | .patched => "patched"
  | .verifying => "verifying"
  | .verified => "verified"
  | .failed => "failed"
  | .exhausted => "exhausted"

structure VersionedRef where
  id : String := ""
  revision : Int := 0
  version : Int := 0

structure SchemaRef where
  id : String := ""
  version : Int := 0

structure Budget where
  tokens : Int := 0
  toolCalls : Int := 0
  costCents : Int := 0
  duration : Duration := 0
  concurrent : Int := 0
  deriving DecidableEq

structure RetryPolicy where
  maxAttempts : Int := 0
  backoff : Duration := 0
  retryOn : List String := []

inductive Predicate
  | mk (kind field op : String) (value : Value) (children : List Predicate)

def Predicate.kind : Predicate → String
  | .mk kind _ _ _ _ => kind

/-- The zero predicate, which every result satisfies. -/
def Predicate.none : Predicate := .mk "" "" "" .null []

structure GatePolicy where
  predicate : Predicate := .none
  requiredEvidence : List String := []
  failureCode : String := ""

structure MergePolicy where
  conflictPolicy : String := ""
  keyFields : List String := []
  requireEvidence : Bool := false

structure RepairPolicy where
  targetNodeID : String := ""
  scope : List String := []
  verificationNodeIDs : List String := []
  maxRounds : Int := 0
  budget : Budget := {}

structure WorkflowNode where
  id : String := ""
  kind : NodeKind := .other ""
  agentRef : Option VersionedRef := none
  squadRef : Option VersionedRef := none
  inputContract : SchemaRef := {}
  outputContract : SchemaRef := {}
  contextMaxTokens : Int := 0
  retryPolicy : RetryPolicy := {}
  timeout : Duration := 0
  budget : Budget := {}
  joinPolicy : JoinPolicy := .other ""
  joinQuorum : Int := 0
  joinFailurePolicy : String := ""
  gatePolicy : GatePolicy := {}
  mergePolicy : MergePolicy := {}
  repairPolicy : RepairPolicy := {}

instance : Inhabited WorkflowNode := ⟨{}⟩

/-- `fromID` and `toID` are the source's `From` and `To`. -/
structure WorkflowEdge where
  id : String := ""
  fromID : String := ""
  toID : String := ""
  on : EdgeEvent := .other ""
  predicate : Predicate := .none
  priority : Int := 0
  maxTraversals : Int := 0
  requiredEvidence : List String := []
  loopGroup : String := ""
  fanOut : Bool := false

structure WorkflowGraph where
  id : String := ""
  version : Int := 0
  entryNodeIDs : List String := []
  exitNodeIDs : List String := []
  nodes : List WorkflowNode := []
  edges : List WorkflowEdge := []

/-- The first node with the id, else the zero node. -/
def WorkflowGraph.node (g : WorkflowGraph) (id : String) : WorkflowNode :=
  (g.nodes.find? fun n => n.id == id).getD default

structure RequirementExecutionPlan where
  id : String := ""
  requirementID : String := ""
  workspaceID : String := ""
  graphSnapshot : WorkflowGraph := {}
  policyBudget : Budget := {}
  planHash : String := ""
  status : PlanStatus := .unset
  revision : Int := 0
  idempotencyKey : String := ""
  deadline : Time := 0
  parentPlanID : String := ""
  parentAttemptID : String := ""

structure Lease where
  key : String := ""
  owner : String := ""
  fencingToken : Int := 0
  expiresAt : Time := 0
  deriving DecidableEq

structure StructuredResult where
  outcome : String := ""
  reasonCode : String := ""
  fields : GoMap Value := ∅
  summary : String := ""
  evidenceIDs : List String := []

structure FailureReason where
  code : String := ""
  message : String := ""
  retryable : Bool := false
  deriving DecidableEq

/-- `body` stands for the blocks, compiler metadata and prompt manifest,
which the reducer stores and never reads. -/
structure ContextManifest where
  sessionID : String := ""
  version : Int := 0
  tokenBudget : Int := 0
  tokenEstimate : Int := 0
  digest : String := ""
  body : String := ""
  deriving DecidableEq

structure ContextEnvelope where
  manifest : ContextManifest := {}
  selectionDigest : String := ""
  replayKey : String := ""
  deriving DecidableEq

structure NodeAttempt where
  id : String := ""
  planID : String := ""
  nodeID : String := ""
  attemptNo : Int := 0
  runID : String := ""
  sessionID : String := ""
  workDir : String := ""
  lease : Lease := {}
  idempotencyKey : String := ""
  inputManifest : ContextEnvelope := {}
  outputArtifacts : List String := []
  result : StructuredResult := {}
  repairState : RepairLifecycle := .unset
  repairPlanID : String := ""
  status : AttemptStatus := .unset
  failureReason : Option FailureReason := none
  parentAttemptID : String := ""
  retryOf : String := ""
  childPlanID : String := ""
  startedAt : Option Time := none
  finishedAt : Option Time := none

structure FeedbackDecision where
  planID : String := ""
  sourceAttempt : String := ""
  sourceNode : String := ""
  targetNode : String := ""
  edgeID : String := ""
  structuredResult : StructuredResult := {}
  evidenceIDs : List String := []
  reason : String := ""
  loopCount : Int := 0
  idempotencyKey : String := ""

structure RepairPlan where
  id : String := ""
  planID : String := ""
  repairNodeID : String := ""
  repairAttemptID : String := ""
  repairAttemptIDs : List String := []
  targetNodeID : String := ""
  verificationNodeIDs : List String := []
  sourceAttemptIDs : List String := []
  scope : List String := []
  maxRounds : Int := 0
  round : Int := 0
  state : RepairLifecycle := .unset
  stateHistory : List RepairLifecycle := []
  targetAttemptID : String := ""
  verificationAttempts : GoMap String := ∅
  verifiedNodes : GoMap Bool := ∅
  patchArtifactIDs : List String := []
  verificationArtifactIDs : List String := []
  lastReasonCode : String := ""

instance : Inhabited RepairPlan := ⟨{}⟩

structure NodeProjection where
  nodeID : String := ""
  status : AttemptStatus := .unset
  currentAttempt : String := ""
  attemptNo : Int := 0
  retryAt : Option Time := none
  retryCount : Int := 0
  readyEdgeIDs : List String := []
  deriving DecidableEq

instance : Inhabited NodeProjection := ⟨{}⟩

structure PlanProjection where
  planID : String := ""
  revision : Int := 0
  status : PlanStatus := .unset
  terminalOutcome : String := ""
  nodes : GoMap NodeProjection := ∅
  attempts : GoMap NodeAttempt := ∅
  traversals : GoMap Int := ∅
  decisions : List FeedbackDecision := []
  repairPlans : GoMap RepairPlan := ∅
  idempotency : GoMap String := ∅
  tokenUsage : Int := 0
  toolCalls : Int := 0
  costCents : Int := 0

structure TransitionInput where
  planRevision : Int := 0
  attemptID : String := ""
  leaseToken : Int := 0
  event : String := ""
  result : StructuredResult := {}
  failure : Option FailureReason := none
  outputArtifacts : List String := []
  idempotencyKey : String := ""
  payloadHash : String := ""
  now : Time := 0

inductive Sentinel
  | staleAttempt | invalidTransition | ambiguousTransition | loopExhausted | leaseLost
  | idempotencyConflict | evidenceRequired | deadlineExceeded | budgetExceeded | retryBackoff
  | notFound
  deriving DecidableEq, Repr

def Sentinel.text : Sentinel → String
  | .staleAttempt => "stale attempt"
  | .invalidTransition => "invalid transition"
  | .ambiguousTransition => "ambiguous transition"
  | .loopExhausted => "loop traversal limit exhausted"
  | .leaseLost => "lease or fencing token is no longer valid"
  | .idempotencyConflict => "idempotency key payload conflict"
  | .evidenceRequired => "terminal transition requires committed evidence"
  | .deadlineExceeded => "plan or node deadline exceeded"
  | .budgetExceeded => "execution budget exceeded"
  | .retryBackoff => "retry backoff is still active"
  | .notFound => "orchestration record not found"

abbrev Err := GoError Sentinel

def Sentinel.err (s : Sentinel) : Err := ⟨some s, s.text⟩

/-- `fmt.Errorf("%w: ...", sentinel)`. -/
def Sentinel.errf (s : Sentinel) (detail : String) : Err := ⟨some s, s.text ++ ": " ++ detail⟩

def errorNew (text : String) : Err := ⟨none, text⟩

/-- The functions the reducer calls that are not its own: Unicode case
folding, the checks of a context manifest's body (the text of the first that
fails), and the SHA-256 digests of encoded values. -/
structure Host where
  fold : Char → Char
  manifestBody : ContextManifest → Option String
  selectionDigest : ContextManifest → String
  transitionDigest : String → StructuredResult → Option FailureReason → String

def ContextManifest.validate (H : Host) (m : ContextManifest) : Except Err Unit := do
  ensure (!(blank m.sessionID || blank m.digest || m.version < 1 || m.tokenBudget ≤ 0 ||
    m.tokenEstimate < 0 || m.tokenBudget < m.tokenEstimate)) (errorNew "invalid context manifest")
  match H.manifestBody m with
  | some text => throw (errorNew text)
  | none => pure ()

def ContextEnvelope.validate (H : Host) (e : ContextEnvelope) : Except Err Unit := do
  e.manifest.validate H
  let selection := H.selectionDigest e.manifest
  ensure (!(blank e.selectionDigest || e.selectionDigest != selection))
    (errorNew "context selection digest mismatch")
  let replayKey := e.manifest.sessionID ++ ":" ++ toString e.manifest.version ++ ":" ++ selection
  ensure (!(blank e.replayKey || e.replayKey != replayKey))
    (errorNew "context replay key mismatch")

theorem ContextEnvelope.validate_estimate {H : Host} {e : ContextEnvelope} {u : Unit}
    (h : e.validate H = .ok u) : 0 ≤ e.manifest.tokenEstimate := by
  simp only [ContextEnvelope.validate, ContextManifest.validate, bind_ok, ensure_ok] at h
  obtain ⟨_, ⟨_, hm, -⟩, -⟩ := h
  simp only [Bool.not_eq_true', Bool.or_eq_false_iff, decide_eq_false_iff_not] at hm
  omega

end Adro.Orchestration
