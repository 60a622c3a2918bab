import Adro.Orchestration.Executor

/-!
# The executor's calls

`advanceStructural` finishes the ready nodes the graph owns, `dispatchReady`
hands the ready agents and squads to their provider, and `Executor.finishAttempt`
closes an attempt. A call that starts on the stored projection keeps to it: every
change is committed before the next one is made, and an error ends the call.
What a call takes from outside, for each node it works on, is an argument. The
roster, the outbox and the prompts have no part in a plan's projection or log;
of them only the errors are kept.
-/

namespace Adro.Orchestration

open Adro.Go

inductive Change
  | start (args : StartArgs)
  | bind (a : NodeAttempt) (b : Binding)
  | finish (attemptID : String) (input : TransitionInput)

/-- What a commit was given: the projection and the log before the change. -/
structure Commit where
  stored : PlanProjection
  log : List Event
  change : Change
  draft : Draft

/-- A call under way: its session, the attempts it returns, and the commits it
has made, of which the code keeps no record. -/
structure Progress where
  session : Session
  attempts : List NodeAttempt := []
  commits : List Commit := []

/-- An error ends the call. -/
abbrev Turn := Option Err × Progress

def Progress.reset (g : Progress) (p : PlanProjection) : Progress :=
  { g with session := { g.session with projection := p } }

variable (E : EventHost) (plan : RequirementExecutionPlan)

/-- Commit `p`, which the change gives; `undone` is what a failure leaves. -/
def commitChange (g : Progress) (c : Change) (d : Draft) (fault : Option Err)
    (p undone : PlanProjection) : Turn :=
  let commits := g.commits ++ [{
    stored := g.session.projection, log := g.session.repo.listEvents plan.id 0, change := c
    draft := d }]
  match commitDraft E plan d fault p g.session.repo with
  | (.error err, r) => (some err, { g with session := ⟨undone, r⟩, commits })
  | (.ok _, r) => (none, { g with session := ⟨p, r⟩, commits })

/-- The commits of a finish: none when the reducer refuses it. -/
def finishCommits (s : Session) (attemptID : String) (input : TransitionInput) (clock : Time)
    (w : Write) : List Commit :=
  let input := { input with now := input.at clock }
  match finishAttempt E.toHost plan s.projection attemptID input clock with
  | (.error _, _) => []
  | (.ok a, _) => [{
      stored := s.projection, log := s.repo.listEvents plan.id 0
      change := .finish attemptID input, draft := finishDraft attemptID input a w.origin }]

structure Executor where
  owner : String := ""
  leaseTTL : Duration := 0
  hasProvider : Bool := true

variable (x : Executor)

section

variable (p : PlanProjection) (node : WorkflowNode)

def Executor.ttl : Duration :=
  if node.timeout > 0 then node.timeout
  else if x.leaseTTL > 0 then x.leaseTTL
  else 15 * minute

def Executor.lease (now : Time) : Lease where
  key := plan.id ++ ":" ++ node.id
  owner := x.owner
  fencingToken := now.unixNano
  expiresAt := now + x.ttl node

def cappedLease (l : Lease) : Lease :=
  if plan.deadline != 0 && plan.deadline < l.expiresAt then { l with expiresAt := plan.deadline }
  else l

def nextAttemptNo : Int :=
  i64 (((p.nodes[node.id]?).getD default).attemptNo + 1)

def attemptKey : String :=
  plan.id ++ ":" ++ node.id ++ ":" ++ toString (nextAttemptNo p node)

def startingArgs (attemptID : String) (lease : Lease)
    (envelope : ContextEnvelope) (now : Time) : StartArgs where
  nodeID := node.id
  attemptID := attemptID
  attemptNo := nextAttemptNo p node
  lease := lease
  envelope := envelope
  input := {
    planRevision := plan.revision, leaseToken := lease.fencingToken
    idempotencyKey := attemptKey plan p node
    payloadHash := E.textDigest (attemptKey plan p node ++ envelope.replayKey), now := now }

end

/-- The event of a start; its scope is entered afterwards or not at all. -/
def startedDraft (args : StartArgs) (a : NodeAttempt) (o : Origin) : Draft where
  origin := o
  type := "attempt.started"
  key := args.input.idempotencyKey
  payload := {
    nodeID := args.nodeID, attemptID := a.id, attemptNo := a.attemptNo, lease := args.lease
    context := args.envelope, dispatchPayloadHash := args.input.payloadHash
    startedAt := args.input.now, childPlanID := a.childPlanID }
  fencingToken := args.lease.fencingToken

structure StructuralDecision where
  event : String := ""
  result : StructuredResult := {}
  failure : Option FailureReason := none
  artifactIDs : List String := []

/-- What comes from outside for one structural node: `domain.NewID()`, the
executor's clock and `time.Now()`, what the gate, merge or repair controller
decides, and the two writes. -/
structure StructuralWork where
  attemptID : String
  now : Time
  clock : Time := 0
  started : Write
  decision : Except Err StructuralDecision
  finished : Write

def evaluateStructural (kind : NodeKind) (decision : Except Err StructuralDecision) :
    Except Err StructuralDecision :=
  match kind with
  | .gate | .merge | .repair => decision
  | kind => .error (errorNew ("unsupported structural node kind " ++ quote kind.text))

def waitingInput (args : StartArgs) (attemptID : String) : TransitionInput :=
  { planRevision := plan.revision, attemptID := attemptID, leaseToken := args.lease.fencingToken
    event := "waiting"
    result := { outcome := "approval_pending", summary := "human approval required" }
    idempotencyKey := args.input.idempotencyKey ++ ":waiting", now := args.input.now }

def decisionInput (args : StartArgs) (attemptID : String) (d : StructuralDecision) :
    TransitionInput :=
  { planRevision := plan.revision, attemptID := attemptID, leaseToken := args.lease.fencingToken
    event := d.event, result := d.result, failure := d.failure, outputArtifacts := d.artifactIDs
    idempotencyKey := args.input.idempotencyKey ++ ":" ++ d.result.reasonCode
    now := args.input.now }

/-- The finish of a structural node: a person is asked, or a decision is taken. -/
def structuralInput (node : WorkflowNode) (args : StartArgs) (attemptID : String)
    (w : StructuralWork) : Except Err TransitionInput :=
  if node.kind == .human then .ok (waitingInput plan args attemptID)
  else do
    let d ← evaluateStructural node.kind w.decision
    ensure (!(d.event == "" || d.result.reasonCode == "" || d.result.evidenceIDs.isEmpty))
      (errorNew (node.kind.text ++ " node " ++ node.id ++
        " returned an incomplete structural decision"))
    pure (decisionInput plan args attemptID d)

/-- The event of a structural finish has the result as it was stored. Only a
decision lists artifacts. -/
def structuralDraft (node : WorkflowNode) (args : StartArgs) (input : TransitionInput)
    (a : NodeAttempt) (o : Origin) : Draft where
  origin := o
  type := "attempt.finished"
  key := args.input.idempotencyKey ++ ":finished"
  payload := {
    attemptID := a.id, event := input.event, result := a.result, failure := input.failure
    artifactIDs := if node.kind == .human then [] else a.outputArtifacts
    transitionKey := some input.idempotencyKey, transitionAt := input.now }
  nodeID := a.nodeID
  attemptID := a.id
  fencingToken := args.lease.fencingToken

/-- The finish of a started structural attempt; an error puts `before` back. -/
def finishStructural (w : StructuralWork) (node : WorkflowNode) (args : StartArgs)
    (attemptID : String) (before : PlanProjection) (g : Progress) : Turn :=
  match structuralInput plan node args attemptID w with
  | .error err => (some err, g.reset before)
  | .ok input =>
    match finishAttempt E.toHost plan g.session.projection attemptID input w.clock with
    | (.error err, _) => (some err, g.reset before)
    | (.ok b, p) =>
      match commitChange E plan g (.finish attemptID input)
        (structuralDraft node args input b w.finished.origin) w.finished.fault p before with
      | (some err, g) => (some err, g)
      | (none, g) => (none, { g with attempts := g.attempts ++ [b] })

/-- One structural node. After its start every error puts the projection back
to before the start, also once the start is committed. -/
def advanceNode (envelope : ContextEnvelope) (w : StructuralWork) (node : WorkflowNode)
    (g : Progress) : Turn :=
  let before := g.session.projection
  let args := startingArgs E plan before node w.attemptID (x.lease plan node w.now) envelope w.now
  match startAttempt E.toHost plan before args w.clock with
  | (.error err, p) => (some err, g.reset p)
  | (.ok a, p) =>
    let d := { startedDraft args a w.started.origin with nodeID := a.nodeID, attemptID := a.id }
    match commitChange E plan g (.start args) d w.started.fault p before with
    | (some err, g) => (some err, g)
    | (none, g) => finishStructural E plan w node args a.id before g

/-- The nodes in turn, until one fails or as many as the limit have been started. -/
def eachReady (limit : Int) (turn : WorkflowNode → Progress → Turn) :
    List WorkflowNode → Progress → Turn
  | [], g => (none, g)
  | node :: rest, g =>
    if limit > 0 && (g.attempts.length : Int) ≥ limit then (none, g)
    else
      match turn node g with
      | (some err, g) => (some err, g)
      | (none, g) => eachReady limit turn rest g

def WorkflowNode.external (n : WorkflowNode) : Bool := n.kind == .agent || n.kind == .squad

def advanceStructural (s : Session) (envelope : ContextEnvelope) (limit : Int) (now : Time)
    (work : String → StructuralWork) : Turn :=
  match envelope.validate E.toHost with
  | .error err => (some (wrapErr "context envelope" err), { session := s })
  | .ok _ =>
    eachReady limit (fun node => advanceNode E plan x envelope (work node.id) node)
      ((readyNodesAt E.toHost plan s.projection now).filter fun n => !n.external)
      { session := s }

/-- The parts of a squad that its nested plan takes, with the clock and the
write of the plan. -/
structure Squad where
  graph : WorkflowGraph
  budget : Budget := {}
  now : Time
  created : Write

def RequirementExecutionPlan.freeze (createdAt : Time) (p : RequirementExecutionPlan) :
    Except Err RequirementExecutionPlan := do
  ensure (!(blank p.id || blank p.requirementID || blank p.workspaceID))
    (errorNew "plan id, requirement_id and workspace_id are required")
  ensure (blank p.parentPlanID == blank p.parentAttemptID)
    (errorNew "parent_plan_id and parent_attempt_id must be provided together")
  validateGraph p.graphSnapshot
  ensure (!(p.deadline != 0 && createdAt != 0 && p.deadline ≤ createdAt))
    (errorNew "plan deadline must be after created_at")
  ensure (p.status == .draft || p.status == .validating) (errorNew "execution plan is immutable")
  match E.planHash p with
  | none => throw (errorNew "json: unsupported value")
  | some h => pure { p with planHash := h, status := .ready, revision := 1 }

def nestedPlanID (attemptID : String) : String := plan.id ++ "/squad/" ++ attemptID

def nestedPlan (attemptID : String) (q : Squad) : RequirementExecutionPlan where
  id := nestedPlanID plan attemptID
  requirementID := plan.requirementID
  workspaceID := plan.workspaceID
  graphSnapshot := q.graph
  policyBudget := q.budget
  status := .draft
  deadline := plan.deadline
  parentPlanID := plan.id
  parentAttemptID := attemptID
  idempotencyKey := plan.id ++ ":" ++ attemptID ++ ":nested"

/-- Whether the nested plan of the attempt is stored. -/
def nestedStored (r : MemoryRepository) (attemptID : String) : Option Bool :=
  match r.getPlan plan.workspaceID (nestedPlanID plan attemptID) with
  | .error _ => none
  | .ok existing => some (existing.parentPlanID == plan.id && existing.parentAttemptID == attemptID)

/-- The payload of the creation event is the plan, of which a replay reads nothing. -/
def ensureNestedSquadPlan (r : MemoryRepository) (node : WorkflowNode) (attemptID : String)
    (q : Squad) : Except Err String × MemoryRepository :=
  let childID := nestedPlanID plan attemptID
  match nestedStored plan r attemptID with
  | some true => (.ok childID, r)
  | some false => (.error (errorNew
      ("nested squad plan " ++ childID ++ " has mismatched parent lineage")), r)
  | none =>
    match (nestedPlan plan attemptID q).freeze E q.now with
    | .error err => (.error (wrapErr ("freeze nested squad plan " ++ node.id) err), r)
    | .ok frozen =>
      match newEvent E q.created.origin none frozen.id frozen.workspaceID "plan.created"
        frozen.idempotencyKey {} with
      | .error err => (.error err, r)
      | .ok e =>
        match r.createPlanWithEvent E frozen e q.created.fault with
        | (.ok _, r) => (.ok childID, r)
        | (.error err, r) =>
          if nestedStored plan r attemptID == some true then (.ok childID, r)
          else (.error (wrapErr "persist nested squad plan" err), r)

structure RunFailure where
  code : String
  message : String

/-- What comes from outside for one agent or squad: the lookups and checks before
the attempt starts, with the envelope they give it, `domain.NewID()`, the clocks,
the squad of a squad node, the outbox intent, the lookup of the provider, the run
it starts, and the writes. -/
structure DispatchWork where
  prepared : Except Err ContextEnvelope
  attemptID : String
  now : Time
  clock : Time := 0
  squad : Option Squad := none
  started : Write
  outbox : Option Err := none
  resolved : Option Err := none
  run : Except RunFailure Binding
  failedAt : Time := 0
  failed : Write
  bound : Write
  ack : Option Err := none

/-- The nested plan of a started squad attempt, whose id the attempt keeps. -/
def nestAttempt (node : WorkflowNode) (q : Option Squad) (a : NodeAttempt) (p : PlanProjection)
    (r : MemoryRepository) : Except Err (NodeAttempt × PlanProjection) × MemoryRepository :=
  match q with
  | none => (.ok (a, p), r)
  | some q =>
    match ensureNestedSquadPlan E plan r node a.id q with
    | (.error err, r) => (.error err, r)
    | (.ok childID, r) =>
      let a := { a with childPlanID := childID }
      (.ok (a, { p with attempts := p.attempts.insert a.id a }), r)

section

variable (args : StartArgs) (attemptID : String) (w : DispatchWork)

def runFailureInput (f : RunFailure) : TransitionInput :=
  { planRevision := plan.revision, leaseToken := args.lease.fencingToken, event := "failure"
    failure := some { code := f.code, message := f.message, retryable := true }
    result := { outcome := "failure", evidenceIDs := ["provider-dispatch:" ++ attemptID] } }

def boundDraft (a : NodeAttempt) (o : Origin) : Draft where
  origin := o
  type := "attempt.bound"
  key := args.input.idempotencyKey ++ ":bound"
  payload := {
    attemptID := a.id, runID := a.runID, sessionID := a.sessionID, workDir := a.workDir
    childPlanID := a.childPlanID }
  nodeID := a.nodeID
  attemptID := a.id
  fencingToken := a.lease.fencingToken

/-- The run's identity is written into the projection also when its event is
not committed. -/
def bindRun (b : Binding) (g : Progress) : Turn :=
  let stored := (g.session.projection.attempts[attemptID]?).getD {}
  let a := { stored with runID := b.id, sessionID := b.sessionID, workDir := b.workDir }
  let p := { g.session.projection with
    attempts := g.session.projection.attempts.insert attemptID a }
  match commitChange E plan g (.bind stored b) (boundDraft args a w.bound.origin) w.bound.fault p
    p with
  | (some err, g) => (some (wrapErr "commit attempt.bound projection" err), g)
  | (none, g) =>
    match w.ack with
    | some err => (some (wrapErr "ack provider.start outbox" err), g)
    | none => (none, { g with attempts := g.attempts ++ [a] })

/-- A run that does not start fails the attempt. -/
def failRun (f : RunFailure) (g : Progress) : Turn :=
  let input := runFailureInput plan args attemptID f
  let commits := g.commits ++ finishCommits E plan g.session attemptID input w.failedAt w.failed
  match Executor.finishAttempt E plan g.session attemptID input w.failedAt w.failed with
  | (.error err, s) => (some (wrapErr ("provider failed (" ++ f.message ++ "), finish failed") err),
      { g with session := s, commits })
  | (.ok _, s) => (some (errorNew f.message), { g with session := s, commits })

/-- What follows the committed start: the outbox intent, the provider, the run. -/
def launchRun (before : PlanProjection) (g : Progress) : Turn :=
  match w.outbox with
  | some err => (some err, g.reset before)
  | none =>
    match w.resolved with
    | some err => (some err, g)
    | none =>
      match w.run with
      | .error f => failRun E plan args attemptID w f g
      | .ok b => bindRun E plan args attemptID w b g

def dispatchNode (node : WorkflowNode) (g : Progress) : Turn :=
  match w.prepared with
  | .error err => (some err, g)
  | .ok envelope =>
    let before := g.session.projection
    let lease := cappedLease plan (x.lease plan node w.now)
    let args := startingArgs E plan before node w.attemptID lease envelope w.now
    match startAttempt E.toHost plan before args w.clock with
    | (.error err, p) => (some err, g.reset p)
    | (.ok a, p) =>
      match nestAttempt E plan node (if node.kind == .squad then w.squad else none) a p
        g.session.repo with
      | (.error err, r) => (some err, { g with session := ⟨before, r⟩ })
      | (.ok (a, p), r) =>
        let g := { g with session := ⟨before, r⟩ }
        match commitChange E plan g (.start args) (startedDraft args a w.started.origin)
          w.started.fault p before with
        | (some err, g) => (some (wrapErr "commit attempt.started projection" err), g)
        | (none, g) => launchRun E plan args a.id w before g

end

def dispatchReady (s : Session) (envelope : ContextEnvelope) (limit : Int) (now : Time)
    (work : String → DispatchWork) : Turn :=
  match envelope.validate E.toHost with
  | .error err => (some (wrapErr "context envelope" err), { session := s })
  | .ok _ =>
    let ready := (readyNodesAt E.toHost plan s.projection now).filter WorkflowNode.external
    if !ready.isEmpty && !x.hasProvider then
      (some (errorNew "provider is required for ready agent nodes"), { session := s })
    else
      eachReady limit (fun node => dispatchNode E plan x (work node.id) node) ready { session := s }

inductive ExecutorCall
  | advanceStructural (envelope : ContextEnvelope) (limit : Int) (now : Time)
    (work : String → StructuralWork)
  | dispatchReadyLimited (envelope : ContextEnvelope) (limit : Int) (now : Time)
    (work : String → DispatchWork)
  | finishAttempt (attemptID : String) (input : TransitionInput) (clock : Time) (w : Write)

def perform (s : Session) : ExecutorCall → Progress
  | .advanceStructural envelope limit now work =>
    (advanceStructural E plan x s envelope limit now work).2
  | .dispatchReadyLimited envelope limit now work =>
    (dispatchReady E plan x s envelope limit now work).2
  | .finishAttempt attemptID input clock w => {
      session := (Executor.finishAttempt E plan s attemptID input clock w).2
      commits := finishCommits E plan s attemptID input clock w }

/-- A call on the projection the repository has; without one there is no call. -/
def callOn (r : MemoryRepository) (c : ExecutorCall) : Progress :=
  match r.getProjection plan.id with
  | .error _ => { session := ⟨{}, r⟩ }
  | .ok p => perform E plan x ⟨p, r⟩ c

def callStep (r : MemoryRepository) (c : ExecutorCall) : MemoryRepository :=
  (callOn E plan x r c).session.repo

end Adro.Orchestration
