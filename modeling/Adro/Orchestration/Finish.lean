import Adro.Orchestration.Routing

/-!
# Finishing attempts

`finishAttempt` in the order of the source: the checks, the repair contract,
the commit with the joins it short-circuits, the routing, and the rollback of a
routing error. The rollback restores the attempt, its node, the plan status,
the traversals, the decisions, the finish key and the repair plans as they
were after the repair stage; it restores nothing else.
-/

namespace Adro.Orchestration

open Adro.Go

def eventStatus (event : String) : Option AttemptStatus :=
  if ["success", "passed", "pass"].contains event then some .passed
  else if ["failure", "failed", "fail", "bug"].contains event then some .failed
  else if ["timeout", "timed_out"].contains event then some .timedOut
  else if ["cancel", "cancelled"].contains event then some .cancelled
  else if ["approval", "approved"].contains event then some .waiting
  else if event == "waiting" then some .waiting
  else if event == "approval_granted" then some .passed
  else if event == "approval_denied" then some .failed
  else none

/-- What an admitted finish works with: the attempt with its result and new
status, its node as read, and the usage to book. -/
structure Finishing where
  attempt : NodeAttempt
  node : NodeProjection
  now : Time
  key : String
  hash : String
  usage : Usage

inductive FinishAdmission
  | replay (a : NodeAttempt)
  | fresh (f : Finishing)

def evidenceCheck (input : TransitionInput) : Except Err Unit :=
  if input.event == "waiting" || input.event == "approval" then .ok ()
  else do
    ensure (!input.result.evidenceIDs.isEmpty) Sentinel.evidenceRequired.err
    eachSeen id (fun i _ evidence => ensure (!blank evidence)
      (Sentinel.evidenceRequired.errf ("evidence_ids[" ++ toString i ++ "] is empty")))
      0 [] input.result.evidenceIDs

def planBudgetCheck (plan : RequirementExecutionPlan) (p : PlanProjection) (u : Usage) :
    Except Err Unit := do
  let budget := plan.policyBudget
  ensure (!(budget.tokens > 0 && i64 (p.tokenUsage + u.tokens) > budget.tokens))
    Sentinel.budgetExceeded.err
  ensure (!(budget.toolCalls > 0 && i64 (p.toolCalls + u.tools) > budget.toolCalls))
    Sentinel.budgetExceeded.err
  ensure (!(budget.costCents > 0 && i64 (p.costCents + u.cost) > budget.costCents))
    Sentinel.budgetExceeded.err

def nodeBudgetCheck (definition : WorkflowNode) (p : PlanProjection) (a : NodeAttempt) (u : Usage)
    (now : Time) : Except Err Unit := do
  let spent := nodeSum p a.nodeID
  let tokens := i64 (spent (fun b => b.inputManifest.manifest.tokenEstimate +
    (resultUsage b.result).tokens) + u.tokens)
  let tools := i64 (spent (fun b => (resultUsage b.result).tools) + u.tools)
  let cost := i64 (spent (fun b => (resultUsage b.result).cost) + u.cost)
  let fail := Sentinel.budgetExceeded.errf
  ensure (!(definition.budget.tokens > 0 && tokens > definition.budget.tokens))
    (fail "node token budget exceeded")
  ensure (!(definition.budget.toolCalls > 0 && tools > definition.budget.toolCalls))
    (fail "node tool budget exceeded")
  ensure (!(definition.budget.costCents > 0 && cost > definition.budget.costCents))
    (fail "node cost budget exceeded")
  ensure (!(definition.budget.duration > 0 &&
    a.startedAt.any fun t => Time.sub now t > definition.budget.duration))
    (fail "node duration budget exceeded")

/-- The checks between the replay test and the first write. -/
def admitFinish (plan : RequirementExecutionPlan) (p : PlanProjection) (a : NodeAttempt)
    (n : NodeProjection) (key hash : String) (input : TransitionInput) (now : Time) :
    Except Err Finishing := do
  let u := resultUsage input.result
  ensure (a.status == .running || a.status == .waiting) Sentinel.invalidTransition.err
  ensure (input.leaseToken == 0 || a.lease.fencingToken == input.leaseToken) Sentinel.leaseLost.err
  ensure (!(a.status == .running && a.lease.expiresAt != 0 && a.lease.expiresAt ≤ now &&
    input.event != "timeout")) Sentinel.leaseLost.err
  evidenceCheck input
  planBudgetCheck plan p u
  nodeBudgetCheck (plan.graphSnapshot.node a.nodeID) p a u now
  match eventStatus input.event with
  | none => throw (Sentinel.invalidTransition.errf ("unsupported event " ++ input.event))
  | some status => pure {
      attempt := { a with
        result := input.result
        outputArtifacts := appendUnique a.outputArtifacts input.outputArtifacts
        failureReason := input.failure
        status := status }
      node := n, now := now, key := key, hash := hash, usage := u }

def finishReplay (p : PlanProjection) (a : NodeAttempt) (key hash event : String) :
    Except Err Bool :=
  if key == "" then .ok false
  else
    match p.idempotency[key]? with
    | none => .ok false
    | some previous =>
      if previous != "" && previous != hash then .error Sentinel.idempotencyConflict.err
      else .ok (a.status != .running && (a.status != .waiting || event != "waiting"))

def finishCheck (H : Host) (plan : RequirementExecutionPlan) (p : PlanProjection)
    (attemptID : String) (input : TransitionInput) (now : Time) : Except Err FinishAdmission :=
  match p.attempts[attemptID]? with
  | none => .error Sentinel.staleAttempt.err
  | some a =>
    if input.planRevision != 0 && input.planRevision != p.revision then
      .error Sentinel.staleAttempt.err
    else
      match p.nodes[a.nodeID]? with
      | none => .error Sentinel.staleAttempt.err
      | some n =>
        if n.currentAttempt != attemptID then .error Sentinel.staleAttempt.err
        else do
          let key := trimSpace input.idempotencyKey
          let hash := if key != "" && input.payloadHash == "" then
              H.transitionDigest input.event input.result input.failure
            else input.payloadHash
          if ← finishReplay p a key hash input.event then pure (.replay a)
          else
            let f ← admitFinish plan p a n key hash input now
            pure (.fresh f)

def planRepair (plan : RequirementExecutionPlan) (p : PlanProjection) (a : NodeAttempt) :
    Call NodeAttempt :=
  let node := plan.graphSnapshot.node a.nodeID
  if resolveRepairTarget plan.graphSnapshot node == "" || (repairVerificationNodes a).isEmpty then
    (.error (Sentinel.invalidTransition.errf
      "repair target and verification contract are required"), p)
  else
    let a := { a with repairState := .planned }
    match createRepairPlan p plan a with
    | .error e => (.error e, p)
    | .ok fresh =>
      let (a, p) := recordRepairPlan p a fresh
      (.ok a, p)

def repairStage (plan : RequirementExecutionPlan) (p : PlanProjection) (a : NodeAttempt) :
    Call NodeAttempt :=
  if (plan.graphSnapshot.node a.nodeID).kind == .repair then
    if a.status == .passed then planRepair plan p a
    else if a.status == .failed || a.status == .timedOut then
      (.ok { a with repairState := .exhausted }, p)
    else (.ok a, p)
  else if a.repairState != .unset then
    match advanceRepairAttemptState p a with
    | (.error e, p) => (.error e, p)
    | (.ok state, p) => (.ok { a with repairState := state }, p)
  else (.ok a, p)

/-- Record the repair state in the result and set or clear the finish time. -/
def stampAttempt (now : Time) (a : NodeAttempt) : NodeAttempt :=
  { a with
    result := if a.repairState == .unset then a.result
      else { a.result with
        fields := a.result.fields.insert "repair_state" (.str a.repairState.text) }
    finishedAt := if a.status != .waiting then some now else none }

def commitFinish (f : Finishing) (attemptID : String) (a : NodeAttempt) (p : PlanProjection) :
    PlanProjection :=
  { p with
    attempts := p.attempts.insert attemptID a
    nodes := p.nodes.insert a.nodeID { f.node with status := a.status }
    tokenUsage := i64 (p.tokenUsage + f.usage.tokens)
    toolCalls := i64 (p.toolCalls + f.usage.tools)
    costCents := i64 (p.costCents + f.usage.cost)
    idempotency := if f.key != "" then p.idempotency.insert f.key f.hash else p.idempotency }

def openJoin (candidate : String) (p : PlanProjection) : PlanProjection :=
  let join := (p.nodes[candidate]?).getD default
  if join.status == .running || join.status == .passed then p
  else { p with nodes := p.nodes.insert candidate { join with status := .ready } }

def shortCircuits (H : Host) (g : WorkflowGraph) (a : NodeAttempt) (candidate : WorkflowNode) :
    Bool :=
  candidate.joinFailurePolicy == "short_circuit" &&
    g.edges.any fun e => e.fromID == a.nodeID && e.toID == candidate.id && edgeSatisfied H e a

def shortCircuitJoins (H : Host) (g : WorkflowGraph) (a : NodeAttempt) (p : PlanProjection) :
    PlanProjection :=
  if a.status.unsuccessful then
    g.nodes.foldl (fun p c => if shortCircuits H g a c then openJoin c.id p else p) p
  else p

/-- `approval` and `waiting` park the attempt; every other event routes. -/
def routes (status : AttemptStatus) (event : String) : Bool :=
  status == .passed || status.unsuccessful ||
    (status == .waiting && event != "waiting" && event != "approval")

def restoreKey (before written : GoMap String) (key : String) : GoMap String :=
  match before[key]? with
  | some previous => written.insert key previous
  | none => written.erase key

/-- The restored fields; `repaired` is the projection after the repair stage. -/
def rollback (f : Finishing) (attemptID nodeID : String) (repaired p : PlanProjection) :
    PlanProjection :=
  { p with
    attempts := p.attempts.insert attemptID ((repaired.attempts[attemptID]?).getD {})
    nodes := p.nodes.insert nodeID ((repaired.nodes[nodeID]?).getD default)
    status := repaired.status
    traversals := repaired.traversals
    decisions := p.decisions.take repaired.decisions.length
    repairPlans := repaired.repairPlans
    idempotency :=
      if f.key != "" then restoreKey repaired.idempotency p.idempotency f.key else p.idempotency }

/-- The contract an attempt belongs to keeps the reason of its last result. -/
def noteReason (a : NodeAttempt) (p : PlanProjection) : PlanProjection :=
  match p.repairPlans[a.repairPlanID]? with
  | some r =>
    if a.repairPlanID == "" then p
    else { p with
      repairPlans := p.repairPlans.insert a.repairPlanID
        { r with lastReasonCode := a.result.reasonCode } }
  | none => p

def settle (H : Host) (plan : RequirementExecutionPlan) (f : Finishing) (attemptID : String)
    (input : TransitionInput) (a : NodeAttempt) (repaired : PlanProjection) : Call NodeAttempt :=
  let p := shortCircuitJoins H plan.graphSnapshot a (commitFinish f attemptID a repaired)
  if routes a.status input.event then
    match route H plan a input f.now p with
    | (.error e, p) => (.error e, rollback f attemptID a.nodeID repaired p)
    | (.ok _, p) => (.ok a, noteReason a p)
  else (.ok a, noteReason a p)

def finishAttempt (H : Host) (plan : RequirementExecutionPlan) (p : PlanProjection)
    (attemptID : String) (input : TransitionInput) (clock : Time) : Call NodeAttempt :=
  match finishCheck H plan p attemptID input (input.at clock) with
  | .error e => (.error e, p)
  | .ok (.replay a) => (.ok a, p)
  | .ok (.fresh f) =>
    match repairStage plan p f.attempt with
    | (.error e, p) => (.error e, p)
    | (.ok a, p) => settle H plan f attemptID input (stampAttempt f.now a) p

end Adro.Orchestration
