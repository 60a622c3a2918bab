import Adro.Orchestration.Repair

/-!
# Creating a projection and starting attempts

A call is a list of checks that read the projection, then a commit that writes
it; the two parts are separate definitions. A function that has written before
it reports an error returns the projection it leaves. `clock` is what
`time.Now()` returns.
-/

namespace Adro.Orchestration

open Adro.Go

/-- The result of a call and the projection it leaves, also on an error. -/
abbrev Call (α : Type) := Except Err α × PlanProjection

def PlanStatus.frozen : PlanStatus → Bool
  | .ready | .running | .waiting | .terminal => true
  | _ => false

def initialNode (g : WorkflowGraph) (n : WorkflowNode) : NodeProjection :=
  { nodeID := n.id, status := if g.entryNodeIDs.contains n.id then .ready else .pending }

def newProjection (plan : RequirementExecutionPlan) : Except Err PlanProjection := do
  ensure (plan.id != "") (errorNew "plan id is required")
  ensure (plan.status.frozen && plan.planHash != "" && plan.revision ≥ 1)
    (errorNew "projection requires a frozen execution plan")
  validateGraph plan.graphSnapshot
  pure {
    planID := plan.id
    revision := plan.revision
    status := plan.status
    nodes := plan.graphSnapshot.nodes.foldl
      (fun nodes n => nodes.insert n.id (initialNode plan.graphSnapshot n)) ∅ }

def usageFloat (x : F64) : Int :=
  if !x.lt (.finite 0) && !(F64.ofInt maxInt64).lt x && x.eq (.ofInt x.toInt64) then x.toInt64
  else 0

def usageInt64 (fields : GoMap Value) (key : String) : Int :=
  max 0 <| match fields[key]? with
  | some (.int kind n) =>
    match kind with
    | .int | .int8 | .int16 | .int32 | .int64 => i64 n
    | .uint | .uint64 => if n ≤ maxInt64 then n else 0
    | .uint8 | .uint16 | .uint32 => 0
  | some (.float _ x) => usageFloat x
  | _ => 0

structure Usage where
  tokens : Int := 0
  tools : Int := 0
  cost : Int := 0
  deriving DecidableEq

def resultUsage (r : StructuredResult) : Usage :=
  { tokens := usageInt64 r.fields "tokens"
    tools := usageInt64 r.fields "tool_calls"
    cost := usageInt64 r.fields "cost_cents" }

theorem usageInt64_nonneg (fields : GoMap Value) (key : String) : 0 ≤ usageInt64 fields key :=
  Int.le_max_left 0 _

theorem usageInt64_le (fields : GoMap Value) (key : String) : usageInt64 fields key ≤ maxInt64 := by
  refine max_le (by decide) ?_
  split
  · split
    all_goals first | exact i64_le | (split <;> [assumption; decide]) | decide
  · unfold usageFloat
    split
    · exact F64.toInt64_le _
    · decide
  · decide

def nodeSum (p : PlanProjection) (nodeID : String) (f : NodeAttempt → Int) : Int :=
  p.attempts.sum fun a => if a.nodeID == nodeID then f a else 0

def runningCount (p : PlanProjection) : Nat := p.attempts.count fun _ a => a.status == .running

structure StartArgs where
  nodeID : String
  attemptID : String
  attemptNo : Int := 0
  lease : Lease := {}
  envelope : ContextEnvelope := {}
  input : TransitionInput := {}

/-- `input.Now`, or the clock when it is zero. -/
def TransitionInput.at (input : TransitionInput) (clock : Time) : Time :=
  if input.now == 0 then clock else input.now

section

variable (H : Host) (plan : RequirementExecutionPlan) (p : PlanProjection) (args : StartArgs)
  (now : Time)

def validateEnvelope (e : ContextEnvelope) : Except Err Unit :=
  match e.validate H with
  | .error err => .error ⟨err.sentinel, "attempt context envelope: " ++ err.text⟩
  | .ok _ => .ok ()

def startPlanCheck : Except Err Unit := do
  let estimate := args.envelope.manifest.tokenEstimate
  let manifest := args.envelope.manifest
  ensure (p.planID == plan.id) Sentinel.invalidTransition.err
  ensure (plan.status == .ready || plan.status == .running) Sentinel.invalidTransition.err
  ensure (!(plan.deadline != 0 && plan.deadline ≤ now)) Sentinel.deadlineExceeded.err
  ensure (!(plan.policyBudget.tokens > 0 &&
    i64 (p.tokenUsage + estimate) > plan.policyBudget.tokens)) Sentinel.budgetExceeded.err
  ensure (!(plan.policyBudget.concurrent > 0 &&
    (runningCount p : Int) ≥ plan.policyBudget.concurrent)) Sentinel.budgetExceeded.err
  ensure (!(blank manifest.sessionID || blank manifest.digest ||
    blank args.envelope.selectionDigest || blank args.envelope.replayKey ||
    manifest.tokenBudget ≤ 0 || manifest.tokenEstimate > manifest.tokenBudget))
    (errorNew "attempt requires a complete context envelope")
  validateEnvelope H args.envelope
  ensure (args.input.planRevision == 0 || args.input.planRevision == p.revision)
    Sentinel.staleAttempt.err

def startReplay (input : TransitionInput) : Except Err (Option NodeAttempt) :=
  if input.idempotencyKey == "" then .ok none
  else
    match p.idempotency[input.idempotencyKey]? with
    | none => .ok none
    | some h =>
      if h != input.payloadHash then .error Sentinel.idempotencyConflict.err
      else .ok ((p.attempts.find fun _ a => a.idempotencyKey == input.idempotencyKey).map (·.2))

def startNodeCheck : Except Err NodeProjection :=
  match p.nodes[args.nodeID]? with
  | none => .error (errorNew ("unknown node " ++ quote args.nodeID))
  | some n => do
    let definition := plan.graphSnapshot.node args.nodeID
    let estimate := args.envelope.manifest.tokenEstimate
    ensure (!(n.retryAt.any fun t => now < t)) Sentinel.retryBackoff.err
    ensure (!(definition.budget.tokens > 0 &&
      i64 (nodeSum p args.nodeID (fun a => a.inputManifest.manifest.tokenEstimate) + estimate) >
        definition.budget.tokens)) Sentinel.budgetExceeded.err
    ensure (!(definition.contextMaxTokens > 0 && estimate > definition.contextMaxTokens))
      (Sentinel.budgetExceeded.errf "node context token budget exceeded")
    ensure (!(definition.budget.concurrent > 0 &&
      ((p.attempts.count fun _ a => a.nodeID == args.nodeID && a.status == .running : Nat) : Int) ≥
        definition.budget.concurrent))
      (Sentinel.budgetExceeded.errf "node concurrency budget exceeded")
    ensure (n.status == .ready || n.status == .failed || n.status == .timedOut)
      (errorNew ("node " ++ args.nodeID ++ " is not ready"))
    pure n

inductive StartAdmission
  | replay (a : NodeAttempt)
  | fresh (n : NodeProjection) (attemptNo : Int)

def startIdentityCheck (n : NodeProjection) : Except Err StartAdmission := do
  let attemptNo := if args.attemptNo < 1 then i64 (n.attemptNo + 1) else args.attemptNo
  ensure (!(n.currentAttempt != "" &&
    p.attempts[n.currentAttempt]?.any fun old => old.status == .running))
    Sentinel.invalidTransition.err
  ensure (!blank args.attemptID) (errorNew "attempt id is required")
  match p.attempts[args.attemptID]? with
  | some existing =>
    if existing.idempotencyKey == args.input.idempotencyKey && args.input.idempotencyKey != "" then
      pure (.replay existing)
    else throw Sentinel.invalidTransition.err
  | none =>
    ensure (!(p.attempts.any fun _ a =>
      a.planID == plan.id && a.nodeID == args.nodeID && a.attemptNo == attemptNo))
      Sentinel.invalidTransition.err
    ensure (args.input.leaseToken == 0 || args.lease.fencingToken == args.input.leaseToken)
      Sentinel.leaseLost.err
    ensure (!(args.lease.expiresAt != 0 && args.lease.expiresAt ≤ now)) Sentinel.leaseLost.err
    pure (.fresh n attemptNo)

def startCheck : Except Err StartAdmission := do
  startPlanCheck H plan p args now
  match ← startReplay p args.input with
  | some old => pure (.replay old)
  | none =>
    let n ← startNodeCheck plan p args now
    startIdentityCheck plan p args now n

end

def newAttempt (plan : RequirementExecutionPlan) (p : PlanProjection) (args : StartArgs)
    (n : NodeProjection) (attemptNo : Int) (now : Time) : NodeAttempt :=
  let dispatch := (repairPlanForDispatch p plan.graphSnapshot args.nodeID).filter (·.1 != "")
  { id := args.attemptID
    planID := plan.id
    nodeID := args.nodeID
    attemptNo := attemptNo
    lease := args.lease
    idempotencyKey := args.input.idempotencyKey
    inputManifest := args.envelope
    status := .running
    startedAt := some now
    parentAttemptID := n.currentAttempt
    retryOf := n.currentAttempt
    repairPlanID := (dispatch.map (·.1)).getD ""
    repairState :=
      if (plan.graphSnapshot.node args.nodeID).kind == .repair then .planned
      else (dispatch.map (·.2)).getD .unset }

/-- The contract after an attempt joins it, and whether its lifecycle allows it. -/
def joinRepair (r : RepairPlan) (a : NodeAttempt) : RepairPlan × Option RepairPlan :=
  match a.repairState with
  | .dispatched =>
    (r, setRepairState { r with targetAttemptID := a.id } .dispatched)
  | .verifying =>
    ({ r with verificationAttempts := r.verificationAttempts.erase a.nodeID },
      setRepairState { r with
        verificationAttempts := r.verificationAttempts.insert a.nodeID a.id } .verifying)
  | _ => (r, some r)

/-- On a refused join the attempt and its key are deleted again, and so is the
entry written into the contract's shared map. -/
def startCommit (plan : RequirementExecutionPlan) (p : PlanProjection) (args : StartArgs)
    (n : NodeProjection) (attemptNo : Int) (now : Time) : Call NodeAttempt :=
  let a := newAttempt plan p args n attemptNo now
  let key := args.input.idempotencyKey
  let started := { p with
    attempts := p.attempts.insert a.id a
    idempotency :=
      if key != "" then p.idempotency.insert key args.input.payloadHash else p.idempotency
    nodes := p.nodes.insert args.nodeID { n with
      status := .running, currentAttempt := a.id, attemptNo := attemptNo, retryAt := none,
      readyEdgeIDs := [] }
    status := .running
    tokenUsage := i64 (p.tokenUsage + args.envelope.manifest.tokenEstimate) }
  if a.repairPlanID == "" then (.ok a, started)
  else
    let r := (p.repairPlans[a.repairPlanID]?).getD default
    match joinRepair r a with
    | (refused, none) =>
      (.error (Sentinel.invalidTransition.errf
        ("repair " ++ r.id ++ " cannot transition to " ++ a.repairState.text)),
        { p with
          repairPlans := p.repairPlans.insert a.repairPlanID refused
          idempotency := if key != "" then p.idempotency.erase key else p.idempotency })
    | (_, some r) =>
      (.ok a, { started with
        repairPlans := p.repairPlans.insert a.repairPlanID
          { r with lastReasonCode := a.repairState.text } })

def startAttempt (H : Host) (plan : RequirementExecutionPlan) (p : PlanProjection)
    (args : StartArgs) (clock : Time) : Call NodeAttempt :=
  let now := args.input.at clock
  match startCheck H plan p args now with
  | .error e => (.error e, p)
  | .ok (.replay a) => (.ok a, p)
  | .ok (.fresh n attemptNo) => startCommit plan p args n attemptNo now

end Adro.Orchestration
