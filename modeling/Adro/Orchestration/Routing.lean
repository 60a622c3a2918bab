import Adro.Orchestration.Start

/-!
# Routing a finished attempt

Which edges an attempt's result satisfies, which of them are followed, and
what becomes of the plan when there is none: a retry with back-off, the end of
the plan at an exit, or a failure that closes it.
-/

namespace Adro.Orchestration

open Adro.Go

def resultFields (r : StructuredResult) : GoMap Value :=
  (r.fields.insert "outcome" (.str r.outcome)).insert "summary" (.str r.summary)

def eventMatches (on : EdgeEvent) (s : AttemptStatus) (event outcome : String) : Bool :=
  match on with
  | .success =>
    s == .passed && event != "approval_granted" && event != "approved" && outcome != "approved"
  | .failure => s == .failed && event != "bug" && outcome != "bug"
  | .bug => s == .failed && (event == "bug" || outcome == "bug")
  | .timeout => s == .timedOut
  | .cancel => s == .cancelled
  | .approval => event == "approval_granted" || event == "approved" || outcome == "approved"
  | .other _ => false

/-- The event an attempt's status stands for when a join looks at it. -/
def settledEvent (H : Host) (a : NodeAttempt) : String :=
  match a.status with
  | .passed => "success"
  | .failed => if equalFold H.fold a.result.outcome "bug" then "bug" else "failure"
  | .timedOut => "timeout"
  | .cancelled => "cancel"
  | .waiting => "waiting"
  | _ => ""

def edgeSatisfied (H : Host) (e : WorkflowEdge) (a : NodeAttempt) : Bool :=
  eventMatches e.on a.status (settledEvent H a) a.result.outcome &&
  (match evaluatePredicate e.predicate (resultFields a.result) with
    | .ok matched => matched
    | .error _ => false) &&
  e.requiredEvidence.all fun required => a.result.evidenceIDs.contains required

/-- The edges out of the attempt's node that its result satisfies, in order. -/
def matchEdges (a : NodeAttempt) (event : String) : List WorkflowEdge →
    Except Err (List WorkflowEdge)
  | [] => .ok []
  | e :: rest =>
    if e.fromID != a.nodeID || !eventMatches e.on a.status event a.result.outcome then
      matchEdges a event rest
    else do
      let ok ← evaluatePredicate e.predicate (resultFields a.result)
      if ok then
        match e.requiredEvidence.find? fun r => !a.result.evidenceIDs.contains r with
        | some required =>
          throw (errorNew ("edge " ++ e.id ++ " requires evidence " ++ required))
        | none =>
          let matched ← matchEdges a event rest
          pure (e :: matched)
      else matchEdges a event rest

inductive Selection
  | none
  | single (e : WorkflowEdge)
  | fanOut (es : List WorkflowEdge)

def bestEdge (first : WorkflowEdge) (rest : List WorkflowEdge) : WorkflowEdge :=
  rest.foldl (fun best e => if e.priority > best.priority then e else best) first

def selectEdges : List WorkflowEdge → Except Err Selection
  | [] => .ok .none
  | [e] => .ok (.single e)
  | first :: rest =>
    if (first :: rest).all (·.fanOut) then .ok (.fanOut (first :: rest))
    else
      let best := bestEdge first rest
      if (first :: rest).countP (fun e => e.priority == best.priority) > 1 then
        .error Sentinel.ambiguousTransition.err
      else .ok (.single best)

def traversalsOf (p : PlanProjection) (e : WorkflowEdge) : Int := (p.traversals[e.id]?).getD 0

def countTraversal (e : WorkflowEdge) (p : PlanProjection) : PlanProjection :=
  if e.maxTraversals > 0 then
    { p with traversals := p.traversals.insert e.id (i64 (traversalsOf p e + 1)) }
  else p

/-- A running target keeps its attempt; any other is opened again. -/
def openTarget (e : WorkflowEdge) (clearRetry : Bool) (p : PlanProjection) : PlanProjection :=
  let target := (p.nodes[e.toID]?).getD default
  if target.status == .running then p
  else { p with nodes := p.nodes.insert e.toID { target with
    status := .ready
    retryAt := if clearRetry then none else target.retryAt
    readyEdgeIDs := appendUnique target.readyEdgeIDs [e.id] } }

def recordDecision (plan : RequirementExecutionPlan) (a : NodeAttempt) (key : String)
    (e : WorkflowEdge) (fan : Bool) (p : PlanProjection) : PlanProjection :=
  if key == "" then p
  else { p with decisions := p.decisions ++ [{
    planID := plan.id
    sourceAttempt := a.id
    sourceNode := a.nodeID
    targetNode := e.toID
    edgeID := e.id
    structuredResult := a.result
    evidenceIDs := a.result.evidenceIDs
    reason := if fan then "fan-out predicate matched" else "predicate matched"
    loopCount := traversalsOf p e
    idempotencyKey := if fan then key ++ ":" ++ e.id else key }] }

/-- One followed edge. Only a fan-out clears the target's back-off. -/
def followEdge (plan : RequirementExecutionPlan) (a : NodeAttempt) (key : String) (fan : Bool)
    (e : WorkflowEdge) (p : PlanProjection) : Call Unit :=
  let counted := countTraversal e p
  if e.maxTraversals > 0 && traversalsOf counted e > e.maxTraversals then
    (.error Sentinel.loopExhausted.err, counted)
  else (.ok (), recordDecision plan a key e fan (openTarget e fan counted))

def followAll (plan : RequirementExecutionPlan) (a : NodeAttempt) (key : String) :
    List WorkflowEdge → PlanProjection → Call Unit
  | [], p => (.ok (), p)
  | e :: rest, p =>
    match followEdge plan a key true e p with
    | (.error err, p) => (.error err, p)
    | (.ok _, p) => followAll plan a key rest p

section

variable (H : Host) (node : WorkflowNode) (plan : RequirementExecutionPlan) (a : NodeAttempt)
  (event : String)

def retryAllowed : Bool :=
  match a.failureReason with
  | none => false
  | some reason =>
    reason.retryable &&
      (node.retryPolicy.retryOn.isEmpty ||
        node.retryPolicy.retryOn.any fun configured =>
          let configured := trimSpace configured
          [reason.code, event, a.result.outcome].any fun value =>
            configured != "" && equalFold H.fold configured value)

/-- The doubling loop, which stops at a day, with its sum in 64 bits. -/
def backoffAfter : Nat → Duration → Duration
  | 0, backoff => backoff
  | n + 1, backoff =>
    if backoff > 0 && backoff < 24 * hour then
      if backoff > 12 * hour then 24 * hour else backoffAfter n (i64 (backoff + backoff))
    else backoff

def scheduleRetry (now : Time) (p : PlanProjection) : PlanProjection :=
  let n := (p.nodes[a.nodeID]?).getD default
  let count := i64 (n.retryCount + 1)
  { p with
    nodes := p.nodes.insert a.nodeID { n with
      retryCount := count
      retryAt := some (now + backoffAfter (count - 1).toNat node.retryPolicy.backoff)
      status := .ready }
    status := .running }

def terminate (outcome : String) (p : PlanProjection) : PlanProjection :=
  { p with status := .terminal, terminalOutcome := outcome }

def failureOutcome : AttemptStatus → String
  | .timedOut => "timed_out"
  | .cancelled => "cancelled"
  | _ => "failed"

def exitOutcome : AttemptStatus → String
  | .passed => "succeeded"
  | s => failureOutcome s

def mayRetry : Bool :=
  (a.status == .failed || a.status == .timedOut) && retryAllowed H node a event &&
    node.retryPolicy.maxAttempts > a.attemptNo && node.retryPolicy.maxAttempts > 1

def routeWithoutEdge (now : Time) (p : PlanProjection) : Call Unit :=
  let node := plan.graphSnapshot.node a.nodeID
  if mayRetry H node a event then (.ok (), scheduleRetry node a now p)
  else if plan.graphSnapshot.exitNodeIDs.contains a.nodeID then
    if a.result.evidenceIDs.isEmpty then (.error Sentinel.evidenceRequired.err, p)
    else if !allRepairsVerified p then
      if a.status == .passed && repairVerificationPending p then
        (.ok (), { p with status := .running })
      else (.ok (), terminate "failed" p)
    else (.ok (), terminate (exitOutcome a.status) p)
  else if a.status.unsuccessful then (.ok (), terminate (failureOutcome a.status) p)
  else (.ok (), p)

def deadlineTimeout : Bool :=
  a.status == .timedOut && a.failureReason.any fun r => r.code == "plan_deadline_exceeded"

/-- Matching and selection, which read only the plan and the attempt. -/
def routeSelection : Except Err Selection := do
  let matched ← matchEdges a event plan.graphSnapshot.edges
  selectEdges matched

def route (input : TransitionInput) (now : Time) (p : PlanProjection) : Call Unit :=
  if deadlineTimeout a then (.ok (), terminate "timed_out" p)
  else
    match routeSelection plan a input.event with
    | .error err => (.error err, p)
    | .ok .none => routeWithoutEdge H plan a input.event now p
    | .ok (.single e) => followEdge plan a input.idempotencyKey false e p
    | .ok (.fanOut es) => followAll plan a input.idempotencyKey es p

end

end Adro.Orchestration
