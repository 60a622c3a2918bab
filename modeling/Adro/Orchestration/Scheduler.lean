import Adro.Orchestration.Finish

/-!
# Readiness, retry and takeover

`readyNodesAt` derives the ready queue from the projection. `retry` and
`takeOver` are the two operations a person has on a projection. `Op` is any of
the four reducer calls, and `Run` a sequence of them on one projection.
-/

namespace Adro.Orchestration

open Adro.Go

/-- The current attempt of the edge's source, when it satisfies the edge. -/
def satisfiedBy (H : Host) (p : PlanProjection) (e : WorkflowEdge) : Option NodeAttempt :=
  let source := (p.nodes[e.fromID]?).getD default
  if source.currentAttempt == "" then none
  else
    match p.attempts[source.currentAttempt]? with
    | none => none
    | some a => if edgeSatisfied H e a then some a else none

def sourceUnsuccessful (p : PlanProjection) (e : WorkflowEdge) : Bool :=
  ((p.nodes[e.fromID]?).getD default).status.unsuccessful

/-- How many satisfied incoming edges a join asks for. -/
def joinNeed (n : WorkflowNode) (edges : Nat) : Int :=
  match n.joinPolicy with
  | .all => edges
  | .quorum => if n.joinQuorum ≤ 0 then edges / 2 + 1 else n.joinQuorum
  | _ => 1

def nodeReadyAt (H : Host) (plan : RequirementExecutionPlan) (p : PlanProjection) (now : Time)
    (n : WorkflowNode) : Bool :=
  let state := (p.nodes[n.id]?).getD default
  let edges := plan.graphSnapshot.edges.filter fun e => e.toID == n.id
  state.status == .ready && !(state.retryAt.any fun t => now < t) &&
  (edges.isEmpty ||
    let passed := edges.countP fun e => (satisfiedBy H p e).isSome
    let shortCircuit := edges.any fun e =>
      (satisfiedBy H p e).any fun a =>
        n.joinFailurePolicy == "short_circuit" && a.status != .passed && e.on != .success
    let need := if n.joinFailurePolicy == "short_circuit" && edges.any (sourceUnsuccessful p) &&
        shortCircuit then 0 else joinNeed n edges.length
    need ≤ (passed : Int))

def readyNodesAt (H : Host) (plan : RequirementExecutionPlan) (p : PlanProjection) (now : Time) :
    List WorkflowNode :=
  (plan.graphSnapshot.nodes.filter (nodeReadyAt H plan p now)).mergeSort fun a b => a.id ≤ b.id

/-- The node is read under the trimmed id and written under the given one. -/
def retry (p : PlanProjection) (nodeID : String) : Call Unit :=
  match p.nodes[trimSpace nodeID]? with
  | none => (.error (errorNew ("unknown node " ++ quote nodeID)), p)
  | some n =>
    if n.status != .failed && n.status != .timedOut then
      (.error Sentinel.invalidTransition.err, p)
    else (.ok (), { p with
      nodes := p.nodes.insert nodeID { n with status := .ready }
      status := if p.status == .terminal then .running else p.status })

def takeOverInput (plan : RequirementExecutionPlan) (attemptID : String) (token : Int)
    (now : Time) : TransitionInput :=
  { planRevision := plan.revision
    leaseToken := token
    event := "timeout"
    result := {
      outcome := "timeout"
      summary := "human takeover"
      evidenceIDs := ["human-takeover:" ++ attemptID] }
    failure := some { code := "human_takeover", message := "attempt taken over", retryable := true }
    now := now }

/-- The new lease is stored before the attempt is finished as timed out. -/
def claimLease (p : PlanProjection) (a : NodeAttempt) (attemptID owner : String) (now : Time) :
    PlanProjection :=
  { p with attempts := p.attempts.insert attemptID { a with lease := { a.lease with
      owner := owner
      fencingToken := i64 (a.lease.fencingToken + 1)
      expiresAt := now + 15 * minute } } }

def takeOver (H : Host) (plan : RequirementExecutionPlan) (p : PlanProjection)
    (attemptID owner : String) (now clock : Time) : Call Unit :=
  match p.attempts[attemptID]? with
  | none => (.error Sentinel.staleAttempt.err, p)
  | some a =>
    if a.status != .running then (.error Sentinel.invalidTransition.err, p)
    else if owner == "" then (.error (errorNew "takeover owner is required"), p)
    else
      let now := if now == 0 then clock else now
      let claimed := claimLease p a attemptID owner now
      match finishAttempt H plan claimed attemptID
        (takeOverInput plan attemptID (i64 (a.lease.fencingToken + 1)) now) clock with
      | (.error e, p) => (.error e, p)
      | (.ok _, p) => (.ok (), p)

inductive Op
  | start (args : StartArgs)
  | finish (attemptID : String) (input : TransitionInput)
  | retry (nodeID : String)
  | takeOver (attemptID owner : String) (now : Time)

structure Step where
  op : Op
  clock : Time

def Step.call (H : Host) (plan : RequirementExecutionPlan) (s : Step) (p : PlanProjection) :
    Call Unit :=
  match s.op with
  | .start args =>
    let (r, p) := startAttempt H plan p args s.clock
    (r.map fun _ => (), p)
  | .finish attemptID input =>
    let (r, p) := finishAttempt H plan p attemptID input s.clock
    (r.map fun _ => (), p)
  | .retry nodeID => Orchestration.retry p nodeID
  | .takeOver attemptID owner now => Orchestration.takeOver H plan p attemptID owner now s.clock

end Adro.Orchestration
