import Adro.Orchestration.Repair

/-!
# Validating a projection

`PlanProjection.validate` is the check a repository makes before it stores a
projection. The source ranges over its maps in no fixed order; here the entries
come by key, which decides which of several errors is reported, not whether
there is one. Maps are never nil here, and the source's reducer never leaves the
checked ones nil.
-/

namespace Adro.Orchestration

open Adro.Go

def attemptStatusCheck (id : String) (a : NodeAttempt) : Except Err Unit :=
  match a.status with
  | .pending | .ready => .error (errorNew
      ("attempt " ++ id ++ " has non-running persisted status " ++ quote a.status.text))
  | .running => ensure (!(a.lease.expiresAt == 0 || a.startedAt.isNone))
      (errorNew ("running attempt " ++ id ++ " has no lease or start time"))
  | .waiting => ensure a.finishedAt.isNone
      (errorNew ("waiting attempt " ++ id ++ " cannot have finish time"))
  | .passed | .failed | .cancelled | .timedOut => ensure a.finishedAt.isSome
      (errorNew ("terminal attempt " ++ id ++ " has no finish time"))
  | .unset => .error (errorNew ("attempt " ++ id ++ " has invalid status " ++ quote a.status.text))

def attemptCheck (p : PlanProjection) (id : String) (a : NodeAttempt) : Except Err Unit := do
  ensure (!(a.id != id || a.planID != p.planID || a.nodeID == "" || a.attemptNo < 1 ||
    a.inputManifest.manifest.sessionID == "" || a.inputManifest.manifest.digest == ""))
    (errorNew ("invalid attempt " ++ id))
  attemptStatusCheck id a
  ensure (a.repairState == .unset || validRepairLifecycle a.repairState)
    (errorNew ("attempt " ++ id ++ " has invalid repair state " ++ quote a.repairState.text))

section

variable (p : PlanProjection) (id : String) (r : RepairPlan)

def repairHeadCheck : Except Err Unit := do
  ensure (!(r.id != id || r.planID != p.planID || r.repairNodeID == "" || r.repairAttemptID == "" ||
    r.targetNodeID == "" || r.verificationNodeIDs.isEmpty || r.maxRounds < 1 || r.round < 1 ||
    !validRepairLifecycle r.state))
    (errorNew ("invalid repair plan " ++ id))
  ensure (!(r.round > r.maxRounds)) (errorNew ("repair plan " ++ id ++ " exceeds max rounds"))
  eachSeen (fun nodeID => nodeID) (fun _ seen nodeID => do
    ensure (!blank nodeID) (errorNew ("repair plan " ++ id ++ " has an empty verification node"))
    ensure (!seen.contains nodeID)
      (errorNew ("repair plan " ++ id ++ " has duplicate verification node " ++ nodeID)))
    0 [] r.verificationNodeIDs

def repairLineageCheck : Except Err Unit := do
  ensure (!(r.repairAttemptIDs.isEmpty || !r.repairAttemptIDs.contains r.repairAttemptID))
    (errorNew ("repair plan " ++ id ++ " has incomplete attempt lineage"))
  ensure (p.attempts[r.repairAttemptID]?.any fun a =>
    a.nodeID == r.repairNodeID && a.status == .passed)
    (errorNew ("repair plan " ++ id ++ " has no passed planning attempt"))

/-- The recorded states, each step of which the lifecycle allows. -/
def historyStepsCheck (id : String) : List RepairLifecycle → Except Err Unit
  | s :: next :: rest => do
    ensure (repairLifecycleTransitionAllowed s next) (errorNew ("repair plan " ++ id ++
      " has invalid state transition " ++ s.text ++ " -> " ++ next.text))
    historyStepsCheck id (next :: rest)
  | _ => .ok ()

def repairHistoryCheck : Except Err Unit := do
  ensure (!(r.stateHistory.isEmpty || r.stateHistory.head? != some .planned ||
    r.stateHistory.getLast? != some r.state))
    (errorNew ("repair plan " ++ id ++ " has incomplete state history"))
  historyStepsCheck id r.stateHistory

def repairTargetCheck : Except Err Unit :=
  let fail := fun text => errorNew ("repair plan " ++ id ++ text)
  if [.dispatched, .patched, .verifying, .verified].contains r.state then do
    ensure (r.targetAttemptID != "") (fail (" is " ++ r.state.text ++ " without a target attempt"))
    match p.attempts[r.targetAttemptID]? with
    | none => .error (fail " points to an invalid target attempt")
    | some target =>
      ensure (target.nodeID == r.targetNodeID) (fail " points to an invalid target attempt")
      ensure (!(r.state == .dispatched && target.status != .running))
        (fail " is dispatched without a running target attempt")
      ensure (r.state == .dispatched || target.status == .passed)
        (fail (" has state " ++ r.state.text ++ " without a passed target attempt"))
  else .ok ()

def verificationAttemptCheck (nodeID attemptID : String) : Except Err Unit := do
  let fail := fun text => errorNew ("repair plan " ++ id ++ text ++ nodeID)
  ensure (!(!r.verificationNodeIDs.contains nodeID || blank attemptID))
    (fail " has an undeclared verification attempt for ")
  match p.attempts[attemptID]? with
  | none => .error (fail " has an invalid verification attempt for ")
  | some a =>
    ensure (a.nodeID == nodeID) (fail " has an invalid verification attempt for ")
    ensure (!(r.state == .verifying && a.status != .running && a.status != .passed))
      (fail " is verifying with non-running verification attempt for ")

def repairVerifyingCheck : Except Err Unit :=
  if r.state == .verifying || r.state == .verified then do
    ensure (r.verificationAttempts.size != 0)
      (errorNew ("repair plan " ++ id ++ " is " ++ r.state.text ++
        " without verification attempts"))
    eachOk (fun e => verificationAttemptCheck p id r e.1 e.2) r.verificationAttempts.toList
  else .ok ()

def repairVerifiedCheck : Except Err Unit :=
  let fail := fun text => errorNew ("repair plan " ++ id ++ " is verified without " ++ text)
  if r.state == .verified then do
    ensure (r.targetAttemptID != "") (fail "target patch attempt")
    ensure (!(r.verificationAttempts.size < r.verificationNodeIDs.length))
      (fail "all verification attempts")
    eachOk (fun nodeID => do
      ensure ((r.verifiedNodes[nodeID]?).getD false) (fail ("verification result for " ++ nodeID))
      ensure (p.attempts[(r.verificationAttempts[nodeID]?).getD ""]?.any fun a =>
        a.nodeID == nodeID && a.status == .passed)
        (fail ("a passed verification attempt for " ++ nodeID))) r.verificationNodeIDs
  else .ok ()

def repairCheck : Except Err Unit := do
  repairHeadCheck p id r
  repairLineageCheck p id r
  repairHistoryCheck id r
  repairTargetCheck p id r
  repairVerifyingCheck p id r
  repairVerifiedCheck p id r

end

def nodeCheck (p : PlanProjection) (id : String) (n : NodeProjection) : Except Err Unit := do
  ensure (n.nodeID == id) (errorNew ("invalid node projection " ++ id))
  ensure (n.status != .unset)
    (errorNew ("node " ++ id ++ " has invalid status " ++ quote n.status.text))
  if n.currentAttempt != "" then
    match p.attempts[n.currentAttempt]? with
    | none => .error (errorNew ("node " ++ id ++ " points to unknown attempt"))
    | some a =>
      ensure (a.nodeID == id) (errorNew ("node " ++ id ++ " points to unknown attempt"))
      ensure (!(n.status == .running && a.status != .running))
        (errorNew ("node " ++ id ++ " is running but current attempt is " ++ a.status.text))
      ensure (!(n.status == .waiting && a.status != .waiting))
        (errorNew ("node " ++ id ++ " is waiting but current attempt is " ++ a.status.text))
  else .ok ()

def PlanProjection.validate (p : PlanProjection) : Except Err Unit := do
  ensure (!(p.planID == "" || p.revision < 1))
    (errorNew "projection plan_id and revision are required")
  ensure (!(p.status != .ready && p.status != .running && p.status != .waiting &&
    p.status != .terminal))
    (errorNew ("invalid projection plan status " ++ quote p.status.text))
  ensure (!(p.tokenUsage < 0 || p.toolCalls < 0 || p.costCents < 0))
    (errorNew "projection usage counters cannot be negative")
  eachOk (fun e => attemptCheck p e.1 e.2) p.attempts.toList
  eachOk (fun e => repairCheck p e.1 e.2) p.repairPlans.toList
  ensure (!(p.status == .terminal && p.terminalOutcome == "succeeded" && !allRepairsVerified p))
    (errorNew "terminal success requires every repair plan to be verified")
  eachOk (fun e => nodeCheck p e.1 e.2) p.nodes.toList

end Adro.Orchestration
