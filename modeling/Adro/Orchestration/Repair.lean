import Adro.Orchestration.Graph

/-!
# Repair contracts

A repair node that passes records a contract: a target to patch, nodes to
verify the patch, and a bound on rounds. Attempts of the target and of the
verification nodes are linked to the contract when they start and advance its
lifecycle when they finish.
-/

namespace Adro.Orchestration

open Adro.Go

def stringSliceValue : Option Value → List String
  | some (.strs values) => values
  | some (.list values) => (stringItems values).filter fun item => !blank item
  | _ => []

/-- An `int` or `int64` is within 64 bits; `i64` states it. -/
def intValue : Option Value → Int
  | some (.int .int n) | some (.int .int64 n) => i64 n
  | some (.float .float64 x) => x.toInt64
  | _ => 0

theorem intValue_le : intValue v ≤ maxInt64 := by
  unfold intValue
  split
  · exact i64_le
  · exact i64_le
  · exact F64.toInt64_le _
  · decide

/-- The first occurrences of the non-empty items that are not seen before. -/
def uniqueItems : List String → List String → List String
  | _, [] => []
  | seen, value :: rest =>
    if value == "" || seen.contains value then uniqueItems seen rest
    else value :: uniqueItems (value :: seen) rest

def appendUnique (values additions : List String) : List String :=
  uniqueItems [] (values ++ additions)

theorem mem_uniqueItems : x ∈ uniqueItems seen l ↔ x ∈ l ∧ x ≠ "" ∧ x ∉ seen := by
  induction l generalizing seen with
  | nil => simp [uniqueItems]
  | cons v rest ih =>
    unfold uniqueItems
    split
    · rename_i h
      rw [ih, List.mem_cons]
      simp only [Bool.or_eq_true, beq_iff_eq, List.contains_iff_mem] at h
      constructor
      · exact fun ⟨hx, hne, hs⟩ => ⟨.inr hx, hne, hs⟩
      · rintro ⟨rfl | hx, hne, hs⟩
        · rcases h with h | h
          · exact absurd h hne
          · exact absurd h hs
        · exact ⟨hx, hne, hs⟩
    · rename_i h
      simp only [Bool.or_eq_true, beq_iff_eq, List.contains_iff_mem, not_or] at h
      simp only [List.mem_cons, ih, not_or]
      constructor
      · rintro (rfl | ⟨hx, hne, -, hs⟩)
        · exact ⟨.inl rfl, h⟩
        · exact ⟨.inr hx, hne, hs⟩
      · rintro ⟨rfl | hx, hne, hs⟩
        · exact .inl rfl
        · by_cases hxv : x = v
          · exact .inl hxv
          · exact .inr ⟨hx, hne, hxv, hs⟩

variable {values : List String}

theorem mem_appendUnique :
    x ∈ appendUnique values additions ↔ (x ∈ values ∨ x ∈ additions) ∧ x ≠ "" := by
  simp [appendUnique, mem_uniqueItems]

theorem uniqueItems_skip (h : (v == "" || seen.contains v) = true) :
    uniqueItems seen (v :: l) = uniqueItems seen l :=
  if_pos h

theorem uniqueItems_keep (h : ¬ (v == "" || seen.contains v) = true) :
    uniqueItems seen (v :: l) = v :: uniqueItems (v :: seen) l :=
  if_neg h

theorem uniqueItems_congr (h : ∀ x, x ∈ seen ↔ x ∈ seen') :
    uniqueItems seen l = uniqueItems seen' l := by
  induction l generalizing seen seen' with
  | nil => rfl
  | cons v rest ih =>
    have hv : seen.contains v = seen'.contains v := by
      rw [Bool.eq_iff_iff, List.contains_iff_mem, List.contains_iff_mem]
      exact h v
    have hcons : uniqueItems (v :: seen) rest = uniqueItems (v :: seen') rest :=
      ih fun x => by rw [List.mem_cons, List.mem_cons, h x]
    unfold uniqueItems
    rw [hv, ih h, hcons]

theorem uniqueItems_append :
    uniqueItems seen (l ++ m) =
      uniqueItems seen l ++ uniqueItems (uniqueItems seen l ++ seen) m := by
  induction l generalizing seen with
  | nil => rfl
  | cons v rest ih =>
    rw [List.cons_append]
    by_cases hv : (v == "" || seen.contains v) = true
    · rw [uniqueItems_skip hv, uniqueItems_skip hv, ih]
    · rw [uniqueItems_keep hv, uniqueItems_keep hv, ih]
      refine congrArg _ (congrArg _ (uniqueItems_congr fun x => ?_))
      simp only [List.mem_append, List.mem_cons]
      rw [or_assoc, or_left_comm]

theorem uniqueItems_seen (h : ∀ x ∈ l, x ∈ seen) : uniqueItems seen l = [] := by
  induction l with
  | nil => rfl
  | cons v rest ih =>
    have hv : seen.contains v = true := List.contains_iff_mem.mpr (h v List.mem_cons_self)
    rw [uniqueItems_skip (by rw [hv, Bool.or_true])]
    exact ih fun x hx => h x (List.mem_cons_of_mem _ hx)

theorem uniqueItems_twice : uniqueItems seen (uniqueItems seen l) = uniqueItems seen l := by
  induction l generalizing seen with
  | nil => rfl
  | cons v rest ih =>
    by_cases hv : (v == "" || seen.contains v) = true
    · rw [uniqueItems_skip hv, ih]
    · rw [uniqueItems_keep hv, uniqueItems_keep hv, ih]

theorem appendUnique_twice :
    appendUnique values (appendUnique values additions) = appendUnique values additions := by
  have hnil : uniqueItems (uniqueItems [] values) (uniqueItems [] values) = [] :=
    uniqueItems_seen fun x hx => hx
  unfold appendUnique
  simp only [uniqueItems_append, List.append_nil, hnil, List.nil_append, uniqueItems_twice]

def repairVerificationNodes (a : NodeAttempt) : List String :=
  match a.result.fields["verification_node_ids"]? with
  | some (.strs values) => values
  | some (.list values) => stringItems values
  | _ => []

def validRepairLifecycle : RepairLifecycle → Bool
  | .unset => false
  | _ => true

def repairLifecycleTransitionAllowed (source target : RepairLifecycle) : Bool :=
  source == target ||
  match source with
  | .planned => target == .dispatched || target == .failed || target == .exhausted
  | .dispatched => target == .patched || target == .failed || target == .exhausted
  | .patched => target == .verifying || target == .failed || target == .exhausted
  | .verifying => target == .verified || target == .failed || target == .exhausted
  | .failed => target == .planned || target == .exhausted
  | .verified | .exhausted | .unset => false

/-- The state history with the current state as its last entry. -/
def RepairPlan.currentHistory (r : RepairPlan) : List RepairLifecycle :=
  let history := if r.stateHistory.isEmpty then [r.state] else r.stateHistory
  if history.getLast? == some r.state then history else history ++ [r.state]

def setRepairState (r : RepairPlan) (next : RepairLifecycle) : Option RepairPlan :=
  if !validRepairLifecycle next then none
  else if r.state == .unset then
    some { r with state := next, stateHistory := r.stateHistory ++ [next] }
  else if !repairLifecycleTransitionAllowed r.state next then none
  else if r.state != next then
    some { r with state := next, stateHistory := r.currentHistory ++ [next] }
  else some { r with stateHistory := r.currentHistory }

def repairCodes : List String :=
  ["provider_failed", "provider_timeout", "provider_result_missing",
    "provider_tool_evidence_missing", "upstream_error", "timeout", "lease_expired"]

def isRetryableRepairProviderFailure (a : NodeAttempt) : Bool :=
  (a.status == .failed || a.status == .timedOut) &&
    match a.failureReason with
    | some reason => reason.retryable && repairCodes.contains reason.code
    | none => false

section

variable (p : PlanProjection) (g : WorkflowGraph)

def retryableRepairProviderAttempt (attemptID : String) : Bool :=
  attemptID != "" && p.attempts[attemptID]?.any isRetryableRepairProviderFailure

/-- The marker under which a new round reopens the target. -/
def targetMarker (repairID : String) : String := "repair:" ++ repairID ++ ":target"

def repairReadyFrom (nodeID source repairID : String) (verification : Bool) : Bool :=
  match p.nodes[nodeID]? with
  | none => false
  | some node =>
    (!verification && node.readyEdgeIDs.contains (targetMarker repairID)) ||
    (node.readyEdgeIDs.any fun readyID => g.edges.any fun e =>
      e.id == readyID && e.fromID == source && e.toID == nodeID && e.on == .success) ||
    (verification && node.readyEdgeIDs.any fun readyID => g.edges.any fun e =>
      e.id == readyID && e.toID == nodeID && e.on == .success &&
        repairPathExists g source e.fromID .success)

/-- The state under which an attempt of the node would join this contract. -/
def dispatchUnder (nodeID : String) (r : RepairPlan) : Option RepairLifecycle :=
  let targetRetry := r.targetNodeID == nodeID && r.state == .dispatched &&
    retryableRepairProviderAttempt p r.targetAttemptID
  if r.targetNodeID == nodeID &&
      ((r.state == .planned && r.targetAttemptID == "") || targetRetry) &&
      (targetRetry || repairReadyFrom p g nodeID r.repairNodeID r.id false) then
    some .dispatched
  else
    let verificationAttemptID := (r.verificationAttempts[nodeID]?).getD ""
    let verifiable := r.verificationNodeIDs.contains nodeID &&
      (r.state == .patched || r.state == .verifying) && r.targetAttemptID != ""
    let verificationRetry := verifiable && retryableRepairProviderAttempt p verificationAttemptID
    if verifiable && repairReadyFrom p g nodeID r.targetNodeID r.id true &&
        (verificationAttemptID == "" || verificationRetry) then some .verifying
    else if verificationRetry then some .verifying
    else none

/-- The first contract, by id, that an attempt of the node joins. -/
def repairPlanForDispatch (nodeID : String) : Option (String × RepairLifecycle) :=
  p.repairPlans.toList.findSome? fun e => (dispatchUnder p g nodeID e.2).map fun s => (e.1, s)

end

def createRepairPlan (p : PlanProjection) (plan : RequirementExecutionPlan) (a : NodeAttempt) :
    Except Err RepairPlan := do
  let fields := a.result.fields
  let target := trimSpace ((fields["target_node_id"]?.bind Value.str?).getD "")
  let verification := repairVerificationNodes a
  let maxRounds := intValue fields["max_rounds"]?
  let fail := Sentinel.invalidTransition.errf
  ensure (!(target == "" || verification.isEmpty || maxRounds < 1))
    (fail "repair decision is incomplete")
  ensure (p.nodes.contains target) (fail ("repair target " ++ target ++ " is unknown"))
  eachOk (fun id => ensure (p.nodes.contains id)
    (fail ("repair verification node " ++ id ++ " is unknown"))) verification
  ensure (repairPathExists plan.graphSnapshot a.nodeID target .success)
    (fail ("repair target " ++ target ++ " is not on a success edge"))
  eachOk (fun id => ensure (repairPathExists plan.graphSnapshot target id .success)
    (fail ("verification node " ++ id ++ " is not reachable from target"))) verification
  pure {
    id := plan.id ++ ":repair:" ++ a.id
    planID := plan.id
    repairNodeID := a.nodeID
    repairAttemptID := a.id
    repairAttemptIDs := [a.id]
    targetNodeID := target
    verificationNodeIDs := verification
    sourceAttemptIDs := stringSliceValue fields["source_attempt_ids"]?
    scope := stringSliceValue fields["scope"]?
    maxRounds := maxRounds
    round := 1
    state := .planned
    stateHistory := [.planned] }

/-- A contract that a new pass of its repair node refreshes. -/
def RepairPlan.openFor (r : RepairPlan) (nodeID : String) : Bool :=
  r.repairNodeID == nodeID && r.state != .verified && r.state != .exhausted

/-- A refresh keeps the contract's identity, round and lifecycle. -/
def RepairPlan.refresh (existing fresh : RepairPlan) (id attemptID : String) : RepairPlan :=
  { fresh with
    id := id
    round := existing.round
    state := existing.state
    stateHistory :=
      if existing.stateHistory.isEmpty then [existing.state] else existing.stateHistory
    repairAttemptIDs := appendUnique existing.repairAttemptIDs [attemptID] }

/-- Store the contract of a passing repair attempt and link the attempt. -/
def recordRepairPlan (p : PlanProjection) (a : NodeAttempt) (fresh : RepairPlan) :
    NodeAttempt × PlanProjection :=
  match p.repairPlans.find (fun _ r => r.openFor a.nodeID) with
  | some (id, existing) =>
    ({ a with repairPlanID := id },
      { p with repairPlans := p.repairPlans.insert id (existing.refresh fresh id a.id) })
  | none =>
    if a.repairPlanID == "" then
      ({ a with repairPlanID := fresh.id },
        { p with repairPlans := p.repairPlans.insert fresh.id fresh })
    else (a, p)

section

variable (p : PlanProjection) (a : NodeAttempt) (r : RepairPlan)

def resetNode (p : PlanProjection) (nodeID : String) : PlanProjection :=
  match p.nodes[nodeID]? with
  | none => p
  | some node =>
    if node.status == .running then p
    else if nodeID == r.targetNodeID then
      { p with nodes := p.nodes.insert nodeID { node with
          retryAt := none, status := .ready, readyEdgeIDs := [targetMarker r.id] } }
    else
      { p with nodes := p.nodes.insert nodeID { node with
          retryAt := none, status := .pending, readyEdgeIDs := [] } }

def resetRepairRound : PlanProjection :=
  (r.targetNodeID :: r.verificationNodeIDs).foldl (resetNode r) p

/-- What `advanceRepairAttemptState` leaves on a check that fails: the
`VerifiedNodes` map is shared with the stored contract, so a verification
that is then refused has been entered in it. -/
abbrev Advance := Except Err RepairLifecycle × PlanProjection

def RepairPlan.nextRound : RepairPlan :=
  { r with
    round := i64 (r.round + 1), targetAttemptID := "", verificationAttempts := ∅
    verifiedNodes := ∅ }

/-- The outcome of a failed target or verification attempt: another round, or
none left. The last two transitions are always allowed from `failed`. -/
def failRepairRound (reopen : String) : Advance :=
  let fail := fun detail => (.error (Sentinel.invalidTransition.errf
    ("repair " ++ r.id ++ " cannot " ++ detail)), p)
  match setRepairState r .failed with
  | none => fail "transition to failed"
  | some r =>
    if r.round < r.maxRounds then
      let r := r.nextRound
      let p := resetRepairRound p r
      match setRepairState r .planned with
      | none => (.error (Sentinel.invalidTransition.errf ("repair " ++ r.id ++ reopen)), p)
      | some r => (.ok .failed, { p with repairPlans := p.repairPlans.insert r.id r })
    else
      match setRepairState r .exhausted with
      | none => fail "transition to exhausted"
      | some r => (.ok .exhausted, { p with repairPlans := p.repairPlans.insert r.id r })

def passTarget : Advance :=
  match setRepairState r .patched with
  | none => (.error (Sentinel.invalidTransition.errf
      ("repair " ++ r.id ++ " cannot transition to patched")), p)
  | some r =>
    let r := { r with patchArtifactIDs := appendUnique r.patchArtifactIDs a.outputArtifacts }
    (.ok .patched, { p with repairPlans := p.repairPlans.insert r.id r })

def passVerification : Advance :=
  let verified := r.verifiedNodes.insert a.nodeID true
  let shared := { p with
    repairPlans := p.repairPlans.insert a.repairPlanID { r with verifiedNodes := verified } }
  let r := { r with
    verifiedNodes := verified
    verificationArtifactIDs := appendUnique r.verificationArtifactIDs a.outputArtifacts }
  let next := if verified.size == r.verificationNodeIDs.length then .verified else .verifying
  match setRepairState r next with
  | none => (.error (Sentinel.invalidTransition.errf ("repair " ++ r.id ++
      if next == .verified then " cannot transition to verified" else " cannot remain verifying")),
      shared)
  | some r => (.ok next, { p with repairPlans := p.repairPlans.insert r.id r })

def AttemptStatus.unsuccessful : AttemptStatus → Bool
  | .failed | .timedOut | .cancelled => true
  | _ => false

def advanceRepairAttemptState : Advance :=
  if a.repairPlanID == "" then (.ok a.repairState, p)
  else
    match p.repairPlans[a.repairPlanID]? with
    | none => (.error (Sentinel.invalidTransition.errf
        ("repair plan " ++ a.repairPlanID ++ " is missing")), p)
    | some r =>
      if isRetryableRepairProviderFailure a then
        (.ok a.repairState, { p with repairPlans := p.repairPlans.insert r.id r })
      else
        match a.repairState with
        | .dispatched =>
          if a.status == .passed then passTarget p a r
          else if a.status.unsuccessful then
            failRepairRound p r " cannot reopen after failure"
          else (.ok a.repairState, p)
        | .verifying =>
          if a.status == .passed then passVerification p a r
          else if a.status.unsuccessful then
            failRepairRound p r " cannot reopen after verification failure"
          else (.ok a.repairState, p)
        | _ => (.ok a.repairState, p)

end

def RepairPlan.allVerified (r : RepairPlan) : Bool :=
  r.state == .verified && !r.verificationNodeIDs.isEmpty &&
    r.verificationNodeIDs.length ≤ r.verifiedNodes.size &&
    r.verificationNodeIDs.all fun id => (r.verifiedNodes[id]?).getD false

def allRepairsVerified (p : PlanProjection) : Bool := p.repairPlans.all fun _ r => r.allVerified

def repairVerificationPending (p : PlanProjection) : Bool :=
  p.repairPlans.any fun _ r => [.planned, .dispatched, .patched, .verifying].contains r.state

end Adro.Orchestration
