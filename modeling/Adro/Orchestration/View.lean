import Adro.Orchestration.FinishLaws

/-!
# Projections up to the fields of results

A `view` of a projection has the fields of every stored result rewritten and
other values under the idempotency keys. A reducer call that succeeds on a
projection succeeds on its view, with the view of its outcome, when the keys it
uses are new and it reads the same from the rewritten result. Both a log that
went through JSON and a result that was stamped before it was recorded are
views in this sense.
-/

namespace Adro.Orchestration

open Adro.Go

section

variable (f : StructuredResult → StructuredResult)

/-- A change of results that keeps all but their fields. -/
structure Rewrites : Prop where
  empty : f {} = {}
  outcome : ∀ r, (f r).outcome = r.outcome
  reasonCode : ∀ r, (f r).reasonCode = r.reasonCode
  evidenceIDs : ∀ r, (f r).evidenceIDs = r.evidenceIDs

def NodeAttempt.view (a : NodeAttempt) : NodeAttempt :=
  { a with result := f a.result }

def FeedbackDecision.view (d : FeedbackDecision) : FeedbackDecision :=
  { d with structuredResult := f d.structuredResult }

end

def PlanProjection.view (f : StructuredResult → StructuredResult) (keys : GoMap String)
    (p : PlanProjection) : PlanProjection :=
  { p with
    attempts := GoMap.mapValues (NodeAttempt.view f) p.attempts
    decisions := p.decisions.map (FeedbackDecision.view f)
    idempotency := keys }

variable {H : Host} {plan : RequirementExecutionPlan} {p q : PlanProjection}
  {f : StructuredResult → StructuredResult} {keys : GoMap String} {args : StartArgs} {now : Time}
  {n : NodeProjection} {k : String} {clock : Time}

theorem runningCount_view : runningCount (p.view f keys) = runningCount p :=
  GoMap.count_mapValues fun _ _ => rfl

theorem nodeSum_view (h : ∀ (k : String) (a : NodeAttempt),
    p.attempts[k]? = some a → w (a.view f) = w a) :
    nodeSum (p.view f keys) k w = nodeSum p k w := by
  refine GoMap.sum_mapValues fun j a ha => ?_
  rw [h j a ha]
  rfl

theorem startPlanCheck_view :
    startPlanCheck H plan (p.view f keys) args now = startPlanCheck H plan p args now := by
  unfold startPlanCheck
  rw [runningCount_view]
  rfl

theorem startNodeCheck_view :
    startNodeCheck plan (p.view f keys) args now = startNodeCheck plan p args now := by
  have hcount : (p.view f keys).attempts.count
      (fun _ a => a.nodeID == args.nodeID && a.status == .running) =
      p.attempts.count fun _ a => a.nodeID == args.nodeID && a.status == .running :=
    GoMap.count_mapValues fun _ _ => rfl
  unfold startNodeCheck
  rw [nodeSum_view fun _ _ _ => rfl, hcount]
  rfl

theorem get_view : (p.view f keys).attempts[k]? = p.attempts[k]?.map (NodeAttempt.view f) :=
  GoMap.get_mapValues

theorem any_view (h : ∀ a, t (a.view f) = t a) :
    (p.view f keys).attempts[k]?.any t = p.attempts[k]?.any t := by
  rw [get_view]
  cases p.attempts[k]? with
  | none => rfl
  | some a => exact h a

theorem startIdentityCheck_view (hid : p.attempts[args.attemptID]? = none) :
    startIdentityCheck plan (p.view f keys) args now n = startIdentityCheck plan p args now n := by
  have hany (i : Int) : (p.view f keys).attempts.any (fun _ a =>
      a.planID == plan.id && a.nodeID == args.nodeID && a.attemptNo == i) =
      p.attempts.any fun _ a => a.planID == plan.id && a.nodeID == args.nodeID &&
      a.attemptNo == i :=
    GoMap.any_mapValues fun _ _ => rfl
  have hidle : (p.view f keys).attempts[n.currentAttempt]?.any (fun old => old.status == .running) =
      p.attempts[n.currentAttempt]?.any fun old => old.status == .running := any_view fun _ => rfl
  unfold startIdentityCheck
  simp only [hidle, hany]
  rw [get_view, hid, Option.map_none]

theorem startReplay_new (h : p.idempotency[args.input.idempotencyKey]? = none) :
    startReplay p args.input = .ok none := by
  unfold startReplay
  rw [h]
  split <;> rfl

theorem startCheck_view (hid : p.attempts[args.attemptID]? = none)
    (hp : p.idempotency[args.input.idempotencyKey]? = none)
    (hkeys : keys[args.input.idempotencyKey]? = none) :
    startCheck H plan (p.view f keys) args now = startCheck H plan p args now := by
  unfold startCheck
  simp only [startReplay_new hp, startReplay_new (p := p.view f keys) hkeys, startPlanCheck_view,
    startNodeCheck_view, startIdentityCheck_view hid]

theorem startCheck_new (hid : p.attempts[args.attemptID]? = none)
    (hp : p.idempotency[args.input.idempotencyKey]? = none) :
    startCheck H plan p args now ≠ .ok (.replay a) := by
  intro h
  simp only [startCheck, startReplay_new hp, bind_ok] at h
  obtain ⟨-, -, o, ho, h⟩ := h
  cases ho
  obtain ⟨m, -, h⟩ := bind_ok.mp h
  simp only [startIdentityCheck, hid, then_ok] at h
  obtain ⟨-, -, -, -, -, h⟩ := h
  cases h

theorem retryableRepairProviderAttempt_view :
    retryableRepairProviderAttempt (p.view f keys) k = retryableRepairProviderAttempt p k := by
  unfold retryableRepairProviderAttempt
  rw [any_view fun _ => rfl]

theorem newAttempt_view :
    newAttempt plan (p.view f keys) args n no now = newAttempt plan p args n no now := by
  have hunder (r : RepairPlan) : dispatchUnder (p.view f keys) plan.graphSnapshot args.nodeID r =
      dispatchUnder p plan.graphSnapshot args.nodeID r := by
    unfold dispatchUnder
    simp only [retryableRepairProviderAttempt_view]
    rfl
  have hdispatch : repairPlanForDispatch (p.view f keys) plan.graphSnapshot args.nodeID =
      repairPlanForDispatch p plan.graphSnapshot args.nodeID := by
    unfold repairPlanForDispatch
    simp only [hunder]
    rfl
  unfold newAttempt
  rw [hdispatch]

theorem NodeAttempt.view_new (hf : Rewrites f) {a : NodeAttempt} (h : a.result = {}) :
    a.view f = a := by
  unfold NodeAttempt.view
  rw [h, hf.empty, ← h]

theorem started_view (hf : Rewrites f) :
    started plan (p.view f keys) args n no now =
      (started plan p args n no now).view f
        (recordKey keys args.input.idempotencyKey args.input.payloadHash) := by
  have hset : (p.view f keys).attempts.insert args.attemptID (newAttempt plan p args n no now) =
      GoMap.mapValues (NodeAttempt.view f)
        (p.attempts.insert args.attemptID (newAttempt plan p args n no now)) := by
    rw [GoMap.mapValues_set, NodeAttempt.view_new hf rfl]
    rfl
  unfold started
  simp only [newAttempt_view, hset]
  rfl

/-- A start on a view gives the same attempt and the view of the projection. -/
theorem startAttempt_view (hf : Rewrites f) (hid : p.attempts[args.attemptID]? = none)
    (hp : p.idempotency[args.input.idempotencyKey]? = none)
    (hkeys : keys[args.input.idempotencyKey]? = none)
    (h : startAttempt H plan p args clock = (.ok a, q)) :
    startAttempt H plan (p.view f keys) args clock =
      (.ok a, q.view f (recordKey keys args.input.idempotencyKey args.input.payloadHash)) := by
  unfold startAttempt at h ⊢
  simp only [startCheck_view hid hp hkeys] at h ⊢
  split at h
  · cases h
  · exact absurd (by assumption) (startCheck_new hid hp)
  · rw [startCommit_eq] at h ⊢
    cases h
    rw [newAttempt_view, started_view hf]

def NodeAttempt.setResult (r : StructuredResult) (a : NodeAttempt) : NodeAttempt :=
  { a with result := r }

/-- The result of a call with the view of the projection it leaves. -/
def viewed {α : Type} (f : StructuredResult → StructuredResult) (keys : GoMap String)
    (c : α × PlanProjection) : α × PlanProjection :=
  (c.1, c.2.view f keys)

@[simp] theorem view_nodes : (p.view f keys).nodes = p.nodes := (rfl)
@[simp] theorem view_repairPlans : (p.view f keys).repairPlans = p.repairPlans := (rfl)

section
variable {res : StructuredResult} {a : NodeAttempt}
@[simp] theorem setResult_id : (a.setResult res).id = a.id := (rfl)
@[simp] theorem setResult_nodeID : (a.setResult res).nodeID = a.nodeID := (rfl)
@[simp] theorem setResult_status : (a.setResult res).status = a.status := (rfl)
@[simp] theorem setResult_repairState : (a.setResult res).repairState = a.repairState := (rfl)
@[simp] theorem setResult_repairPlanID : (a.setResult res).repairPlanID = a.repairPlanID := (rfl)
@[simp] theorem setResult_result : (a.setResult res).result = res := (rfl)
end

variable {r : RepairPlan} {res : StructuredResult} {a : NodeAttempt} {text : String}

theorem resetRepairRound_view :
    resetRepairRound (p.view f keys) r = (resetRepairRound p r).view f keys := by
  refine List.foldl_hom (PlanProjection.view f keys) fun q k => ?_
  unfold resetNode
  rw [view_nodes]
  cases q.nodes[k]? with
  | none => rfl
  | some node =>
    simp only
    split
    · rfl
    · split <;> rfl

theorem failRepairRound_view :
    failRepairRound (p.view f keys) r text = viewed f keys (failRepairRound p r text) := by
  unfold failRepairRound
  cases setRepairState r .failed with
  | none => rfl
  | some r' =>
    simp only
    split
    · rw [resetRepairRound_view]
      cases setRepairState r'.nextRound .planned <;> rfl
    · cases setRepairState r' .exhausted <;> rfl

theorem passTarget_view :
    passTarget (p.view f keys) (a.setResult res) r = viewed f keys (passTarget p a r) := by
  unfold passTarget
  cases setRepairState r .patched <;> rfl

theorem passVerification_view :
    passVerification (p.view f keys) (a.setResult res) r = viewed f keys
      (passVerification p a r) := by
  show passVerification (p.view f keys) a r = _
  unfold passVerification
  simp only
  split <;> rfl

theorem advanceRepairAttemptState_view :
    advanceRepairAttemptState (p.view f keys) (a.setResult res) =
      viewed f keys (advanceRepairAttemptState p a) := by
  have hretry : isRetryableRepairProviderFailure (a.setResult res) =
      isRetryableRepairProviderFailure a := rfl
  unfold advanceRepairAttemptState
  simp only [passTarget_view, passVerification_view, failRepairRound_view, view_repairPlans,
    setResult_status, setResult_repairState, setResult_repairPlanID, hretry]
  split
  · rfl
  · cases p.repairPlans[a.repairPlanID]? with
    | none => rfl
    | some r =>
      simp only
      split
      · rfl
      · cases a.repairState <;> simp only <;> (first | rfl | split) <;>
          (first | rfl | split) <;> rfl

/-- What a repair decision says: target, verification nodes, rounds, sources, scope. -/
def repairReads (r : StructuredResult) : String × List String × Int × List String × List String :=
  (trimSpace ((r.fields["target_node_id"]?.bind Value.str?).getD ""),
    repairVerificationNodes { result := r }, intValue r.fields["max_rounds"]?,
    stringSliceValue r.fields["source_attempt_ids"]?, stringSliceValue r.fields["scope"]?)

theorem repairVerificationNodes_view (h : repairReads res = repairReads a.result) :
    repairVerificationNodes (a.setResult res) = repairVerificationNodes a :=
  (Prod.mk.inj (Prod.mk.inj h).2).1

theorem createRepairPlan_view (h : repairReads res = repairReads a.result) :
    createRepairPlan (p.view f keys) plan (a.setResult res) = createRepairPlan p plan a := by
  have hverify := repairVerificationNodes_view h
  simp only [repairReads, Prod.mk.injEq] at h
  obtain ⟨htarget, -, hrounds, hsources, hscope⟩ := h
  unfold createRepairPlan
  simp only [setResult_result, setResult_id, setResult_nodeID, htarget, hverify, hrounds, hsources,
    hscope, view_nodes]

theorem recordRepairPlan_view :
    recordRepairPlan (p.view f keys) (a.setResult res) fresh =
      ((recordRepairPlan p a fresh).1.setResult res,
        (recordRepairPlan p a fresh).2.view f keys) := by
  unfold recordRepairPlan
  simp only [view_repairPlans, setResult_nodeID, setResult_repairPlanID]
  cases p.repairPlans.find fun _ r => r.openFor a.nodeID with
  | some e => rfl
  | none =>
    simp only
    split <;> rfl

theorem planRepair_view (h : repairReads res = repairReads a.result) :
    planRepair plan (p.view f keys) (a.setResult res) =
      ((planRepair plan p a).1.map (NodeAttempt.setResult res),
        (planRepair plan p a).2.view f keys) := by
  have hverify := repairVerificationNodes_view h
  have hplan : createRepairPlan (p.view f keys) plan
      (({ a with repairState := .planned } : NodeAttempt).setResult res) =
      createRepairPlan p plan { a with repairState := .planned } := createRepairPlan_view h
  have hset : ({ a.setResult res with repairState := .planned } : NodeAttempt) =
      ({ a with repairState := .planned } : NodeAttempt).setResult res := rfl
  unfold planRepair
  simp only [hset]
  simp only [setResult_nodeID, hverify, hplan, recordRepairPlan_view]
  split
  · rfl
  · cases createRepairPlan p plan { a with repairState := .planned } <;> rfl

theorem repairStage_view (h : repairReads res = repairReads a.result) :
    repairStage plan (p.view f keys) (a.setResult res) =
      ((repairStage plan p a).1.map (NodeAttempt.setResult res),
        (repairStage plan p a).2.view f keys) := by
  unfold repairStage
  simp only [setResult_nodeID, setResult_status, setResult_repairState,
    advanceRepairAttemptState_view, planRepair_view h]
  split
  · split
    · rfl
    · split <;> rfl
  · split
    · generalize advanceRepairAttemptState p a = c
      obtain ⟨x, q⟩ := c
      cases x <;> rfl
    · rfl

/-- Every edge's predicate reads the same from the changed result. -/
def SameEdges (f : StructuredResult → StructuredResult) (plan : RequirementExecutionPlan)
    (r : StructuredResult) : Prop :=
  ∀ e ∈ plan.graphSnapshot.edges,
    evaluatePredicate e.predicate (resultFields (f r)) = evaluatePredicate e.predicate
      (resultFields r)

variable {e : WorkflowEdge} {edges : List WorkflowEdge} {event key : String}

theorem Rewrites.attempt (hf : Rewrites f) (a : NodeAttempt) :
    (a.view f).result.outcome = a.result.outcome ∧
      (a.view f).result.evidenceIDs = a.result.evidenceIDs :=
  ⟨hf.outcome _, hf.evidenceIDs _⟩

theorem edgeSatisfied_view (hf : Rewrites f) (h : SameEdges f plan a.result)
    (he : e ∈ plan.graphSnapshot.edges) :
    edgeSatisfied H e (a.view f) = edgeSatisfied H e a := by
  obtain ⟨hout, hev⟩ := hf.attempt a
  have hsettled : settledEvent H (a.view f) = settledEvent H a := by
    unfold settledEvent
    rw [hout]
    rfl
  have hpred : evaluatePredicate e.predicate (resultFields (a.view f).result) =
      evaluatePredicate e.predicate (resultFields a.result) := h e he
  unfold edgeSatisfied
  rw [hout, hev, hsettled, hpred]
  rfl

theorem matchEdges_view (hf : Rewrites f) (h : SameEdges f plan a.result)
    (hsub : ∀ e ∈ edges, e ∈ plan.graphSnapshot.edges) :
    matchEdges (a.view f) event edges = matchEdges a event edges := by
  obtain ⟨hout, hev⟩ := hf.attempt a
  induction edges with
  | nil => rfl
  | cons e rest ih =>
    have hpred : evaluatePredicate e.predicate (resultFields (a.view f).result) =
        evaluatePredicate e.predicate (resultFields a.result) := h e (hsub e List.mem_cons_self)
    unfold matchEdges
    rw [ih fun e he => hsub e (List.mem_cons_of_mem _ he), hout, hev, hpred]
    rfl

theorem openJoin_view : openJoin k (p.view f keys) = (openJoin k p).view f keys := by
  unfold openJoin
  rw [view_nodes]
  simp only
  split <;> rfl

theorem shortCircuitJoins_view (hf : Rewrites f) (h : SameEdges f plan a.result) :
    shortCircuitJoins H plan.graphSnapshot (a.view f) (p.view f keys) =
      (shortCircuitJoins H plan.graphSnapshot a p).view f keys := by
  have hnode (c : WorkflowNode) : shortCircuits H plan.graphSnapshot (a.view f) c =
      shortCircuits H plan.graphSnapshot a c := by
    unfold shortCircuits
    congr 1
    rw [Bool.eq_iff_iff, List.any_eq_true, List.any_eq_true]
    refine exists_congr fun e => and_congr_right fun he => ?_
    rw [edgeSatisfied_view hf h he]
    rfl
  unfold shortCircuitJoins
  simp only [hnode]
  show (if a.status.unsuccessful then _ else _) = _
  split
  · refine List.foldl_hom (PlanProjection.view f keys) fun q c => ?_
    rw [openJoin_view]
    split <;> rfl
  · rfl

@[simp] theorem traversalsOf_view : traversalsOf (p.view f keys) e = traversalsOf p e := (rfl)

theorem countTraversal_view :
    countTraversal e (p.view f keys) = (countTraversal e p).view f keys := by
  unfold countTraversal
  split <;> rfl

theorem openTarget_view :
    openTarget e fan (p.view f keys) = (openTarget e fan p).view f keys := by
  unfold openTarget
  simp only [view_nodes]
  split <;> rfl

section
variable (hf : Rewrites f)
include hf

theorem recordDecision_view : recordDecision plan (a.view f) key e fan (p.view f keys) =
      (recordDecision plan a key e fan p).view f keys := by
  have hev : (a.view f).result.evidenceIDs = a.result.evidenceIDs := hf.evidenceIDs _
  unfold recordDecision
  simp only [hev]
  split
  · rfl
  · simp only [PlanProjection.view, List.map_append]
    rfl

theorem followEdge_view : followEdge plan (a.view f) key fan e (p.view f keys) =
      viewed f keys (followEdge plan a key fan e p) := by
  unfold followEdge
  simp only [countTraversal_view, traversalsOf_view, openTarget_view, recordDecision_view hf]
  split <;> rfl

theorem followAll_view : followAll plan (a.view f) key edges (p.view f keys) =
      viewed f keys (followAll plan a key edges p) := by
  induction edges generalizing p with
  | nil => rfl
  | cons e rest ih =>
    unfold followAll
    rw [followEdge_view hf]
    generalize followEdge plan a key true e p = c
    obtain ⟨x, q⟩ := c
    cases x with
    | error err => rfl
    | ok u => exact ih

theorem routeWithoutEdge_view : routeWithoutEdge H plan (a.view f) event now (p.view f keys) =
      viewed f keys (routeWithoutEdge H plan a event now p) := by
  have hnode : (a.view f).nodeID = a.nodeID := rfl
  have hstatus : (a.view f).status = a.status := rfl
  obtain ⟨hout, hev⟩ := hf.attempt a
  have hretry (n : WorkflowNode) : mayRetry H n (a.view f) event = mayRetry H n a event := by
    unfold mayRetry retryAllowed
    rw [hout]
    rfl
  have hall : allRepairsVerified (p.view f keys) = allRepairsVerified p := rfl
  have hpending : repairVerificationPending (p.view f keys) = repairVerificationPending p := rfl
  unfold routeWithoutEdge
  rw [hnode, hstatus, hev, hall, hpending]
  simp only [hretry]
  split
  · rfl
  · split
    · split
      · rfl
      · split
        · split <;> rfl
        · rfl
    · split <;> rfl

theorem route_view (h : SameEdges f plan a.result)
    (hevent : j.event = i.event) (hkey : j.idempotencyKey = i.idempotencyKey) :
    route H plan (a.view f) j now (p.view f keys) = viewed f keys (route H plan a i now p) := by
  have hsel : routeSelection plan (a.view f) i.event = routeSelection plan a i.event := by
    unfold routeSelection
    rw [matchEdges_view hf h fun e he => he]
  unfold route
  rw [hevent, hkey, hsel, routeWithoutEdge_view hf]
  show (if deadlineTimeout a then _ else _) = _
  split
  · rfl
  · cases routeSelection plan a i.event with
    | error err => rfl
    | ok sel =>
      cases sel with
      | none => rfl
      | single e => exact followEdge_view hf
      | fanOut es => exact followAll_view hf

end

/-- `j` repeats, on a view, the finish `i` of the attempt `k` that gave `a`. -/
structure Repeats (f : StructuredResult → StructuredResult) (plan : RequirementExecutionPlan)
    (p : PlanProjection) (k : String) (i j : TransitionInput) (a : NodeAttempt) : Prop where
  revision : j.planRevision = p.revision
  leaseToken : j.leaseToken = i.leaseToken
  event : j.event = i.event
  failure : j.failure = i.failure
  key : j.idempotencyKey = i.idempotencyKey
  now : j.now = i.now
  artifacts : ∀ b, p.attempts[k]? = some b →
    appendUnique b.outputArtifacts j.outputArtifacts =
      appendUnique b.outputArtifacts i.outputArtifacts
  evidence : j.result.evidenceIDs = i.result.evidenceIDs
  usage : resultUsage j.result = resultUsage i.result
  repair : repairReads j.result = repairReads i.result
  stamp : stampResult a.repairState j.result = f a.result
  edges : SameEdges f plan a.result

def SameUsage (f : StructuredResult → StructuredResult) (p : PlanProjection) : Prop :=
  ∀ (k : String) (a : NodeAttempt), p.attempts[k]? = some a →
    resultUsage (f a.result) = resultUsage a.result

variable {i j : TransitionInput} {fin : Finishing} {hash : String}

theorem nodeBudgetCheck_view (hp : SameUsage f p) :
    nodeBudgetCheck d (p.view f keys) (b.view f) u now = nodeBudgetCheck d p b u now := by
  have husage (k : String) (c : NodeAttempt) (hc : p.attempts[k]? = some c) :
      resultUsage (c.view f).result = resultUsage c.result := hp k c hc
  unfold nodeBudgetCheck
  dsimp only
  rw [nodeSum_view fun k c hc => by simp only [husage k c hc]; rfl,
    nodeSum_view fun k c hc => by simp only [husage k c hc],
    nodeSum_view fun k c hc => by simp only [husage k c hc]]
  rfl

theorem admitFinish_view (hp : SameUsage f p) (hr : Repeats f plan p k i j a)
    (hb : p.attempts[k]? = some b) (h : admitFinish plan p b n key hash i now = .ok fin) :
    admitFinish plan (p.view f keys) (b.view f) n key hash' j now =
      .ok { fin with attempt := fin.attempt.setResult j.result, hash := hash' } := by
  have hev : evidenceCheck j = evidenceCheck i := by
    unfold evidenceCheck
    rw [hr.event, hr.evidence]
  have hart : appendUnique (b.view f).outputArtifacts j.outputArtifacts =
      appendUnique b.outputArtifacts i.outputArtifacts := hr.artifacts b hb
  unfold admitFinish at h ⊢
  simp only [then_ok] at h ⊢
  obtain ⟨hlive, hlease, hexpiry, hevidence, hplan, hnode, h⟩ := h
  rw [hr.leaseToken, hr.event, hev, hr.usage, nodeBudgetCheck_view hp, hart, hr.failure]
  cases hs : eventStatus i.event with
  | none => rw [hs] at h; cases h
  | some status =>
    rw [hs] at h
    cases h
    exact ⟨hlive, hlease, hexpiry, hevidence, hplan, hnode, rfl⟩

def SameKeys (keys keys' : GoMap String) : Prop := ∀ k : String, keys[k]? = none ↔ keys'[k]? = none

theorem finishCheck_view (hp : SameUsage f p) (hr : Repeats f plan p k i j a)
    (hnew : NewKey p.idempotency i.idempotencyKey) (hkeys : NewKey keys i.idempotencyKey)
    (h : finishCheck H plan p k i now = .ok (.fresh fin)) :
    ∃ hash', finishCheck H plan (p.view f keys) k j now =
      .ok (.fresh { fin with attempt := fin.attempt.setResult j.result, hash := hash' }) := by
  obtain ⟨b, m, hb, -, hm, hcurrent, replay, hreplay, h⟩ := finishCheck_ok.mp h
  rw [finishReplay_new hnew] at hreplay
  cases hreplay
  obtain ⟨fin', hfin, h⟩ := h
  cases h
  refine ⟨j.digest H, finishCheck_ok.mpr ⟨b.view f, m, ?_, ?_, hm, hcurrent, false, ?_, _, ?_, rfl⟩⟩
  · rw [get_view, hb, Option.map_some]
  · rw [hr.revision, Bool.and_eq_false_iff]
    exact .inr (bne_self_eq_false _)
  · rw [hr.key]
    exact finishReplay_new hkeys
  · rw [hr.key]
    exact admitFinish_view hp hr hb hfin

theorem commitFinish_view :
    commitFinish { fin with attempt := b, hash := hash' } k (a.view f) (p.view f keys) =
      (commitFinish fin k a p).view f (recordKey keys fin.key hash') := by
  have hset : (p.view f keys).attempts.insert k (a.view f) =
      GoMap.mapValues (NodeAttempt.view f) (p.attempts.insert k a) := GoMap.mapValues_set.symm
  unfold commitFinish
  rw [hset]
  rfl

theorem noteReason_view (hf : Rewrites f) :
    noteReason (a.view f) (p.view f keys) = (noteReason a p).view f keys := by
  have hreason : (a.view f).result.reasonCode = a.result.reasonCode := hf.reasonCode _
  have hplan : (a.view f).repairPlanID = a.repairPlanID := rfl
  unfold noteReason
  rw [hreason, hplan, view_repairPlans]
  cases p.repairPlans[a.repairPlanID]? with
  | none => rfl
  | some r =>
    simp only
    split <;> rfl

theorem settle_view (hf : Rewrites f) (hedges : SameEdges f plan a.result)
    (hevent : j.event = i.event) (hkey : j.idempotencyKey = i.idempotencyKey)
    (h : settle H plan fin k i a p = (.ok c, q)) :
    settle H plan { fin with attempt := b, hash := hash' } k j (a.view f) (p.view f keys) =
      (.ok (c.view f), q.view f (recordKey keys fin.key hash')) := by
  have hroutes : routes (a.view f).status j.event = routes a.status i.event := by
    rw [hevent]
    rfl
  unfold settle at h ⊢
  rw [commitFinish_view, shortCircuitJoins_view hf hedges, hroutes]
  simp only [route_view hf hedges hevent hkey] at h ⊢
  split at h
  · rename_i hpos
    rw [if_pos hpos]
    generalize route H plan a i fin.now
      (shortCircuitJoins H plan.graphSnapshot a (commitFinish fin k a p)) = reply at h
    obtain ⟨x, s⟩ := reply
    cases x with
    | error e => cases h
    | ok u =>
      cases h
      exact congrArg (Prod.mk _) (noteReason_view hf)
  · rename_i hneg
    rw [if_neg hneg]
    cases h
    exact congrArg (Prod.mk _) (noteReason_view hf)

/-- A finish that is repeated on a view under a new key gives the view of the
attempt and of the projection. -/
theorem finishAttempt_view (hf : Rewrites f) (hp : SameUsage f p)
    (hnew : NewKey p.idempotency i.idempotencyKey) (hkeys : NewKey keys i.idempotencyKey)
    (h : finishAttempt H plan p k i clock = (.ok a, q)) (hr : Repeats f plan p k i j a) :
    ∃ hash, finishAttempt H plan (p.view f keys) k j clock =
      (.ok (a.view f), q.view f (recordKey keys (trimSpace i.idempotencyKey) hash)) := by
  have hat : j.at clock = i.at clock := by
    unfold TransitionInput.at
    rw [hr.now]
  unfold finishAttempt at h ⊢
  rw [hat]
  split at h
  · cases h
  · rename_i b hb
    exact absurd hnew (finishCheck_replay hb)
  · rename_i fin hfin
    obtain ⟨hash, hview⟩ := finishCheck_view hp hr hnew hkeys hfin
    obtain ⟨b, hfacts⟩ := finishCheck_fresh hfin
    have hreads : repairReads j.result = repairReads fin.attempt.result := by
      rw [hr.repair, hfacts.attempt]
    refine ⟨hash, ?_⟩
    simp only [hview, repairStage_view hreads, ← hfacts.key]
    generalize repairStage plan p fin.attempt = reply at h
    obtain ⟨x, mid⟩ := reply
    cases x with
    | error e => cases h
    | ok a' =>
      simp only [Except.map]
      have ha : a = stampAttempt fin.now a' := by
        obtain ⟨-, -, ⟨heq, -⟩ | ⟨e, heq, -⟩⟩ := settle_cases h
        · exact Except.ok.inj heq
        · cases heq
      have hstamp : stampAttempt fin.now (a'.setResult j.result) =
        (stampAttempt fin.now a').view f := by
        have hres : stampResult a'.repairState j.result = f (stampAttempt fin.now a').result := by
          rw [← ha, ← hr.stamp, ha]
          rfl
        exact congrArg (fun r => (stampAttempt fin.now a').setResult r) hres
      rw [hstamp]
      exact settle_view hf (ha ▸ hr.edges) hr.event hr.key h

end Adro.Orchestration
