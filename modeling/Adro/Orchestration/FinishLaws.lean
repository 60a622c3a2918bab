import Adro.Orchestration.Scheduler
import Adro.Orchestration.StartLaws

/-!
# What a finish does

Each stage of `finishAttempt` has one law that says which fields it writes and
which nodes it may reopen. No stage reopens a node that is running.
-/

namespace Adro.Orchestration

open Adro.Go

/-- A node that is not running is made ready or pending; its attempts stay. -/
structure Reopen (n n' : NodeProjection) : Prop where
  idle : n.status ≠ .running
  status : n'.status = .ready ∨ n'.status = .pending
  nodeID : n'.nodeID = n.nodeID
  current : n'.currentAttempt = n.currentAttempt
  number : n'.attemptNo = n.attemptNo

theorem Reopen.trans (h : Reopen n m) (h' : Reopen m k) : Reopen n k :=
  ⟨h.idle, h'.status, h'.nodeID.trans h.nodeID, h'.current.trans h.current,
    h'.number.trans h.number⟩

/-- Every node is as it was, or it is in `S` and was reopened. -/
def Reopened (S : String → Prop) (nodes nodes' : GoMap NodeProjection) : Prop :=
  ∀ k : String, nodes'[k]? = nodes[k]? ∨
    (S k ∧ ∃ n', nodes'[k]? = some n' ∧ Reopen ((nodes[k]?).getD default) n')

variable {S : String → Prop} {nodes : GoMap NodeProjection} {key : String}

theorem Reopened.refl : Reopened S nodes nodes := fun _ => .inl rfl

theorem Reopened.mono (h : Reopened S nodes nodes') (hst : ∀ k, S k → T k) :
    Reopened T nodes nodes' := fun k => (h k).imp_right fun ⟨hs, hn⟩ => ⟨hst k hs, hn⟩

theorem Reopened.trans (h : Reopened S nodes nodes') (h' : Reopened S nodes' nodes'') :
    Reopened S nodes nodes'' := by
  intro k
  rcases h' k with e' | ⟨hs, n'', e'', r'⟩
  · rw [e']; exact h k
  · rcases h k with e | ⟨_, n', e, r⟩
    · exact .inr ⟨hs, n'', e'', e ▸ r'⟩
    · rw [e] at r'
      exact .inr ⟨hs, n'', e'', r.trans r'⟩

theorem Reopened.insert (hs : S k) (h : Reopen ((nodes[k]?).getD default) n') :
    Reopened S nodes (nodes.insert k n') := by
  intro j
  by_cases hj : k = j
  · subst hj; exact .inr ⟨hs, n', by simp, h⟩
  · exact .inl (GoMap.get_set_ne hj)

/-- Only nodes in `S` change, and those are reopened. -/
structure Reopens (S : String → Prop) (p q : PlanProjection) : Prop where
  nodes : Reopened S p.nodes q.nodes
  rest : q = { p with nodes := q.nodes }

theorem Reopens.refl : Reopens S p p := ⟨.refl, rfl⟩

theorem Reopens.trans (h : Reopens S p q) (h' : Reopens S q r) : Reopens S p r :=
  ⟨h.nodes.trans h'.nodes, by rw [h'.rest, h.rest]⟩

theorem Reopens.foldl {l : List α}
    (h : ∀ x ∈ l, ∀ q, Reopens S q (f q x)) (p : PlanProjection) : Reopens S p (l.foldl f p) := by
  induction l generalizing p with
  | nil => exact .refl
  | cons x l ih =>
    exact (h x List.mem_cons_self p).trans (ih (fun y hy => h y (List.mem_cons_of_mem _ hy)) _)

def RepairPlan.covers (r : RepairPlan) (k : String) : Prop :=
  k = r.targetNodeID ∨ k ∈ r.verificationNodeIDs

theorem resetNode_reopens (hk : S k) : Reopens S q (resetNode r q k) := by
  unfold resetNode
  split
  · exact .refl
  · rename_i n hn
    split
    · exact .refl
    · rename_i hrun
      have hidle : n.status ≠ .running := by simpa using hrun
      split
      · exact ⟨.insert hk (by rw [hn]; exact ⟨hidle, .inl rfl, rfl, rfl, rfl⟩), rfl⟩
      · exact ⟨.insert hk (by rw [hn]; exact ⟨hidle, .inr rfl, rfl, rfl, rfl⟩), rfl⟩

theorem resetRepairRound_reopens (p : PlanProjection) (r : RepairPlan) :
    Reopens r.covers p (resetRepairRound p r) := by
  refine Reopens.foldl (fun k hk q => resetNode_reopens ?_) p
  simpa [RepairPlan.covers] using hk

structure Repaired (S : String → Prop) (p q : PlanProjection) : Prop where
  nodes : Reopened S p.nodes q.nodes
  rest : q = { p with nodes := q.nodes, repairPlans := q.repairPlans }

theorem Reopens.repaired (h : Reopens S p q) : Repaired S p q := ⟨h.nodes, by rw [h.rest]⟩

theorem Repaired.mono (h : Repaired S p q) (hst : ∀ k, S k → T k) : Repaired T p q :=
  ⟨h.nodes.mono hst, h.rest⟩

theorem Repaired.set (h : Repaired S p q) (plans : GoMap RepairPlan) :
    Repaired S p { q with repairPlans := plans } := ⟨h.nodes, by rw [h.rest]⟩

theorem Repaired.plans (p : PlanProjection) (plans : GoMap RepairPlan) :
    Repaired S p { p with repairPlans := plans } := ⟨.refl, rfl⟩

theorem Repaired.refl : Repaired S p p := ⟨.refl, rfl⟩

theorem failRepairRound_repaired (hS : ∀ k, r.covers k → S k) :
    Repaired S p (failRepairRound p r reopen).2 := by
  unfold failRepairRound
  simp only
  split
  · exact .refl
  · rename_i r' hr'
    obtain ⟨history, rfl⟩ := setRepairState_eq hr'
    split
    · have hreset := ((resetRepairRound_reopens p
        { r with state := .failed, stateHistory := history }.nextRound).repaired).mono hS
      split
      · exact hreset
      · exact hreset.set _
    · split
      · exact .refl
      · exact .plans ..

def contractCovers (p : PlanProjection) (a : NodeAttempt) (k : String) : Prop :=
  ∃ r, p.repairPlans[a.repairPlanID]? = some r ∧ r.covers k

theorem advanceRepairAttemptState_repaired (p : PlanProjection) (a : NodeAttempt) :
    Repaired (contractCovers p a) p (advanceRepairAttemptState p a).2 := by
  unfold advanceRepairAttemptState
  split
  · exact .refl
  · split
    · exact .refl
    · rename_i r hr
      have hS : ∀ k, r.covers k → contractCovers p a k := fun k hk => ⟨r, hr, hk⟩
      have htarget : Repaired (contractCovers p a) p (passTarget p a r).2 := by
        unfold passTarget
        split
        · exact .refl
        · exact .plans ..
      have hverify : Repaired (contractCovers p a) p (passVerification p a r).2 := by
        unfold passVerification
        simp only
        split <;> exact .plans ..
      split
      · exact .plans ..
      · split
        · split
          · exact htarget
          · split
            · exact failRepairRound_repaired hS
            · exact .refl
        · split
          · exact hverify
          · split
            · exact failRepairRound_repaired hS
            · exact .refl
        · exact .refl

theorem recordRepairPlan_repaired : Repaired S p (recordRepairPlan p a fresh).2 := by
  unfold recordRepairPlan
  split
  · exact .plans ..
  · split
    · exact .plans ..
    · exact .refl

theorem planRepair_repaired : Repaired S p (planRepair plan p a).2 := by
  unfold planRepair
  simp only
  split
  · exact .refl
  · split
    · exact .refl
    · exact recordRepairPlan_repaired

theorem repairStage_repaired (plan : RequirementExecutionPlan) (p : PlanProjection)
    (a : NodeAttempt) : Repaired (contractCovers p a) p (repairStage plan p a).2 := by
  have hadvance := advanceRepairAttemptState_repaired p a
  unfold repairStage
  split
  · split
    · exact planRepair_repaired
    · split <;> exact .refl
  · split
    · split
      · rename_i h; rw [h] at hadvance; exact hadvance
      · rename_i h; rw [h] at hadvance; exact hadvance
    · exact .refl

theorem repairStage_result (h : repairStage plan p a = (res, q)) :
    Repaired (contractCovers p a) p q := by
  have := repairStage_repaired plan p a
  rwa [h] at this

theorem repairStage_attempt (h : repairStage plan p a = (.ok a', q)) :
    a' = { a with repairState := a'.repairState, repairPlanID := a'.repairPlanID } := by
  unfold repairStage at h
  split at h
  · split at h
    · unfold planRepair at h
      simp only at h
      split at h
      · cases h
      · split at h
        · cases h
        · unfold recordRepairPlan at h
          split at h
          · cases h; rfl
          · split at h <;> (cases h; rfl)
    · split at h <;> (cases h; rfl)
  · split at h
    · split at h <;> (cases h; try rfl)
    · cases h; rfl

def WorkflowGraph.feeds (g : WorkflowGraph) (source k : String) : Prop :=
  ∃ e ∈ g.edges, e.fromID = source ∧ e.toID = k

theorem openJoin_reopens (hk : S k) : Reopens S q (openJoin k q) := by
  unfold openJoin
  simp only
  split
  · exact .refl
  · rename_i h
    simp only [Bool.or_eq_true, beq_iff_eq, not_or] at h
    exact ⟨.insert hk ⟨h.1, .inl rfl, rfl, rfl, rfl⟩, rfl⟩

theorem shortCircuitJoins_reopens (H : Host) (g : WorkflowGraph) (a : NodeAttempt)
    (p : PlanProjection) : Reopens (g.feeds a.nodeID) p (shortCircuitJoins H g a p) := by
  unfold shortCircuitJoins
  split
  · refine Reopens.foldl (fun c _ q => ?_) p
    split
    · rename_i hc
      simp only [shortCircuits, Bool.and_eq_true, List.any_eq_true, beq_iff_eq] at hc
      obtain ⟨-, e, he, ⟨hfrom, hto⟩, -⟩ := hc
      exact openJoin_reopens ⟨e, he, hfrom, hto⟩
    · exact .refl
  · exact .refl

structure Routed (S : String → Prop) (p q : PlanProjection) : Prop where
  nodes : Reopened S p.nodes q.nodes
  rest : q = { p with
    nodes := q.nodes, status := q.status, terminalOutcome := q.terminalOutcome
    traversals := q.traversals, decisions := q.decisions }

theorem Routed.refl : Routed S p p := ⟨.refl, rfl⟩

theorem Routed.trans (h : Routed S p q) (h' : Routed S q r) : Routed S p r :=
  ⟨h.nodes.trans h'.nodes, by rw [h'.rest, h.rest]⟩

theorem Reopens.routed (h : Reopens S p q) : Routed S p q := ⟨h.nodes, by rw [h.rest]⟩

theorem countTraversal_routed : Routed S p (countTraversal e p) := by
  unfold countTraversal
  split <;> exact ⟨.refl, rfl⟩

theorem openTarget_routed (hk : S e.toID) : Routed S p (openTarget e fan p) := by
  unfold openTarget
  simp only
  split
  · exact .refl
  · rename_i h
    exact ⟨.insert hk ⟨by simpa using h, .inl rfl, rfl, rfl, rfl⟩, rfl⟩

theorem recordDecision_routed : Routed S p (recordDecision plan a key e fan p) := by
  unfold recordDecision
  split <;> exact ⟨.refl, rfl⟩

theorem followEdge_routed (plan : RequirementExecutionPlan) (a : NodeAttempt) (key : String)
    (fan : Bool) (p : PlanProjection) (hk : S e.toID) :
    Routed S p (followEdge plan a key fan e p).2 := by
  unfold followEdge
  simp only
  split
  · exact countTraversal_routed
  · exact (countTraversal_routed.trans (openTarget_routed hk)).trans recordDecision_routed

theorem followAll_routed (hes : ∀ e ∈ es, S e.toID) :
    Routed S p (followAll plan a key es p).2 := by
  induction es generalizing p with
  | nil => exact .refl
  | cons e es ih =>
    have hfirst := followEdge_routed plan a key true p (hes e List.mem_cons_self)
    unfold followAll
    split
    · rename_i h; rw [h] at hfirst; exact hfirst
    · rename_i h
      rw [h] at hfirst
      exact hfirst.trans (ih fun e' he' => hes e' (List.mem_cons_of_mem _ he'))

def routeOpens (plan : RequirementExecutionPlan) (a : NodeAttempt) (k : String) : Prop :=
  plan.graphSnapshot.feeds a.nodeID k ∨ (a.status.unsuccessful = true ∧ k = a.nodeID)

/-- The predicate and the evidence of an edge hold of an attempt's result. -/
def carried (e : WorkflowEdge) (a : NodeAttempt) : Bool :=
  (match evaluatePredicate e.predicate (resultFields a.result) with
    | .ok matched => matched
    | .error _ => false) &&
  e.requiredEvidence.all fun required => a.result.evidenceIDs.contains required

theorem matchEdges_eq (h : matchEdges a event edges = .ok es) :
    es = edges.filter fun e => e.fromID == a.nodeID &&
      eventMatches e.on a.status event a.result.outcome && carried e a := by
  induction edges generalizing es with
  | nil => cases h; rfl
  | cons e rest ih =>
    unfold matchEdges at h
    rw [List.filter_cons]
    split at h
    · rename_i hskip
      rw [ih h, if_neg (by grind)]
    · rename_i htaken
      simp only [Bool.or_eq_true, bne_iff_ne, Bool.not_eq_true', not_or, not_not,
        Bool.not_eq_false] at htaken
      obtain ⟨matched, hmatched, h⟩ := bind_ok.mp h
      split at h
      · split at h
        · cases h
        · rename_i htrue _ hnone
          obtain ⟨tail, htail, h⟩ := bind_ok.mp h
          cases h
          rw [ih htail, if_pos (by simpa [htaken, carried, hmatched, htrue] using hnone)]
      · rename_i hfalse
        rw [ih h, if_neg (by simp [carried, hmatched, hfalse])]

theorem mem_matchEdges (h : matchEdges a event edges = .ok es) :
    e ∈ es ↔ e ∈ edges ∧ e.fromID = a.nodeID ∧
      eventMatches e.on a.status event a.result.outcome = true ∧ carried e a = true := by
  simp [matchEdges_eq h, and_assoc]

theorem bestEdge_mem (first : WorkflowEdge) (rest : List WorkflowEdge) :
    bestEdge first rest ∈ first :: rest := by
  unfold bestEdge
  induction rest generalizing first with
  | nil => simp
  | cons e rest ih =>
    rw [List.foldl_cons]
    split
    · exact List.mem_cons_of_mem _ (ih e)
    · rcases List.mem_cons.mp (ih first) with h | h
      · rw [h]; exact List.mem_cons_self
      · exact List.mem_cons_of_mem _ (List.mem_cons_of_mem _ h)

def Selection.edges : Selection → List WorkflowEdge
  | .none => []
  | .single e => [e]
  | .fanOut es => es

theorem selectEdges_mem (h : selectEdges es = .ok sel) : ∀ e ∈ sel.edges, e ∈ es := by
  unfold selectEdges at h
  split at h
  · cases h; simp [Selection.edges]
  · cases h; simp [Selection.edges]
  · simp only at h
    split at h
    · cases h; simp [Selection.edges]
    · split at h
      · cases h
      · cases h
        simp only [Selection.edges, List.mem_singleton, forall_eq]
        exact bestEdge_mem _ _

theorem routeSelection_mem (h : routeSelection plan a event = .ok sel) :
    ∀ e ∈ sel.edges, e ∈ plan.graphSnapshot.edges ∧ e.fromID = a.nodeID ∧
      eventMatches e.on a.status event a.result.outcome = true := by
  obtain ⟨es, hm, hs⟩ := bind_ok.mp h
  intro e he
  obtain ⟨hmem, hfrom, hevent, -⟩ := (mem_matchEdges hm).mp (selectEdges_mem hs e he)
  exact ⟨hmem, hfrom, hevent⟩

theorem mayRetry_unsuccessful (h : mayRetry H node a event = true) :
    a.status.unsuccessful = true := by
  simp only [mayRetry, Bool.and_eq_true, Bool.or_eq_true, beq_iff_eq] at h
  rcases h.1.1.1 with h | h <;> simp [h, AttemptStatus.unsuccessful]

/-- An unsuccessful attempt's node is not running when it is routed. -/
def OwnIdle (p : PlanProjection) (a : NodeAttempt) : Prop :=
  a.status.unsuccessful = true → ((p.nodes[a.nodeID]?).getD default).status ≠ .running

theorem routeWithoutEdge_routed (hown : OwnIdle p a) :
    Routed (routeOpens plan a) p (routeWithoutEdge H plan a event now p).2 := by
  unfold routeWithoutEdge
  simp only
  split
  · rename_i h
    have hu := mayRetry_unsuccessful h
    exact ⟨.insert (.inr ⟨hu, rfl⟩) ⟨hown hu, .inl rfl, rfl, rfl, rfl⟩, rfl⟩
  · repeat' split
    all_goals exact ⟨.refl, rfl⟩

theorem route_routed (hown : OwnIdle p a) :
    Routed (routeOpens plan a) p (route H plan a input now p).2 := by
  have hopen : ∀ sel, routeSelection plan a input.event = .ok sel →
      ∀ e ∈ sel.edges, routeOpens plan a e.toID := fun sel hs e he =>
    have ⟨hm, hf, _⟩ := routeSelection_mem hs e he
    .inl ⟨e, hm, hf, rfl⟩
  unfold route
  split
  · exact ⟨.refl, rfl⟩
  · split
    · exact .refl
    · exact routeWithoutEdge_routed hown
    · rename_i e hs
      exact followEdge_routed _ _ _ _ _ (hopen _ hs e (List.mem_singleton_self e))
    · rename_i es hs
      exact followAll_routed (hopen _ hs)

/-- What an admitted finish has passed; `a` is the attempt as stored. -/
structure FinishFacts (plan : RequirementExecutionPlan) (p : PlanProjection) (attemptID : String)
    (input : TransitionInput) (now : Time) (f : Finishing) (a : NodeAttempt) : Prop where
  stored : p.attempts[attemptID]? = some a
  node : p.nodes[a.nodeID]? = some f.node
  current : f.node.currentAttempt = attemptID
  live : a.status = .running ∨ a.status = .waiting
  event : eventStatus input.event = some f.attempt.status
  attempt : f.attempt = { a with
    result := input.result
    outputArtifacts := appendUnique a.outputArtifacts input.outputArtifacts
    failureReason := input.failure
    status := f.attempt.status }
  usage : f.usage = resultUsage input.result
  time : f.now = now
  key : f.key = trimSpace input.idempotencyKey
  evidence : evidenceCheck input = .ok ()
  budget : planBudgetCheck plan p (resultUsage input.result) = .ok ()

theorem admitFinish_facts (hstored : p.attempts[k]? = some a) (hnode : p.nodes[a.nodeID]? = some n)
    (hcurrent : n.currentAttempt = k)
    (h : admitFinish plan p a n (trimSpace input.idempotencyKey) digest input now = .ok f) :
    FinishFacts plan p k input now f a := by
  simp only [admitFinish, then_ok, ensure_ok] at h
  obtain ⟨hlive, -, -, hev, hbudget, -, h⟩ := h
  split at h
  · cases h
  · rename_i status hs
    cases h
    exact ⟨hstored, hnode, hcurrent, by simpa using hlive, hs, rfl, rfl, rfl, rfl, hev, hbudget⟩

/-- The payload hash of a keyed finish is given or made. -/
def TransitionInput.digest (H : Host) (input : TransitionInput) : String :=
  if trimSpace input.idempotencyKey != "" && input.payloadHash == "" then
    H.transitionDigest input.event input.result input.failure
  else input.payloadHash

theorem finishCheck_ok : finishCheck H plan p k input now = .ok admission ↔
    ∃ a n, p.attempts[k]? = some a ∧
      (input.planRevision != 0 && input.planRevision != p.revision) = false ∧
      p.nodes[a.nodeID]? = some n ∧ n.currentAttempt = k ∧ ∃ replay,
        finishReplay p a (trimSpace input.idempotencyKey)
          (input.digest H) input.event = .ok replay ∧
          if replay then .replay a = admission
          else ∃ f, admitFinish plan p a n (trimSpace input.idempotencyKey)
            (input.digest H) input now =
            .ok f ∧ .fresh f = admission := by
  unfold finishCheck
  cases p.attempts[k]? with
  | none => simp
  | some a =>
    cases input.planRevision != 0 && input.planRevision != p.revision with
    | true => simp
    | false =>
      cases hn : p.nodes[a.nodeID]? with
      | none => simp [hn]
      | some n =>
        by_cases hcurrent : n.currentAttempt = k
        · simp only [hn, hcurrent, bne_self_eq_false, Bool.false_eq_true, if_false, bind_ok]
          constructor
          · rintro ⟨replay, hreplay, h⟩
            refine ⟨a, n, rfl, trivial, hn, hcurrent, replay, hreplay, ?_⟩
            cases replay <;> simpa only [Bool.false_eq_true, if_false, if_true, bind_ok, pure_ok,
              TransitionInput.digest] using h
          · rintro ⟨b, m, hb, -, hm, -, replay, hreplay, h⟩
            cases hb
            cases hn.symm.trans hm
            refine ⟨replay, hreplay, ?_⟩
            cases replay <;> simpa only [Bool.false_eq_true, if_false, if_true, bind_ok, pure_ok,
              TransitionInput.digest] using h
        · simp [hn, hcurrent]

theorem finishCheck_fresh (h : finishCheck H plan p attemptID input now = .ok (.fresh f)) :
    ∃ a, FinishFacts plan p attemptID input now f a := by
  obtain ⟨a, n, ha, -, hn, hcurrent, replay, -, h⟩ := finishCheck_ok.mp h
  split at h
  · cases h
  · obtain ⟨f', hf, h⟩ := h
    cases h
    exact ⟨a, admitFinish_facts ha hn hcurrent hf⟩

theorem FinishFacts.nodeID (h : FinishFacts plan p attemptID input now f a) :
    f.attempt.nodeID = a.nodeID := by rw [h.attempt]

theorem eventStatus_cases (h : eventStatus event = some s) :
    s = .passed ∨ s = .waiting ∨ s.unsuccessful = true := by
  unfold eventStatus at h
  repeat' split at h
  all_goals first | cases h; simp [AttemptStatus.unsuccessful] | cases h

theorem eventStatus_settled (h : eventStatus event = some s) : s ≠ .running := by
  unfold eventStatus at h
  repeat' split at h
  all_goals cases h
  all_goals decide

theorem commitFinish_own (attemptID : String) :
    (commitFinish f attemptID a p).nodes[a.nodeID]? = some { f.node with status := a.status } := by
  simp [commitFinish]

theorem joins_ownIdle (attemptID : String) :
    OwnIdle (shortCircuitJoins H g a (commitFinish f attemptID a p)) a := by
  intro hu
  have hne : a.status ≠ .running := by rintro h; simp [h, AttemptStatus.unsuccessful] at hu
  rcases (shortCircuitJoins_reopens H g a (commitFinish f attemptID a p)).nodes a.nodeID with
    h | ⟨-, n', h, hr⟩
  · rw [h, commitFinish_own]; exact hne
  · rw [h]
    rcases hr.status with hs | hs <;> simp [hs]

/-- The nodes that joins and routing may reopen; a parked attempt routes nowhere. -/
def settleOpens (plan : RequirementExecutionPlan) (a : NodeAttempt) (event k : String) : Prop :=
  routes a.status event = true ∧ routeOpens plan a k

/-- Joins and routing write only what `Routed` allows, on a commit. -/
theorem settle_routed (H : Host) (plan : RequirementExecutionPlan) (f : Finishing)
    (attemptID : String) (input : TransitionInput) (a : NodeAttempt) (repaired : PlanProjection) :
    Routed (routeOpens plan a) (commitFinish f attemptID a repaired)
      (route H plan a input f.now
        (shortCircuitJoins H plan.graphSnapshot a (commitFinish f attemptID a repaired))).2 := by
  have hjoin := (shortCircuitJoins_reopens H plan.graphSnapshot a
    (commitFinish f attemptID a repaired)).routed
  have hjoin' : Routed (routeOpens plan a) _ _ := ⟨hjoin.nodes.mono fun _ => .inl, hjoin.rest⟩
  exact hjoin'.trans (route_routed (joins_ownIdle attemptID))

theorem settle_cases (h : settle H plan f attemptID input a repaired = (res, q)) :
    ∃ m, Routed (settleOpens plan a input.event) (commitFinish f attemptID a repaired) m ∧
      ((res = .ok a ∧ q = noteReason a m) ∨
        ∃ e, res = .error e ∧ q = rollback f attemptID a.nodeID repaired m) := by
  have hroute := settle_routed H plan f attemptID input a repaired
  unfold settle at h
  simp only at h
  split at h
  · rename_i hr
    have hroute' : Routed (settleOpens plan a input.event) _ _ :=
      ⟨hroute.nodes.mono fun _ hk => ⟨hr, hk⟩, hroute.rest⟩
    split at h
    · rename_i e m hm
      rw [hm] at hroute'
      cases h
      exact ⟨m, hroute', .inr ⟨e, rfl, rfl⟩⟩
    · rename_i u m hm
      rw [hm] at hroute'
      cases h
      exact ⟨m, hroute', .inl ⟨rfl, rfl⟩⟩
  · rename_i hr
    cases h
    have hparked : a.status.unsuccessful = false := by
      cases hu : a.status.unsuccessful
      · rfl
      · simp [routes, hu] at hr
    refine ⟨_, ?_, .inl ⟨rfl, rfl⟩⟩
    simp only [shortCircuitJoins, hparked]
    exact .refl

/-- A finish that passed the checks: it stops in the repair stage, or commits
the attempt `b` to what the repair stage left, routes it, and keeps the result
or rolls it back. -/
inductive FinishResult (H : Host) (plan : RequirementExecutionPlan)
    (p : PlanProjection) (k : String)
    (input : TransitionInput) (f : Finishing) : Except Err NodeAttempt → PlanProjection → Prop
  | refused (e : Err) (q : PlanProjection) (h : repairStage plan p f.attempt = (.error e, q)) :
    FinishResult H plan p k input f (.error e) q
  | kept (a' : NodeAttempt) (mid m : PlanProjection)
    (hrepair : repairStage plan p f.attempt = (.ok a', mid))
    (hroute : Routed (settleOpens plan (stampAttempt f.now a') input.event)
      (commitFinish f k (stampAttempt f.now a') mid) m)
    (hsettle : settle H plan f k input (stampAttempt f.now a') mid =
      (.ok (stampAttempt f.now a'), noteReason (stampAttempt f.now a') m)) :
    FinishResult H plan p k input f (.ok (stampAttempt f.now a'))
      (noteReason (stampAttempt f.now a') m)
  | undone (a' : NodeAttempt) (mid m : PlanProjection) (e : Err)
    (hrepair : repairStage plan p f.attempt = (.ok a', mid))
    (hroute : Routed (settleOpens plan (stampAttempt f.now a') input.event)
      (commitFinish f k (stampAttempt f.now a') mid) m)
    (hsettle : settle H plan f k input (stampAttempt f.now a') mid =
      (.error e, rollback f k (stampAttempt f.now a').nodeID mid m)) :
    FinishResult H plan p k input f (.error e) (rollback f k (stampAttempt f.now a').nodeID mid m)

def NewKey (keys : GoMap String) (key : String) : Prop :=
  trimSpace key = "" ∨ keys[trimSpace key]? = none

theorem finishReplay_new {hash event : String} (h : NewKey p.idempotency key) :
    finishReplay p a (trimSpace key) hash event = .ok false := by
  unfold finishReplay
  split
  · rfl
  · rename_i hkey
    rcases h with h | h
    · exact absurd (by simpa using h) hkey
    · rw [h]

theorem finishCheck_replay (h : finishCheck H plan p k input now = .ok (.replay a)) :
    ¬ NewKey p.idempotency input.idempotencyKey := by
  intro hkey
  obtain ⟨b, n, -, -, -, -, replay, hreplay, h⟩ := finishCheck_ok.mp h
  rw [finishReplay_new hkey] at hreplay
  cases hreplay
  obtain ⟨f, -, h⟩ := h
  cases h

theorem finishAttempt_fresh (h : finishCheck H plan p k input (input.at clock) = .ok (.fresh f)) :
    ∃ a, FinishFacts plan p k input (input.at clock) f a ∧
      FinishResult H plan p k input f (finishAttempt H plan p k input clock).1
        (finishAttempt H plan p k input clock).2 := by
  obtain ⟨a, ha⟩ := finishCheck_fresh h
  refine ⟨a, ha, ?_⟩
  unfold finishAttempt
  simp only [h]
  split
  · rename_i e q hq; exact .refused e q hq
  · rename_i a' mid hq
    cases hs : settle H plan f k input (stampAttempt f.now a') mid with
    | mk res q =>
      obtain ⟨m, hm, ⟨rfl, rfl⟩ | ⟨e, rfl, rfl⟩⟩ := settle_cases hs
      · exact .kept a' mid m hq hm hs
      · exact .undone a' mid m e hq hm hs

/-- A finish fails its checks, replays a recorded key, or passed the checks. -/
theorem finishAttempt_cases (H : Host) (plan : RequirementExecutionPlan) (p : PlanProjection)
    (k : String) (input : TransitionInput) (clock : Time) :
    (∃ e, finishAttempt H plan p k input clock = (.error e, p)) ∨
    (∃ a, finishAttempt H plan p k input clock = (.ok a, p) ∧
      ¬ NewKey p.idempotency input.idempotencyKey) ∨
    ∃ f a, FinishFacts plan p k input (input.at clock) f a ∧
      FinishResult H plan p k input f (finishAttempt H plan p k input clock).1
        (finishAttempt H plan p k input clock).2 := by
  cases h : finishCheck H plan p k input (input.at clock) with
  | error e => exact .inl ⟨e, by simp only [finishAttempt, h]⟩
  | ok admission =>
    cases admission with
    | replay a => exact .inr (.inl ⟨a, by simp only [finishAttempt, h], finishCheck_replay h⟩)
    | fresh f => exact .inr (.inr ⟨f, finishAttempt_fresh h⟩)

/-- The committed attempt is the admitted one up to its contract, result stamp
and finish time. -/
theorem stamped_nodeID (h : repairStage plan p f.attempt = (.ok a', q))
    (hf : FinishFacts plan p' k input now f a) : (stampAttempt t a').nodeID = a.nodeID := by
  show a'.nodeID = a.nodeID
  rw [repairStage_attempt h, hf.attempt]

theorem stamped_status {f : Finishing}
    (h : repairStage plan p f.attempt = (.ok a', q)) :
    (stampAttempt t a').status = f.attempt.status := by
  show a'.status = _
  rw [repairStage_attempt h]

theorem stampAttempt_outcome :
    (stampAttempt t a).result.outcome = a.result.outcome ∧
      (stampAttempt t a).result.evidenceIDs = a.result.evidenceIDs := by
  unfold stampAttempt
  split <;> exact ⟨rfl, rfl⟩

/-- What routing reads of the committed attempt is what the call passed in. -/
theorem stamped_input (h : repairStage plan p f.attempt = (.ok a', q))
    (hf : FinishFacts plan p' k input now f a) :
    (stampAttempt t a').result.outcome = input.result.outcome ∧
      (stampAttempt t a').result.evidenceIDs = input.result.evidenceIDs ∧
      (stampAttempt t a').failureReason = input.failure := by
  obtain ⟨ho, he⟩ := stampAttempt_outcome
  have hb := repairStage_attempt h
  have hatt := hf.attempt
  refine ⟨ho.trans ?_, he.trans ?_, ?_⟩
  · rw [hb, hatt]
  · rw [hb, hatt]
  · show a'.failureReason = _
    rw [hb, hatt]

theorem Repaired.attempts (h : Repaired S p q) : q.attempts = p.attempts := by rw [h.rest]

theorem Routed.attempts (h : Routed S p q) : q.attempts = p.attempts := by rw [h.rest]

theorem rollback_attempts (hstored : p.attempts[k]? = some a)
    (hmid : Repaired S p mid) (hm : Routed T (commitFinish f k b mid) m) :
    (rollback f k v mid m).attempts = p.attempts := by
  show m.attempts.insert k ((mid.attempts[k]?).getD {}) = p.attempts
  rw [hm.attempts, hmid.attempts, hstored]
  show ((mid.attempts.insert k b).insert k a) = p.attempts
  rw [hmid.attempts, GoMap.set_set, GoMap.set_get_self hstored]

theorem noteReason_eq (a : NodeAttempt) (p : PlanProjection) :
    noteReason a p = { p with repairPlans := (noteReason a p).repairPlans } := by
  unfold noteReason
  split
  · split <;> rfl
  · rfl

theorem forall_noteReason {P : String → RepairPlan → Prop}
    (h : ∀ (k : String) (r : RepairPlan), p.repairPlans[k]? = some r → P k r)
    (hreason : ∀ k r code, P k r → P k { r with lastReasonCode := code }) :
    ∀ (k : String) (r : RepairPlan), (noteReason a p).repairPlans[k]? = some r → P k r := by
  unfold noteReason
  split
  · rename_i r hr
    split
    · exact h
    · exact GoMap.forall_set h (hreason _ r _ (h _ r hr))
  · exact h

theorem FinishResult.attempts (h : FinishResult H plan p k input f res q)
    (hf : FinishFacts plan p k input now f a) :
    (∃ e, res = .error e ∧ q.attempts = p.attempts) ∨
      ∃ b, res = .ok b ∧ q.attempts = p.attempts.insert k b ∧ b.nodeID = a.nodeID ∧
        b.status = f.attempt.status := by
  cases h with
  | refused e q h => exact .inl ⟨e, rfl, (repairStage_result h).attempts⟩
  | kept a' mid m hr hm =>
    refine .inr ⟨_, rfl, ?_, stamped_nodeID hr hf, stamped_status hr⟩
    rw [noteReason_eq]
    rw [hm.attempts, ← (repairStage_result hr).attempts]
    rfl
  | undone a' mid m e hr hm =>
    exact .inl ⟨e, rfl, rollback_attempts hf.stored (repairStage_result hr) hm⟩

def recordKey (keys : GoMap String) (key hash : String) : GoMap String :=
  if key != "" then keys.insert key hash else keys

def stampResult (state : RepairLifecycle) (r : StructuredResult) : StructuredResult :=
  if state == .unset then r
  else { r with fields := r.fields.insert "repair_state" (.str state.text) }

theorem stampResult_get (h : "repair_state" ≠ key) :
    (stampResult state r).fields[key]? = r.fields[key]? := by
  unfold stampResult
  split
  · rfl
  · exact GoMap.get_set_ne h

theorem resultUsage_stamp : resultUsage (stampResult state r) = resultUsage r := by
  have h (key : String) (hkey : "repair_state" ≠ key) :
      usageInt64 (stampResult state r).fields key = usageInt64 r.fields key := by
    unfold usageInt64
    rw [stampResult_get hkey]
  unfold resultUsage
  rw [h "tokens" (by decide), h "tool_calls" (by decide), h "cost_cents" (by decide)]

/-- A finish that returned `b`, beside what it does to nodes, contracts and the
course of the plan. -/
structure FinishWrites (p : PlanProjection) (k : String) (input : TransitionInput) (f : Finishing)
    (a b : NodeAttempt) (q : PlanProjection) : Prop where
  attempts : q.attempts = p.attempts.insert k b
  result : b.result = stampResult b.repairState input.result
  artifacts : b.outputArtifacts = appendUnique a.outputArtifacts input.outputArtifacts
  manifest : b.inputManifest = a.inputManifest
  id : b.id = a.id
  nodeID : b.nodeID = a.nodeID
  planID : q.planID = p.planID
  revision : q.revision = p.revision
  keys : q.idempotency = recordKey p.idempotency f.key f.hash
  tokens : q.tokenUsage = i64 (p.tokenUsage + f.usage.tokens)
  tools : q.toolCalls = i64 (p.toolCalls + f.usage.tools)
  cost : q.costCents = i64 (p.costCents + f.usage.cost)

theorem FinishResult.writes (h : FinishResult H plan p k input f (.ok b) q)
    (hf : FinishFacts plan p k input now f a) : FinishWrites p k input f a b q := by
  cases h with
  | kept a' mid m hr hm =>
    have hmid := (repairStage_result hr).rest
    have hm' := hm.rest
    have hq := noteReason_eq (stampAttempt f.now a') m
    have ha := repairStage_attempt hr
    have hatt := hf.attempt
    refine ⟨?_, ?_, ?_, ?_, ?_, stamped_nodeID hr hf, ?_, ?_, ?_, ?_, ?_, ?_⟩
    · rw [hq, hm', hmid]; rfl
    · show stampResult a'.repairState a'.result = stampResult a'.repairState input.result
      rw [show a'.result = input.result by rw [ha, hatt]]
    · show a'.outputArtifacts = _
      rw [ha, hatt]
    · show a'.inputManifest = _
      rw [ha, hatt]
    · show a'.id = _
      rw [ha, hatt]
    all_goals
      rw [hq, hm', hmid]
      rfl

end Adro.Orchestration
