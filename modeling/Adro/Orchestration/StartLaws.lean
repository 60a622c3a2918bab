import Adro.Orchestration.Start

/-!
# What a start does

`startAttempt_cases` is the only place where `startAttempt` is taken apart: a
call leaves the projection as it was, or it passed every check and the
projection is `started`. A contract that selects an attempt also accepts it, so
the branch that deletes the attempt again is never taken.
-/

namespace Adro.Orchestration

open Adro.Go

theorem initialNodes (g : WorkflowGraph) (l : List WorkflowNode) (nodes : GoMap NodeProjection)
    (k : String) :
    (∀ n, (l.foldl (fun nodes n => nodes.insert n.id (initialNode g n)) nodes)[k]? = some n →
      nodes[k]? = some n ∨ ∃ w ∈ l, w.id = k ∧ n = initialNode g w) ∧
    ((∃ n, nodes[k]? = some n) ∨ (∃ w ∈ l, w.id = k) →
      ∃ n, (l.foldl (fun nodes n => nodes.insert n.id (initialNode g n)) nodes)[k]? = some n) := by
  induction l generalizing nodes with
  | nil => exact ⟨fun n hn => .inl hn, fun h => h.elim id (by simp)⟩
  | cons w l ih =>
    obtain ⟨hget, hhas⟩ := ih (nodes.insert w.id (initialNode g w))
    refine ⟨fun n hn => ?_, fun h => hhas ?_⟩
    · rcases hget n hn with hn | ⟨v, hv, hid, rfl⟩
      · rw [GoMap.get_set] at hn
        split at hn
        · rename_i hk
          cases hn
          exact .inr ⟨w, List.mem_cons_self, hk, rfl⟩
        · exact .inl hn
      · exact .inr ⟨v, List.mem_cons_of_mem _ hv, hid, rfl⟩
    · by_cases hk : w.id = k
      · exact .inl ⟨initialNode g w, by rw [GoMap.get_set, if_pos hk]⟩
      · rcases h with ⟨n, hn⟩ | ⟨v, hv, hid⟩
        · exact .inl ⟨n, by rw [GoMap.get_set, if_neg hk]; exact hn⟩
        · rcases List.mem_cons.mp hv with rfl | hv
          · exact absurd hid hk
          · exact .inr ⟨v, hv, hid⟩

section
variable (h : newProjection plan = .ok p)
include h

theorem newProjection_node (hn : n ∈ plan.graphSnapshot.nodes) :
    p.nodes[n.id]? = some (initialNode plan.graphSnapshot n) := by
  simp only [newProjection, then_ok, pure_ok] at h
  obtain ⟨-, -, -, rfl⟩ := h
  obtain ⟨hget, hhas⟩ := initialNodes plan.graphSnapshot plan.graphSnapshot.nodes ∅ n.id
  obtain ⟨m, hm⟩ := hhas (.inr ⟨n, hn, rfl⟩)
  rcases hget m hm with hm' | ⟨w, -, hw, rfl⟩
  · simp at hm'
  · rw [hm]
    simp only [initialNode, hw]

theorem newProjection_attempts : p.attempts = ∅ := by
  simp only [newProjection, then_ok, pure_ok] at h
  rw [← h.2.2.2]

theorem newProjection_graph : validateGraph plan.graphSnapshot = .ok () := by
  simp only [newProjection, then_ok] at h
  exact h.2.2.1

end

theorem setRepairState_eq (h : setRepairState r next = some r') :
    ∃ history, r' = { r with state := next, stateHistory := history } := by
  unfold setRepairState at h
  repeat' split at h
  · cases h
  · cases h; exact ⟨_, rfl⟩
  · cases h
  · cases h; exact ⟨_, rfl⟩
  · rename_i hne
    cases h
    have hs : r.state = next := by simpa using hne
    exact ⟨r.currentHistory, by simp [← hs]⟩

theorem setRepairState_allowed (r : RepairPlan) (next : RepairLifecycle) (hs : r.state ≠ .unset)
    (hn : next ≠ .unset) :
    (∃ r', setRepairState r next = some r') ↔
      repairLifecycleTransitionAllowed r.state next = true := by
  have hv : validRepairLifecycle next = true := by cases next <;> first | rfl | exact absurd rfl hn
  have hu : (r.state == .unset) = false := by simpa using hs
  cases ha : repairLifecycleTransitionAllowed r.state next
  · simp [setRepairState, hu, ha]
  · simp only [setRepairState, hv, hu, ha, Bool.not_true, Bool.false_eq_true, if_false, iff_true]
    split <;> exact ⟨_, rfl⟩

/-- A contract selects its target when it is planned and the repair node opened
it, or again after a transient failure of the dispatched attempt. -/
structure SelectsTarget (p : PlanProjection) (g : WorkflowGraph) (nodeID : String)
    (r : RepairPlan) : Prop where
  target : r.targetNodeID = nodeID
  state : (r.state = .planned ∧ r.targetAttemptID = "" ∧
      repairReadyFrom p g nodeID r.repairNodeID r.id false = true) ∨
    (r.state = .dispatched ∧ retryableRepairProviderAttempt p r.targetAttemptID = true)

/-- It selects a verification node once the patch passed. -/
structure SelectsVerification (p : PlanProjection) (nodeID : String) (r : RepairPlan) : Prop where
  node : nodeID ∈ r.verificationNodeIDs
  state : r.state = .patched ∨ r.state = .verifying
  target : r.targetAttemptID ≠ ""
  attempt : (r.verificationAttempts[nodeID]?).getD "" = "" ∨
    retryableRepairProviderAttempt p ((r.verificationAttempts[nodeID]?).getD "") = true

theorem dispatchUnder_some (h : dispatchUnder p g nodeID r = some s) :
    (s = .dispatched ∧ SelectsTarget p g nodeID r) ∨
      (s = .verifying ∧ SelectsVerification p nodeID r) := by
  unfold dispatchUnder at h
  simp only at h
  split at h
  · rename_i hc
    cases h
    simp only [Bool.and_eq_true, Bool.or_eq_true, beq_iff_eq] at hc
    refine .inl ⟨rfl, hc.1.1, ?_⟩
    rcases hc.1.2 with hp | hr
    · rcases hc.2 with hr | hready
      · exact absurd (hp.1.symm.trans hr.1.2) (by decide)
      · exact .inl ⟨hp.1, hp.2, hready⟩
    · exact .inr ⟨hr.1.2, hr.2⟩
  · split at h
    · rename_i hc
      cases h
      simp only [Bool.and_eq_true, Bool.or_eq_true, beq_iff_eq, bne_iff_ne,
        List.contains_iff_mem] at hc
      obtain ⟨⟨⟨⟨hn, hs⟩, ht⟩, -⟩, ha⟩ := hc
      exact .inr ⟨rfl, hn, hs, ht, ha.imp_right (·.2)⟩
    · split at h
      · rename_i hc
        cases h
        simp only [Bool.and_eq_true, Bool.or_eq_true, beq_iff_eq, bne_iff_ne,
          List.contains_iff_mem] at hc
        obtain ⟨⟨⟨hn, hs⟩, ht⟩, ha⟩ := hc
        exact .inr ⟨rfl, hn, hs, ht, .inr ha⟩
      · cases h

theorem repairPlanForDispatch_some (h : repairPlanForDispatch p g nodeID = some (k, s)) :
    ∃ r, p.repairPlans[k]? = some r ∧ dispatchUnder p g nodeID r = some s := by
  obtain ⟨⟨k', r⟩, hmem, hd⟩ := List.exists_of_findSome?_eq_some h
  simp only [Option.map_eq_some_iff] at hd
  obtain ⟨s', hs, rfl, rfl⟩ := hd
  exact ⟨r, GoMap.mem_entries.mp hmem, hs⟩

structure StartFacts (H : Host) (plan : RequirementExecutionPlan) (p : PlanProjection)
    (args : StartArgs) (now : Time) (n : NodeProjection) (attemptNo : Int) : Prop where
  planID : p.planID = plan.id
  status : plan.status = .ready ∨ plan.status = .running
  capacity : 0 < plan.policyBudget.concurrent →
    (runningCount p : Int) < plan.policyBudget.concurrent
  session : blank args.envelope.manifest.sessionID = false
  digest : blank args.envelope.manifest.digest = false
  estimate : 0 ≤ args.envelope.manifest.tokenEstimate
  tokens : 0 < plan.policyBudget.tokens →
    i64 (p.tokenUsage + args.envelope.manifest.tokenEstimate) ≤ plan.policyBudget.tokens
  node : p.nodes[args.nodeID]? = some n
  startable : n.status = .ready ∨ n.status = .failed ∨ n.status = .timedOut
  number : attemptNo = if args.attemptNo < 1 then i64 (n.attemptNo + 1) else args.attemptNo
  idle : ∀ old, n.currentAttempt ≠ "" → p.attempts[n.currentAttempt]? = some old →
    old.status ≠ .running
  attemptID : blank args.attemptID = false
  fresh : p.attempts[args.attemptID]? = none
  unused : ∀ (k : String) (a : NodeAttempt), p.attempts[k]? = some a → a.planID = plan.id →
    a.nodeID = args.nodeID → a.attemptNo ≠ attemptNo

theorem startPlanCheck_ok (h : startPlanCheck H plan p args now = .ok u) :
    p.planID = plan.id ∧ (plan.status = .ready ∨ plan.status = .running) ∧
    (0 < plan.policyBudget.concurrent → (runningCount p : Int) < plan.policyBudget.concurrent) ∧
    blank args.envelope.manifest.sessionID = false ∧
    blank args.envelope.manifest.digest = false ∧ 0 ≤ args.envelope.manifest.tokenEstimate ∧
    (0 < plan.policyBudget.tokens →
      i64 (p.tokenUsage + args.envelope.manifest.tokenEstimate) ≤ plan.policyBudget.tokens) := by
  simp only [startPlanCheck, then_ok, ensure_ok] at h
  obtain ⟨hid, hs, -, ht, hc, he, hv, -⟩ := h
  simp only [Bool.not_eq_true', Bool.or_eq_false_iff] at he
  refine ⟨by simpa using hid, by simpa using hs, ?_, he.1.1.1.1.1, he.1.1.1.1.2, ?_,
    by simpa [or_iff_not_imp_left] using ht⟩
  · intro hpos
    by_contra hge
    simp [hpos, Int.not_lt.mp hge] at hc
  · unfold validateEnvelope at hv
    split at hv
    · cases hv
    · exact ContextEnvelope.validate_estimate (by assumption)

theorem startNodeCheck_ok (h : startNodeCheck plan p args now = .ok n) :
    p.nodes[args.nodeID]? = some n ∧
      (n.status = .ready ∨ n.status = .failed ∨ n.status = .timedOut) := by
  unfold startNodeCheck at h
  split at h
  · cases h
  · rename_i m hm
    simp only [then_ok, ensure_ok, pure_ok] at h
    obtain ⟨-, -, -, -, hs, rfl⟩ := h
    exact ⟨hm, by simpa [or_assoc] using hs⟩

theorem startIdentityCheck_fresh (h : startIdentityCheck plan p args now n = .ok (.fresh m no)) :
    m = n ∧ no = (if args.attemptNo < 1 then i64 (n.attemptNo + 1) else args.attemptNo) ∧
    (∀ old, n.currentAttempt ≠ "" → p.attempts[n.currentAttempt]? = some old →
      old.status ≠ .running) ∧
    blank args.attemptID = false ∧ p.attempts[args.attemptID]? = none ∧
    (∀ (k : String) (a : NodeAttempt), p.attempts[k]? = some a → a.planID = plan.id →
      a.nodeID = args.nodeID → a.attemptNo ≠ no) := by
  simp only [startIdentityCheck, then_ok, ensure_ok] at h
  obtain ⟨hidle, hid, h⟩ := h
  split at h
  · split at h <;> cases h
  · rename_i hfresh
    simp only [then_ok, ensure_ok] at h
    obtain ⟨hno, -, -, rfl, rfl⟩ := h
    refine ⟨rfl, rfl, ?_, by simpa using hid, hfresh, ?_⟩
    · intro old hc ho
      simpa [hc, ho] using hidle
    · intro k a ha hp hn heq
      have hany : (p.attempts.any fun _ a => a.planID == plan.id && a.nodeID == args.nodeID &&
          a.attemptNo == if args.attemptNo < 1 then i64 (n.attemptNo + 1) else args.attemptNo)
          = true := GoMap.any_iff.mpr ⟨k, a, ha, by simp [hp, hn, heq]⟩
      simp [hany] at hno

theorem startCheck_fresh (h : startCheck H plan p args now = .ok (.fresh n no)) :
    StartFacts H plan p args now n no := by
  simp only [startCheck, bind_ok] at h
  obtain ⟨_, hplan, replay, -, h⟩ := h
  split at h
  · cases h
  · obtain ⟨m, hm, h⟩ := bind_ok.mp h
    obtain ⟨rfl, hnum, hidle, hid, hfresh, hun⟩ := startIdentityCheck_fresh h
    obtain ⟨hnode, hst⟩ := startNodeCheck_ok hm
    obtain ⟨h1, h2, h3, h4, h5, h6, h7⟩ := startPlanCheck_ok hplan
    exact ⟨h1, h2, h3, h4, h5, h6, h7, hnode, hst, hnum, hidle, hid, hfresh, hun⟩

def joined (r : RepairPlan) (a : NodeAttempt) : RepairPlan :=
  { ((joinRepair r a).2).getD r with lastReasonCode := a.repairState.text }

def joinedPlans (p : PlanProjection) (a : NodeAttempt) : GoMap RepairPlan :=
  match p.repairPlans[a.repairPlanID]? with
  | some r => if a.repairPlanID = "" then p.repairPlans else
      p.repairPlans.insert a.repairPlanID (joined r a)
  | none => p.repairPlans

def startedNode (args : StartArgs) (n : NodeProjection) (attemptNo : Int) : NodeProjection :=
  { n with
    status := .running, currentAttempt := args.attemptID, attemptNo := attemptNo, retryAt := none,
    readyEdgeIDs := [] }

def started (plan : RequirementExecutionPlan) (p : PlanProjection) (args : StartArgs)
    (n : NodeProjection) (attemptNo : Int) (now : Time) : PlanProjection :=
  let a := newAttempt plan p args n attemptNo now
  { p with
    attempts := p.attempts.insert args.attemptID a
    idempotency := if args.input.idempotencyKey != "" then
      p.idempotency.insert args.input.idempotencyKey args.input.payloadHash else p.idempotency
    nodes := p.nodes.insert args.nodeID (startedNode args n attemptNo)
    status := .running
    repairPlans := joinedPlans p a
    tokenUsage := i64 (p.tokenUsage + args.envelope.manifest.tokenEstimate) }

theorem newAttempt_link (plan : RequirementExecutionPlan) (p : PlanProjection) (args : StartArgs)
    (n : NodeProjection) (no : Int) (now : Time) :
    (newAttempt plan p args n no now).repairPlanID = "" ∨
      ∃ r s, p.repairPlans[(newAttempt plan p args n no now).repairPlanID]? = some r ∧
        dispatchUnder p plan.graphSnapshot args.nodeID r = some s ∧
        (newAttempt plan p args n no now).repairState =
          if (plan.graphSnapshot.node args.nodeID).kind == .repair then .planned else s := by
  cases hd : (repairPlanForDispatch p plan.graphSnapshot args.nodeID).filter (·.1 != "") with
  | none => exact .inl (by simp [newAttempt, hd])
  | some d =>
    obtain ⟨k, s⟩ := d
    have hsome := (Option.filter_eq_some_iff.mp hd).1
    obtain ⟨r, hr, hs⟩ := repairPlanForDispatch_some hsome
    refine .inr ⟨r, s, ?_, hs, ?_⟩ <;> simp [newAttempt, hd, hr]

/-- How an attempt changes the contract that selects it. -/
inductive Joins (p : PlanProjection) (g : WorkflowGraph) (r : RepairPlan) (a : NodeAttempt) :
    RepairPlan → Prop
  | planned : Joins p g r a r
  | target (r₁ : RepairPlan) (state : a.repairState = .dispatched)
    (selects : SelectsTarget p g a.nodeID r)
    (next : setRepairState { r with targetAttemptID := a.id } .dispatched = some r₁) :
    Joins p g r a r₁
  | verification (r₁ : RepairPlan) (state : a.repairState = .verifying)
    (selects : SelectsVerification p a.nodeID r)
    (next : setRepairState { r with
      verificationAttempts := r.verificationAttempts.insert a.nodeID a.id } .verifying = some r₁) :
    Joins p g r a r₁

theorem joinRepair_joins (hd : dispatchUnder p g a.nodeID r = some s)
    (hs : a.repairState = .planned ∨ a.repairState = s) :
    ∃ r₁, (joinRepair r a).2 = some r₁ ∧ Joins p g r a r₁ := by
  rcases hs with hs | hs
  · exact ⟨r, by simp [joinRepair, hs], .planned⟩
  · rcases dispatchUnder_some hd with ⟨rfl, hsel⟩ | ⟨rfl, hsel⟩
    · obtain ⟨r₁, hj⟩ : ∃ r₁, setRepairState { r with targetAttemptID := a.id } .dispatched =
          some r₁ := by
        refine (setRepairState_allowed _ _ ?_ (by decide)).mpr ?_ <;>
          rcases hsel.state with ⟨h, -⟩ | ⟨h, -⟩ <;> simp [h, repairLifecycleTransitionAllowed]
      exact ⟨r₁, by simpa only [joinRepair, hs] using hj, .target r₁ hs hsel hj⟩
    · obtain ⟨r₁, hj⟩ : ∃ r₁, setRepairState { r with
          verificationAttempts := r.verificationAttempts.insert a.nodeID a.id } .verifying =
          some r₁ := by
        refine (setRepairState_allowed _ _ ?_ (by decide)).mpr ?_ <;>
          rcases hsel.state with h | h <;> simp [h, repairLifecycleTransitionAllowed]
      exact ⟨r₁, by simpa only [joinRepair, hs] using hj, .verification r₁ hs hsel hj⟩

/-- The contracts after a start: as before, or joined by the new attempt. -/
theorem started_plans {P : String → RepairPlan → Prop}
    (hold : ∀ (k : String) (r : RepairPlan), p.repairPlans[k]? = some r → P k r)
    (hjoin : ∀ a r r₁, newAttempt plan p args n no now = a →
      p.repairPlans[a.repairPlanID]? = some r → Joins p plan.graphSnapshot r a r₁ →
      P a.repairPlanID { r₁ with lastReasonCode := a.repairState.text })
    (k : String) (r : RepairPlan)
    (hk : (joinedPlans p (newAttempt plan p args n no now))[k]? = some r) : P k r := by
  have hlink := newAttempt_link plan p args n no now
  have hnode : args.nodeID = (newAttempt plan p args n no now).nodeID := rfl
  rw [hnode] at hlink
  generalize ha : newAttempt plan p args n no now = a at *
  unfold joinedPlans at hk
  split at hk
  · rename_i r₀ hr₀
    split at hk
    · exact hold k r hk
    · rename_i hne
      obtain ⟨r', s, hr', hd, hst⟩ := hlink.resolve_left hne
      rw [hr₀] at hr'
      cases hr'
      have hst : a.repairState = .planned ∨ a.repairState = s := by
        split at hst
        · exact .inl hst
        · exact .inr hst
      obtain ⟨r₁, hj, hjoins⟩ := joinRepair_joins hd hst
      refine GoMap.forall_set hold ?_ k r hk
      unfold joined
      rw [hj]
      exact hjoin a r₀ r₁ rfl hr₀ hjoins
  · exact hold k r hk

theorem startCommit_eq (plan : RequirementExecutionPlan) :
    startCommit plan p args n no now =
      (.ok (newAttempt plan p args n no now), started plan p args n no now) := by
  have hid : (newAttempt plan p args n no now).id = args.attemptID := rfl
  unfold startCommit started joinedPlans startedNode
  rcases newAttempt_link plan p args n no now with hnone | ⟨r, s, hr, hd, hst⟩
  · simp only [hnone, beq_self_eq_true, if_true]
    congr 2
    split <;> rfl
  · by_cases he : (newAttempt plan p args n no now).repairPlanID = ""
    · simp only [he, beq_self_eq_true, if_true]
      congr 2
      split <;> rfl
    · have hs : (newAttempt plan p args n no now).repairState = .planned ∨
          (newAttempt plan p args n no now).repairState = s := by
        rw [hst]; split
        · exact .inl rfl
        · exact .inr rfl
      obtain ⟨r', hj, -⟩ := joinRepair_joins hd hs
      have hpair : joinRepair r (newAttempt plan p args n no now) =
          ((joinRepair r (newAttempt plan p args n no now)).1, some r') := by rw [← hj]
      simp only [hr, Option.getD_some, he, beq_iff_eq, hid]
      rw [hpair]
      simp [joined, hj]

/-- A start reports an error or replays an attempt, and changes nothing, or it
passed every check and created the attempt. -/
theorem startAttempt_cases (H : Host) (plan : RequirementExecutionPlan) (p : PlanProjection)
    (args : StartArgs) (clock : Time) :
    (startAttempt H plan p args clock).2 = p ∨
      ∃ n no, StartFacts H plan p args (args.input.at clock) n no ∧
        startAttempt H plan p args clock =
          (.ok (newAttempt plan p args n no (args.input.at clock)),
            started plan p args n no (args.input.at clock)) := by
  unfold startAttempt
  simp only
  split
  · exact .inl rfl
  · exact .inl rfl
  · rename_i n no h
    exact .inr ⟨n, no, startCheck_fresh h, startCommit_eq ..⟩

end Adro.Orchestration
