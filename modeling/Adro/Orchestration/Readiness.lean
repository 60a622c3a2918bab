import Adro.Orchestration.Runs

/-!
# Readiness and routing

`route` sees the event of a transition; `edgeSatisfied` has only the stored
attempt and makes up an event from its status and outcome. The two agree on an
edge exactly when that made-up event tells the edge what the real one told it:
a `bug` must be in the outcome, an approval too, and a closed plan follows no
edge. A fresh projection offers its entry nodes, those with an incoming edge
apart.
-/

namespace Adro.Orchestration

open Adro.Go

def incomingEdges (plan : RequirementExecutionPlan) (id : String) : List WorkflowEdge :=
  plan.graphSnapshot.edges.filter fun e => e.toID == id

/-- How many satisfied incoming edges the node asks for in a projection. -/
def edgesNeeded (H : Host) (plan : RequirementExecutionPlan) (p : PlanProjection)
    (n : WorkflowNode) : Int :=
  let edges := incomingEdges plan n.id
  if n.joinFailurePolicy == "short_circuit" && edges.any (sourceUnsuccessful p) &&
      edges.any (fun e => (satisfiedBy H p e).any fun a =>
        n.joinFailurePolicy == "short_circuit" && a.status != .passed && e.on != .success)
  then 0 else joinNeed n edges.length

/-- What readiness asks of a node apart from its back-off. -/
def enabled (H : Host) (plan : RequirementExecutionPlan) (p : PlanProjection) (n : WorkflowNode) :
    Bool :=
  ((p.nodes[n.id]?).getD default).status == .ready && ((incomingEdges plan n.id).isEmpty ||
    edgesNeeded H plan p n ≤
      (((incomingEdges plan n.id).countP fun e => (satisfiedBy H p e).isSome : Nat) : Int))

theorem nodeReadyAt_eq (plan : RequirementExecutionPlan) : nodeReadyAt H plan p now n =
      (enabled H plan p n && !((p.nodes[n.id]?).getD default).retryAt.any fun t => now < t) := by
  unfold nodeReadyAt enabled
  rw [Bool.and_right_comm]
  rfl

theorem mem_readyNodesAt : n ∈ readyNodesAt H plan p now ↔
    n ∈ plan.graphSnapshot.nodes ∧ nodeReadyAt H plan p now n = true := by
  rw [readyNodesAt, List.mem_mergeSort, List.mem_filter]

theorem exists_readyNodesAt : (∃ now, readyNodesAt H plan p now ≠ []) ↔
    ∃ n ∈ plan.graphSnapshot.nodes, enabled H plan p n = true := by
  constructor
  · rintro ⟨now, hne⟩
    obtain ⟨n, hn⟩ := List.exists_mem_of_ne_nil _ hne
    obtain ⟨hmem, hready⟩ := mem_readyNodesAt.1 hn
    rw [nodeReadyAt_eq, Bool.and_eq_true] at hready
    exact ⟨n, hmem, hready.1⟩
  · rintro ⟨n, hn, he⟩
    refine ⟨(((p.nodes[n.id]?).getD default).retryAt).getD 0, List.ne_nil_of_mem (a := n) ?_⟩
    rw [mem_readyNodesAt, nodeReadyAt_eq, he]
    refine ⟨hn, ?_⟩
    cases ((p.nodes[n.id]?).getD default).retryAt <;> simp

/-- The edges `route` finds matching; a parked attempt and the end of the plan's
time leave none. -/
def matchedEdges (plan : RequirementExecutionPlan) (a : NodeAttempt) (event : String) :
    List WorkflowEdge :=
  if routes a.status event && !deadlineTimeout a then
    ((matchEdges a event plan.graphSnapshot.edges).toOption).getD []
  else []

def followedEdges (plan : RequirementExecutionPlan) (a : NodeAttempt) (event : String) :
    List WorkflowEdge :=
  match selectEdges (matchedEdges plan a event) with
  | .ok sel => sel.edges
  | .error _ => []

theorem followedEdges_matched (h : e ∈ followedEdges plan a event) :
    e ∈ matchedEdges plan a event := by
  unfold followedEdges at h
  split at h
  · rename_i sel hs
    exact selectEdges_mem hs e h
  · cases h

theorem edgeSatisfied_iff : edgeSatisfied H e a = true ↔
    eventMatches e.on a.status (settledEvent H a) a.result.outcome = true ∧ carried e a = true := by
  have h : edgeSatisfied H e a =
      (eventMatches e.on a.status (settledEvent H a) a.result.outcome && carried e a) :=
    Bool.and_assoc _ _ _
  rw [h, Bool.and_eq_true]

/-- A transition that was kept has evaluated the edges it was to follow. -/
theorem settle_matches (h : settle H plan f k input a mid = (.ok b, q))
    (hroutes : routes a.status input.event = true) (hdeadline : deadlineTimeout a = false) :
    ∃ es sel, matchEdges a input.event plan.graphSnapshot.edges = .ok es ∧
      selectEdges es = .ok sel := by
  unfold settle at h
  simp only [hroutes, if_true] at h
  split at h
  · cases h
  · rename_i u m hm
    unfold route at hm
    rw [hdeadline] at hm
    cases hs : routeSelection plan a input.event with
    | error e => rw [hs] at hm; cases hm
    | ok sel =>
      obtain ⟨es, hes, hsel⟩ := bind_ok.mp hs
      exact ⟨es, sel, hes, hsel⟩

theorem mem_matchedEdges (h : settle H plan f k input a mid = (.ok b, q)) :
    e ∈ matchedEdges plan a input.event ↔
      (routes a.status input.event = true ∧ deadlineTimeout a = false) ∧
        e ∈ plan.graphSnapshot.edges ∧ e.fromID = a.nodeID ∧
        eventMatches e.on a.status input.event a.result.outcome = true ∧ carried e a = true := by
  unfold matchedEdges
  split
  · rename_i hr
    simp only [Bool.and_eq_true, Bool.not_eq_true'] at hr
    obtain ⟨es, sel, hes, -⟩ := settle_matches h hr.1 hr.2
    rw [hes]
    simp only [Except.toOption, Option.getD_some, hr, true_and, mem_matchEdges hes]
  · rename_i hr
    simp only [Bool.and_eq_true, Bool.not_eq_true'] at hr
    simp only [List.not_mem_nil, false_iff]
    exact fun h => hr h.1

/-- The transition that closes the plan at its deadline. -/
def TransitionInput.closesPlan (input : TransitionInput) : Bool :=
  eventStatus input.event == some .timedOut &&
    input.failure.any fun r => r.code == "plan_deadline_exceeded"

/-- The status and the outcome tell an edge of this kind what the event told it. -/
def ToldAlike (H : Host) (input : TransitionInput) : EdgeEvent → Prop
  | .success => input.event = "approval_granted" → input.result.outcome = "approved"
  | .failure | .bug => eventStatus input.event = some .failed →
      (equalFold H.fold input.result.outcome "bug" = true ↔
        input.event = "bug" ∨ input.result.outcome = "bug")
  | .timeout => input.closesPlan = false
  | .approval =>
    if input.result.outcome = "approved" then
      input.event ≠ "waiting" ∧ input.event ≠ "approval" ∧ input.closesPlan = false
    else input.event ≠ "approval_granted" ∧ input.event ≠ "approved"
  | .cancel | .other _ => True

instance (H : Host) (input : TransitionInput) : DecidablePred (ToldAlike H input) := fun on => by
  cases on <;> unfold ToldAlike <;> infer_instance

theorem eventStatus_events (h : eventStatus event = some s) :
    (s = .passed ∧ event ∈ ["success", "passed", "pass", "approval_granted"]) ∨
    (s = .failed ∧ event ∈ ["failure", "failed", "fail", "bug", "approval_denied"]) ∨
    (s = .timedOut ∧ event ∈ ["timeout", "timed_out"]) ∨
    (s = .cancelled ∧ event ∈ ["cancel", "cancelled"]) ∨
    (s = .waiting ∧ event ∈ ["approval", "approved", "waiting"]) := by
  unfold eventStatus at h
  repeat' split at h
  all_goals cases h
  all_goals simp_all
  all_goals tauto

theorem equalFold_self (fold : Char → Char) (s : String) : equalFold fold s s = true := by
  simp [equalFold]

/-- A stored attempt that closes the plan is that of such a transition. -/
theorem deadlineTimeout_eq {input : TransitionInput} (hs : eventStatus input.event = some a.status)
    (hf : a.failureReason = input.failure) : deadlineTimeout a = input.closesPlan := by
  simp only [deadlineTimeout, TransitionInput.closesPlan, hs, hf]
  rfl

/-- The made-up event and the real one speak alike to an edge exactly where `ToldAlike` says so. -/
theorem toldAlike_iff (hs : eventStatus input.event = some a.status)
    (ho : a.result.outcome = input.result.outcome) (hf : a.failureReason = input.failure)
    (on : EdgeEvent) :
    ToldAlike H input on ↔
      (eventMatches on a.status (settledEvent H a) a.result.outcome = true ↔
        (routes a.status input.event = true ∧ deadlineTimeout a = false) ∧
          eventMatches on a.status input.event a.result.outcome = true) := by
  have hclose := deadlineTimeout_eq hs hf
  have hend : a.status ≠ .timedOut → input.closesPlan = false := fun hne => by
    rw [← hclose, deadlineTimeout, beq_false_of_ne hne, Bool.false_and]
  have hbug := equalFold_self H.fold "bug"
  unfold settledEvent
  -- A finite table: the status fixes the events, and each kind of edge is a row.
  rcases eventStatus_events hs with ⟨h, hm⟩ | ⟨h, hm⟩ | ⟨h, hm⟩ | ⟨h, hm⟩ | ⟨h, hm⟩ <;>
    rw [h] at ⊢ <;>
    cases on <;>
    simp [ToldAlike, eventMatches, routes, AttemptStatus.unsuccessful] <;> grind

/-- The attempt is stored and is its node's current one. -/
structure Stands (p : PlanProjection) (k : String) (a : NodeAttempt) : Prop where
  stored : p.attempts[k]? = some a
  current : ((p.nodes[a.nodeID]?).getD default).currentAttempt = k

/-- What readiness counts of an edge whose source has a standing attempt. -/
theorem Stands.satisfiedBy (h : Stands p k a) (hk : k ≠ "") (he : e.fromID = a.nodeID) :
    (satisfiedBy H p e).isSome = edgeSatisfied H e a := by
  unfold Orchestration.satisfiedBy
  simp only [he, h.current, beq_false_of_ne hk, h.stored, Bool.false_eq_true, if_false]
  split <;> simp_all

theorem Reopened.current {k : String} (h : Reopened S nodes nodes') (hn : nodes[k]? = some n) :
    ((nodes'[k]?).getD default).currentAttempt = n.currentAttempt := by
  rcases h k with h | ⟨-, n', h, hr⟩
  · rw [h, hn]; rfl
  · rw [h, Option.getD_some, hr.current, hn, Option.getD_some]

theorem FinishResult.stands (h : FinishResult H plan p k input f (.ok b) q)
    (hf : FinishFacts plan p k input now f a) : Stands q k b := by
  have hwrites := h.writes hf
  refine ⟨by rw [hwrites.attempts]; simp, ?_⟩
  cases h with
  | kept a' mid m hr hm =>
    rw [noteReason_eq]
    have hown := hm.nodes.current (commitFinish_own k)
    exact hown.trans hf.current

/-- Of a finished attempt, an edge is satisfied exactly when the transition matched it, unless the
event told the edge something that the status and the outcome do not. -/
theorem edgeSatisfied_matched (h : FinishResult H plan p k input f (.ok b) q)
    (hf : FinishFacts plan p k input now f a) (he : e ∈ plan.graphSnapshot.edges)
    (hfrom : e.fromID = b.nodeID) :
    (edgeSatisfied H e b = true ↔ e ∈ matchedEdges plan b input.event) ↔
      (ToldAlike H input e.on ∨ carried e b = false) := by
  cases h with
  | kept a' mid m hr hm hs =>
    obtain ⟨houtcome, -, hfailure⟩ := stamped_input hr hf
    have hstatus := hf.event
    rw [← stamped_status (t := f.now) hr] at hstatus
    have htold := toldAlike_iff (H := H) hstatus houtcome hfailure e.on
    rw [edgeSatisfied_iff, mem_matchedEdges hs, htold]
    cases carried e (stampAttempt f.now a') <;> simp [he, hfrom]

/-- In what a transition leaves, and as long as its attempt stands, an edge out of its node counts
for readiness exactly when `route` found it matching; the edges it opened a target over are among
these. -/
theorem readiness_agrees_with_routing (H : Host) (plan : RequirementExecutionPlan)
    (p q : PlanProjection) (k : String) (input : TransitionInput) (clock : Time) (f : Finishing)
    (b : NodeAttempt) (hfresh : finishCheck H plan p k input (input.at clock) = .ok (.fresh f))
    (h : finishAttempt H plan p k input clock = (.ok b, q)) :
    Stands q k b ∧
    (∀ e ∈ followedEdges plan b input.event, e ∈ matchedEdges plan b input.event) ∧
    ∀ e ∈ plan.graphSnapshot.edges, e.fromID = b.nodeID →
      ((edgeSatisfied H e b = true ↔ e ∈ matchedEdges plan b input.event) ↔
        (ToldAlike H input e.on ∨ carried e b = false)) ∧
      (k ≠ "" → ToldAlike H input e.on → ∀ later, Stands later k b →
        ((satisfiedBy H later e).isSome = true ↔ e ∈ matchedEdges plan b input.event)) := by
  obtain ⟨a, hf, hres⟩ := finishAttempt_fresh hfresh
  rw [h] at hres
  refine ⟨hres.stands hf, fun e he => followedEdges_matched he, fun e he hfrom => ?_⟩
  have hagree := edgeSatisfied_matched hres hf he hfrom
  refine ⟨hagree, fun hk htold later hlater => ?_⟩
  rw [hlater.satisfiedBy hk hfrom]
  exact hagree.2 (.inl htold)

/-- A node `x` with one edge to the exit `y`. -/
def oneEdgePlan (on : EdgeEvent) : RequirementExecutionPlan := samplePlan {
  id := "graph", version := 1, entryNodeIDs := ["x"], exitNodeIDs := ["y"]
  nodes := [agentNode "x", agentNode "y"]
  edges := [{ id := "e", fromID := "x", toID := "y", on }] }

/-- The event `bug` opens the target over the bug edge, and readiness then withholds it for ever. -/
theorem bug_target_withheld :
    let plan := oneEdgePlan .bug
    let run := [startCall "x" "a", finishCall "a" "bug" {}]
    let p := sampleRun plan run
    succeeds plan (sampleRun plan []) run = true ∧
      (p.nodes["y"]?).map (fun n => (n.status, n.readyEdgeIDs)) = some (.ready, ["e"]) ∧
      (p.attempts["a"]?).map (fun a => ((matchedEdges plan a "bug").map (·.id),
        plan.graphSnapshot.edges.map (edgeSatisfied sampleHost · a))) = some (["e"], [false]) ∧
      ¬ ∃ now, readyNodesAt sampleHost plan p now ≠ [] := by
  refine ⟨by decide +kernel, by decide +kernel, by decide +kernel, ?_⟩
  rw [exists_readyNodesAt]
  decide +kernel

def failureInput : TransitionInput :=
  { event := "failure", result := { evidenceIDs := ["evidence"] } }

def FinishAdmission.isFresh : FinishAdmission → Bool
  | .fresh _ => true
  | .replay _ => false

theorem failure_counts_for_target :
    let plan := oneEdgePlan .failure
    let e : WorkflowEdge := { id := "e", fromID := "x", toID := "y", on := .failure }
    ∃ b q, finishAttempt sampleHost plan (sampleRun plan [startCall "x" "a"]) "a" failureInput 2 =
        (.ok b, q) ∧
      ((satisfiedBy sampleHost q e).isSome = true ↔ e ∈ matchedEdges plan b "failure") := by
  intro plan e
  have hfresh : ((finishCheck sampleHost plan (sampleRun plan [startCall "x" "a"]) "a" failureInput
      (failureInput.at 2)).toOption.any (·.isFresh)) = true := by decide +kernel
  have hok : ((finishAttempt sampleHost plan (sampleRun plan [startCall "x" "a"]) "a" failureInput
      2).1.toOption.map (·.nodeID)) = some "x" := by decide +kernel
  cases hf : finishCheck sampleHost plan (sampleRun plan [startCall "x" "a"]) "a" failureInput
      (failureInput.at 2) with
  | error err => rw [hf] at hfresh; cases hfresh
  | ok admission =>
    cases admission with
    | replay a => rw [hf] at hfresh; cases hfresh
    | fresh f =>
      cases h : finishAttempt sampleHost plan
        (sampleRun plan [startCall "x" "a"]) "a" failureInput 2
        with
      | mk res q =>
        cases res with
        | error err => rw [h] at hok; cases hok
        | ok b =>
          rw [h] at hok
          have hnode : b.nodeID = "x" := Option.some.inj hok
          obtain ⟨hstands, -, hedges⟩ := readiness_agrees_with_routing sampleHost plan _ q "a"
            failureInput 2 f b hf h
          have hedge := hedges e (List.mem_singleton_self e) hnode.symm
          exact ⟨b, q, rfl, hedge.2 (by decide) (by decide) q hstands⟩

def entryNodes (g : WorkflowGraph) : List WorkflowNode :=
  (g.nodes.filter fun n => g.entryNodeIDs.contains n.id).mergeSort fun a b => a.id ≤ b.id

def openEntries (g : WorkflowGraph) : List WorkflowNode :=
  (g.nodes.filter fun n => g.entryNodeIDs.contains n.id &&
    g.edges.all fun e => e.toID != n.id).mergeSort
    fun a b => a.id ≤ b.id

theorem joinNeed_pos (n : WorkflowNode) (h : 0 < edges) : 1 ≤ joinNeed n edges := by
  unfold joinNeed
  split
  · omega
  · split <;> omega
  · exact Int.le_refl 1

theorem satisfiedBy_empty (h : p.attempts = ∅) : satisfiedBy H p e = none := by
  unfold satisfiedBy
  simp [h]

theorem enabled_fresh (h : p.attempts = ∅) : enabled H plan p n =
    (((p.nodes[n.id]?).getD default).status == .ready && (incomingEdges plan n.id).isEmpty) := by
  unfold enabled edgesNeeded
  cases hin : incomingEdges plan n.id with
  | nil => simp
  | cons e es =>
    have hneed : ¬ joinNeed n (es.length + 1) ≤ 0 := by
      have := joinNeed_pos n (Nat.zero_lt_succ es.length)
      rw [Nat.succ_eq_add_one] at this
      omega
    simp [satisfiedBy_empty h, hneed]

theorem readyNodesAt_fresh (hnew : newProjection plan = .ok p) :
    readyNodesAt H plan p now = openEntries plan.graphSnapshot := by
  unfold readyNodesAt openEntries
  congr 1
  refine List.filter_congr fun n hn => ?_
  rw [nodeReadyAt_eq, enabled_fresh (newProjection_attempts hnew), newProjection_node hnew hn]
  have hin : (incomingEdges plan n.id).isEmpty =
      plan.graphSnapshot.edges.all fun e => e.toID != n.id := by
    rw [incomingEdges, Bool.eq_iff_iff]
    simp
  have hstatus : ((initialNode plan.graphSnapshot n).status == .ready) =
      plan.graphSnapshot.entryNodeIDs.contains n.id := by
    unfold initialNode
    split <;> simp_all
  rw [Option.getD_some, hin, hstatus]
  simp [initialNode]

/-- A fresh plan offers its entry nodes exactly when no edge leads to one of them; it offers none at
all exactly when an edge leads to each. -/
theorem fresh_plan_ready (H : Host) (plan : RequirementExecutionPlan) (p : PlanProjection)
    (hnew : newProjection plan = .ok p) (now : Time) :
    (readyNodesAt H plan p now = entryNodes plan.graphSnapshot ↔
      ∀ e ∈ plan.graphSnapshot.edges, e.toID ∉ plan.graphSnapshot.entryNodeIDs) ∧
    (readyNodesAt H plan p now ≠ [] ↔
      ∃ k ∈ plan.graphSnapshot.entryNodeIDs, ∀ e ∈ plan.graphSnapshot.edges, e.toID ≠ k) := by
  have hgraph := newProjection_graph hnew
  obtain ⟨-, hknown⟩ := validateGraph_entries hgraph
  obtain ⟨rank, facts⟩ := validateGraph_ok hgraph
  have hopen (n : WorkflowNode) : n ∈ openEntries plan.graphSnapshot ↔
      n ∈ plan.graphSnapshot.nodes ∧ n.id ∈ plan.graphSnapshot.entryNodeIDs ∧
        ∀ e ∈ plan.graphSnapshot.edges, e.toID ≠ n.id := by
    simp [openEntries]
  rw [readyNodesAt_fresh hnew]
  refine ⟨⟨fun h e he hin => ?_, fun h => ?_⟩, ⟨fun h => ?_, fun ⟨k, hk, hno⟩ => ?_⟩⟩
  · -- The target of the edge would be among the nodes that no edge leads to.
    obtain ⟨n, hn, hid⟩ := WorkflowGraph.known_iff.1 (facts.edge_to e he)
    have hmem : n ∈ openEntries plan.graphSnapshot := by
      rw [h]
      simpa [entryNodes, hn, hid] using hin
    exact ((hopen n).1 hmem).2.2 e he hid.symm
  · unfold openEntries entryNodes
    congr 1
    refine List.filter_congr fun n _ => ?_
    rw [Bool.and_eq_left_iff_imp, List.all_eq_true]
    intro hn e he
    have hne : e.toID ≠ n.id := fun heq => h e he (heq ▸ List.contains_iff_mem.1 hn)
    simpa using hne
  · obtain ⟨n, hn⟩ := List.exists_mem_of_ne_nil _ h
    obtain ⟨-, hentry, hno⟩ := (hopen n).1 hn
    exact ⟨n.id, hentry, hno⟩
  · obtain ⟨n, hn, hid⟩ := WorkflowGraph.known_iff.1 (hknown k hk)
    exact List.ne_nil_of_mem ((hopen n).2 ⟨hn, hid ▸ hk, hid ▸ hno⟩)

/-- The only entry is sent back to itself after a failure. -/
def loopEntryPlan : RequirementExecutionPlan := samplePlan {
  id := "graph", version := 1, entryNodeIDs := ["x"], exitNodeIDs := ["x"], nodes := [agentNode "x"]
  edges := [{ id := "e", fromID := "x", toID := "x", on := .failure, maxTraversals := 1 }] }

/-- The graph is accepted, and a fresh plan of it never offers a node. -/
theorem loop_entry_never_ready :
    (newProjection loopEntryPlan).toBool = true ∧
      (entryNodes loopEntryPlan.graphSnapshot).map (·.id) = ["x"] ∧
      ¬ ∃ now, readyNodesAt sampleHost loopEntryPlan (sampleRun loopEntryPlan []) now ≠ [] := by
  refine ⟨by decide +kernel, by decide +kernel, ?_⟩
  rw [exists_readyNodesAt]
  decide +kernel

theorem fresh_plan_ready_one_edge :
    readyNodesAt sampleHost (oneEdgePlan .success) (sampleRun (oneEdgePlan .success) []) 0 =
      entryNodes (oneEdgePlan .success).graphSnapshot :=
  (fresh_plan_ready sampleHost (oneEdgePlan .success) _ (sampleRun_new (by decide +kernel)) 0).1.2
    (by decide)

end Adro.Orchestration
