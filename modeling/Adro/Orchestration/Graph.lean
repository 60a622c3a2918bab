import Adro.Go.Search
import Adro.Orchestration.Predicate

/-!
# Graph validation

`validateGraph` with its stable error paths, and the searches it shares with
the reducer. `validateGraph_ok` reads an accepted graph as the facts the
reducer's laws use: ids are present and distinct, edges join known nodes, and
the edges without a traversal bound are acyclic.
-/

namespace Adro.Orchestration

open Adro.Go

section

variable (g : WorkflowGraph) (id : String)

def WorkflowGraph.known : Bool := g.nodes.any fun n => n.id == id

def WorkflowGraph.outgoing : List String :=
  (g.edges.filter fun e => e.fromID == id).map (·.toID)

def WorkflowGraph.incoming : List String :=
  (g.edges.filter fun e => e.toID == id).map (·.fromID)

def repairStep (on : EdgeEvent) (id : String) : List String :=
  (g.edges.filter fun e =>
    e.fromID == id && e.on == on && !(e.maxTraversals == 0 && e.loopGroup != "")).map (·.toID)

def repairPathExists (fromID toID : String) (on : EdgeEvent) : Bool :=
  search (repairStep g on) (· == toID) (g.edges.length + 2) [fromID] []

/-- The explicit target, else the only end of the node's success edges. -/
def resolveRepairTarget (node : WorkflowNode) : String :=
  let explicit := trimSpace node.repairPolicy.targetNodeID
  if explicit != "" then explicit
  else
    match ((g.edges.filter fun e =>
      e.fromID == node.id && e.toID != node.id && e.on == .success).map (·.toID)).dedup with
    | [target] => target
    | _ => ""

def pathExists (start target : String) : Bool :=
  search g.outgoing (· == target) (g.edges.length + 2) [start] []

def hasHumanExit (start : String) : Bool :=
  search g.outgoing (fun id => (g.node id).kind == .human) (g.edges.length + 2) [start] []

end

def Budget.negative (b : Budget) : Bool :=
  b.tokens < 0 || b.toolCalls < 0 || b.costCents < 0 || b.duration < 0 || b.concurrent < 0

def validateBudget (b : Budget) (label : String) : Except Err Unit :=
  ensure (!b.negative) (errorNew (label ++ " cannot contain negative values"))

/-- Every item of a list of texts is present; the error names its index. -/
def validateTexts (path : String) (items : List String) : Except Err Unit :=
  eachSeen id (fun i _ item => ensure (!blank item)
    (errorNew (path ++ "[" ++ toString i ++ "].required"))) 0 [] items

def NodeKind.valid : NodeKind → Bool
  | .other _ => false
  | _ => true

def JoinPolicy.valid : JoinPolicy → Bool
  | .other name => name == ""
  | _ => true

def EdgeEvent.valid : EdgeEvent → Bool
  | .other _ => false
  | _ => true

section

variable (g : WorkflowGraph) (i : Nat) (fail : String → Err)

def validateRefs (n : WorkflowNode) : Except Err Unit := do
  ensure (n.kind != .agent || n.agentRef.isSome) (fail ".agent_ref.required")
  ensure (n.kind != .squad || n.squadRef.isSome) (fail ".squad_ref.required")
  ensure n.kind.valid (fail ".kind.invalid")
  ensure (n.agentRef.all fun r => !blank r.id) (fail ".agent_ref.id.required")
  ensure (n.agentRef.all fun r => r.revision ≥ 1) (fail ".agent_ref.revision.required")
  ensure (n.squadRef.all fun r => !blank r.id) (fail ".squad_ref.id.required")
  ensure (n.squadRef.all fun r => r.revision ≥ 1 || r.version ≥ 1)
    (fail ".squad_ref.revision.required")

def validatePolicies (path : String) (n : WorkflowNode) : Except Err Unit := do
  validatePredicate n.gatePolicy.predicate 0 (path ++ ".gate_policy.predicate")
  ensure (n.kind == .gate || !(!blank n.gatePolicy.predicate.kind ||
    !n.gatePolicy.requiredEvidence.isEmpty || !blank n.gatePolicy.failureCode))
    (fail ".gate_policy.kind_mismatch")
  validateTexts (path ++ ".gate_policy.required_evidence") n.gatePolicy.requiredEvidence
  ensure (n.kind == .merge || !(!blank n.mergePolicy.conflictPolicy ||
    !n.mergePolicy.keyFields.isEmpty || n.mergePolicy.requireEvidence))
    (fail ".merge_policy.kind_mismatch")
  ensure (["", "collect", "prefer_priority", "fail"].contains n.mergePolicy.conflictPolicy)
    (fail ".merge_policy.conflict_policy.invalid")
  validateTexts (path ++ ".merge_policy.key_fields") n.mergePolicy.keyFields
  ensure (n.kind == .repair || !(!blank n.repairPolicy.targetNodeID ||
    !n.repairPolicy.scope.isEmpty || !n.repairPolicy.verificationNodeIDs.isEmpty ||
    n.repairPolicy.maxRounds != 0 || n.repairPolicy.budget != {}))
    (fail ".repair_policy.kind_mismatch")
  ensure (n.repairPolicy.maxRounds ≥ 0) (fail ".repair_policy.max_rounds.invalid")
  ensure (n.kind != .repair || n.repairPolicy.targetNodeID != n.id)
    (fail ".repair_policy.target_node_id.self_reference")
  ensure (n.kind != .repair || !n.repairPolicy.verificationNodeIDs.isEmpty)
    (fail ".repair_policy.verification_node_ids.required")
  ensure (n.kind != .repair || n.repairPolicy.maxRounds != 0)
    (fail ".repair_policy.max_rounds.required")
  validateBudget n.repairPolicy.budget (path ++ ".repair_policy.budget")
  validateTexts (path ++ ".repair_policy.scope") n.repairPolicy.scope

def validateNode (seen : List String) (n : WorkflowNode) : Except Err Unit := do
  let path := "graph.nodes[" ++ toString i ++ "]"
  let fail := fun suffix => errorNew (path ++ suffix)
  ensure (!blank n.id) (fail ".id.required")
  ensure (!seen.contains n.id) (fail ".id.duplicate")
  validateRefs fail n
  ensure (!(n.timeout < 0 || n.contextMaxTokens < 0 || n.budget.negative ||
    n.retryPolicy.maxAttempts < 0 || n.retryPolicy.backoff < 0)) (fail ".budget_or_retry.invalid")
  ensure n.joinPolicy.valid (fail ".join_policy.invalid")
  ensure (n.joinQuorum ≥ 0) (fail ".join_quorum.invalid")
  ensure (["", "wait", "short_circuit"].contains n.joinFailurePolicy)
    (fail ".join_failure_policy.invalid")
  validatePolicies fail path n

def validateEndpoint (field : String) (i : Nat) (seen : List String)
    (id : String) : Except Err Unit := do
  let path := "graph." ++ field ++ "[" ++ toString i ++ "]"
  ensure (g.known id) (errorNew (path ++ ".unknown"))
  ensure (!seen.contains id) (errorNew (path ++ ".duplicate"))

def validateContract (output input : SchemaRef) : Except Err Unit :=
  if output.id != "" || input.id != "" then do
    ensure (!(output.id == "" || input.id == "")) (fail ".schema_contract.missing")
    ensure (output.id == input.id) (fail ".schema_contract.disconnected")
    ensure (!(output.version > 0 && input.version > 0 && output.version != input.version))
      (fail ".schema_contract.version_mismatch")
  else .ok ()

def validateEdge (seen : List String) (e : WorkflowEdge) : Except Err Unit := do
  let path := "graph.edges[" ++ toString i ++ "]"
  let fail := fun suffix => errorNew (path ++ suffix)
  ensure (!blank e.id) (fail ".id.required")
  ensure (!seen.contains e.id) (fail ".id.duplicate")
  ensure (g.known e.fromID) (fail ".from.unknown")
  ensure (g.known e.toID) (fail ".to.unknown")
  ensure (!(e.fromID == e.toID && e.maxTraversals < 1)) (fail ".max_traversals.required")
  ensure e.on.valid (fail ".on.invalid")
  ensure (e.maxTraversals ≥ 0) (fail ".max_traversals.invalid")
  validateTexts (path ++ ".required_evidence") e.requiredEvidence
  ensure (!(e.loopGroup != "" && e.maxTraversals < 1)) (fail ".loop_group.max_traversals.required")
  ensure (!(e.fanOut && e.priority < 0)) (fail ".fan_out.priority.invalid")
  validatePredicate e.predicate 0 (path ++ ".predicate")
  validateContract fail (g.node e.fromID).outputContract (g.node e.toID).inputContract

/-- The second pass over the nodes, once all edges are known. -/
def validateNodeLinks (_ : List String) (n : WorkflowNode) : Except Err Unit := do
  let path := "graph.nodes[" ++ toString i ++ "]"
  let fail := fun suffix => errorNew (path ++ suffix)
  let verification := path ++ ".repair_policy.verification_node_ids"
  ensure (!(n.joinPolicy == .quorum && n.joinQuorum > 0 &&
    n.joinQuorum > (g.incoming n.id).length)) (fail ".join_quorum.exceeds_incoming")
  ensure (n.repairPolicy.targetNodeID == "" || g.known n.repairPolicy.targetNodeID)
    (fail ".repair_policy.target_node_id.unknown")
  eachSeen id (fun j _ id => ensure (g.known id)
    (errorNew (verification ++ "[" ++ toString j ++ "].unknown"))) 0 []
    n.repairPolicy.verificationNodeIDs
  if n.kind == .repair then
    let target := resolveRepairTarget g n
    ensure (target != "") (fail ".repair_policy.target_node_id.required_or_uniquely_derivable")
    ensure (repairPathExists g n.id target .success)
      (fail ".repair_policy.target_node_id.unreachable")
    eachSeen id (fun j _ id => ensure (repairPathExists g target id .success)
      (errorNew (verification ++ "[" ++ toString j ++ "].unreachable"))) 0 []
      n.repairPolicy.verificationNodeIDs

end

def maxWorkflowNodes : Nat := 1000
def maxWorkflowEdges : Nat := 5000

/-- Every node is in the closure of the seeds; the source ranges over a map
here, so which of several offenders it names is not determined. -/
def validateClosure (g : WorkflowGraph) (next : String → List String) (seeds : List String)
    (suffix : String) : Except Err Unit :=
  let reached := closure next (seeds.length + g.edges.length + 1) seeds []
  eachOk (fun n => ensure (reached.contains n.id)
    (errorNew ("graph.nodes." ++ n.id ++ suffix))) g.nodes

def WorkflowGraph.unboundedOutgoing (g : WorkflowGraph) (id : String) : List WorkflowEdge :=
  g.edges.filter fun e => e.fromID == id && decide (e.maxTraversals < 1)

def validateCycles (g : WorkflowGraph) : Except Err Unit := do
  eachOk (fun e => ensure (!(e.maxTraversals > 0 && e.loopGroup != "" &&
    pathExists g e.toID e.fromID && !hasHumanExit g e.fromID))
    (errorNew ("graph.edges." ++ e.id ++ ".loop_group.human_exit.required"))) g.edges
  match visitAll g.unboundedOutgoing (·.toID) (g.nodes.length + 1) (g.nodes.map (·.id)) {} with
  | .ok _ => .ok ()
  | .error e =>
    .error (errorNew ("graph.edges." ++ (e.map (·.id)).getD "" ++ ".max_traversals.required"))

def validateGraph (g : WorkflowGraph) : Except Err Unit := do
  ensure (!blank g.id) (errorNew "graph.id.required")
  ensure (!g.nodes.isEmpty) (errorNew "graph.nodes.empty")
  ensure (g.nodes.length ≤ maxWorkflowNodes) (errorNew "graph.nodes.too_many: maximum is 1000")
  ensure (g.edges.length ≤ maxWorkflowEdges) (errorNew "graph.edges.too_many: maximum is 5000")
  ensure (g.version ≥ 1) (errorNew "graph.version.required")
  eachSeen (·.id) validateNode 0 [] g.nodes
  ensure (!(g.entryNodeIDs.isEmpty || g.exitNodeIDs.isEmpty)) (errorNew "graph.entry_exit.required")
  eachSeen id (validateEndpoint g "entry_node_ids") 0 [] g.entryNodeIDs
  eachSeen id (validateEndpoint g "exit_node_ids") 0 [] g.exitNodeIDs
  eachSeen (·.id) (validateEdge g) 0 [] g.edges
  eachSeen (·.id) (validateNodeLinks g) 0 [] g.nodes
  validateClosure g g.outgoing g.entryNodeIDs ".unreachable"
  validateClosure g g.incoming g.exitNodeIDs ".no_exit_path"
  validateCycles g

variable {g : WorkflowGraph} {id : String}

theorem WorkflowGraph.known_iff : g.known id = true ↔ ∃ n ∈ g.nodes, n.id = id := by
  simp [WorkflowGraph.known]

theorem WorkflowGraph.node_mem (h : g.known id = true) :
    g.node id ∈ g.nodes ∧ (g.node id).id = id := by
  unfold WorkflowGraph.node
  cases hf : g.nodes.find? fun n => n.id == id with
  | none =>
    obtain ⟨n, hn, hid⟩ := known_iff.mp h
    exact absurd (List.find?_eq_none.mp hf n hn) (by simp [hid])
  | some n =>
    exact ⟨List.mem_of_find?_eq_some hf, by simpa using List.find?_some hf⟩

structure GraphFacts (g : WorkflowGraph) (rank : String → Nat) : Prop where
  node_id : ∀ n ∈ g.nodes, blank n.id = false
  node_nodup : (g.nodes.map (·.id)).Nodup
  edge_id : ∀ e ∈ g.edges, blank e.id = false
  edge_nodup : (g.edges.map (·.id)).Nodup
  edge_from : ∀ e ∈ g.edges, g.known e.fromID = true
  edge_to : ∀ e ∈ g.edges, g.known e.toID = true
  bound_nonneg : ∀ e ∈ g.edges, 0 ≤ e.maxTraversals
  retry_nonneg : ∀ n ∈ g.nodes, 0 ≤ n.retryPolicy.maxAttempts
  acyclic : ∀ e ∈ g.edges, e.maxTraversals = 0 → rank e.toID < rank e.fromID

theorem validateNode_ok (h : validateNode i seen n = .ok ()) :
    blank n.id = false ∧ n.id ∉ seen ∧ 0 ≤ n.retryPolicy.maxAttempts := by
  simp only [validateNode, then_ok, ensure_ok] at h
  obtain ⟨hid, hseen, _, hb, -⟩ := h
  simp only [Bool.not_eq_true', Bool.or_eq_false_iff, decide_eq_false_iff_not] at hb
  exact ⟨by simpa using hid, by simpa using hseen, by omega⟩

theorem validateEdge_ok (h : validateEdge g i seen e = .ok ()) :
    blank e.id = false ∧ e.id ∉ seen ∧ g.known e.fromID = true ∧ g.known e.toID = true ∧
      0 ≤ e.maxTraversals := by
  simp only [validateEdge, then_ok, ensure_ok] at h
  obtain ⟨hid, hseen, hfrom, hto, _, _, hmax, -⟩ := h
  exact ⟨by simpa using hid, by simpa using hseen, hfrom, hto, by simpa using hmax⟩

theorem validateCycles_ok (h : validateCycles g = .ok ())
    (hfrom : ∀ e ∈ g.edges, g.known e.fromID = true) :
    ∃ rank : String → Nat, ∀ e ∈ g.edges, e.maxTraversals < 1 → rank e.toID < rank e.fromID := by
  simp only [validateCycles, then_ok] at h
  obtain ⟨-, h⟩ := h
  split at h
  · rename_i c hc
    have hv := visitAll_ok hc trivial
    refine ⟨finishRank c.done, fun e he hb => ?_⟩
    obtain ⟨n, hn, hid⟩ := WorkflowGraph.known_iff.mp (hfrom e he)
    have hdone : e.fromID ∈ c.done := hid ▸ hv.all _ (List.mem_map_of_mem hn)
    refine (hv.finished.rank_lt hdone ?_).2
    simp [WorkflowGraph.unboundedOutgoing, he, hb]
  · cases h

theorem validateGraph_ok (h : validateGraph g = .ok ()) : ∃ rank, GraphFacts g rank := by
  simp only [validateGraph, then_ok] at h
  obtain ⟨_, _, _, _, _, hnodes, _, _, _, hedges, _, _, _, hcycles⟩ := h
  have hn := fun n hn => validateNode_ok (eachSeen_ok hnodes n hn).choose_spec.choose_spec
  have he := fun e he => validateEdge_ok (eachSeen_ok hedges e he).choose_spec.choose_spec
  have hfrom := fun e hm => (he e hm).2.2.1
  obtain ⟨rank, hrank⟩ := validateCycles_ok hcycles hfrom
  exact ⟨rank, {
    node_id := fun n hm => (hn n hm).1
    node_nodup := (eachSeen_nodup hnodes fun _ _ _ h => (validateNode_ok h).2.1).1
    edge_id := fun e hm => (he e hm).1
    edge_nodup := (eachSeen_nodup hedges fun _ _ _ h => (validateEdge_ok h).2.1).1
    edge_from := hfrom
    edge_to := fun e hm => (he e hm).2.2.2.1
    bound_nonneg := fun e hm => (he e hm).2.2.2.2
    retry_nonneg := fun n hm => (hn n hm).2.2
    acyclic := fun e hm hb => hrank e hm (by omega) }⟩

theorem validateGraph_entries (h : validateGraph g = .ok ()) :
    g.entryNodeIDs ≠ [] ∧ ∀ k ∈ g.entryNodeIDs, g.known k = true := by
  simp only [validateGraph, then_ok, ensure_ok] at h
  obtain ⟨_, _, _, _, _, _, hends, hentry, -⟩ := h
  simp only [Bool.not_eq_true', Bool.or_eq_false_iff, List.isEmpty_eq_false_iff] at hends
  refine ⟨hends.1, fun k hk => ?_⟩
  obtain ⟨i, seen, hi⟩ := eachSeen_ok hentry k hk
  simp only [validateEndpoint, then_ok, ensure_ok] at hi
  exact hi.1

end Adro.Orchestration
