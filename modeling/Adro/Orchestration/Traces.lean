import Adro.Orchestration.RepairWrites

/-!
# Failures without a trace

A finish whose routing fails is rolled back, except for the usage counters, what the
repair stage wrote, and the nodes that were opened on the way: short-circuited joins,
and the targets of a fan-out before the edge that is exhausted. An opened node does
not go back to what it was, so the projection is the old one exactly when each of
these wrote nothing.
-/

namespace Adro.Orchestration

open Adro.Go Adro.Runs

/-- A node is opened as a join, or as the target of a fan-out edge. -/
inductive Opening
  | join (id : String)
  | target (e : WorkflowEdge)

namespace Opening

def node : Opening → String
  | .join id => id
  | .target e => e.toID

/-- What becomes of the node. -/
def opens : Opening → Option NodeProjection → Option NodeProjection
  | .join _, x =>
    let n := x.getD default
    if n.status == .running || n.status == .passed then x else some { n with status := .ready }
  | .target e, x =>
    let n := x.getD default
    if n.status == .running then x
    else some { n with
      status := .ready, retryAt := none, readyEdgeIDs := appendUnique n.readyEdgeIDs [e.id] }

/-- The node is running, or is open in this way already. -/
def Idle : Opening → NodeProjection → Prop
  | .join _, n => n.status = .running ∨ n.status = .passed ∨ n.status = .ready
  | .target e, n => n.status = .running ∨ n.status = .ready ∧ n.retryAt = none ∧
      appendUnique n.readyEdgeIDs [e.id] = n.readyEdgeIDs

theorem opens_same (o : Opening) (x : Option NodeProjection) :
    o.opens x = x ↔ ∃ n, x = some n ∧ o.Idle n := by
  cases x with
  | none => cases o <;> simp [opens, show (default : NodeProjection).status = .unset from rfl]
  | some n =>
    simp only [Option.some.injEq, exists_eq_left']
    cases o with
    | join id =>
      by_cases hclosed : n.status = .running ∨ n.status = .passed
      · simp [opens, Idle, hclosed, or_assoc.symm]
      · have hsame : ({ n with status := .ready } : NodeProjection) = n ↔ n.status = .ready :=
          ⟨fun h => (congrArg NodeProjection.status h).symm, fun h => by rw [← h]⟩
        simp [opens, Idle, hclosed, hsame, or_assoc.symm]
    | target e =>
      by_cases hrun : n.status = .running
      · simp [opens, Idle, hrun]
      · simp only [opens, Option.getD_some, hrun, beq_iff_eq, if_false, Option.some.injEq,
          Idle, false_or]
        constructor
        · intro h
          exact ⟨(congrArg NodeProjection.status h).symm, (congrArg NodeProjection.retryAt h).symm,
            congrArg NodeProjection.readyEdgeIDs h⟩
        · rintro ⟨hready, hretry, hids⟩
          rw [hids, ← hready, ← hretry]

/-- The ids are distinct and not blank, as a list is that was appended to. -/
def Clean (ids : List String) : Prop := uniqueItems [] ids = ids

theorem clean_append (ids more : List String) : Clean (appendUnique ids more) := uniqueItems_twice

theorem clean_grows (h : Clean ids) (more : List String) :
    ∃ rest, appendUnique ids more = ids ++ rest := by
  unfold appendUnique
  rw [uniqueItems_append, show uniqueItems [] ids = ids from h]
  exact ⟨_, rfl⟩

/-- The node was opened when it was not open, and cannot be what it was any more. -/
structure Moved (x : Option NodeProjection) (n : NodeProjection) : Prop where
  ready : n.status = .ready
  since : ∀ n₀, x = some n₀ → n₀.status ≠ .ready ∨ (n.retryAt = none ∧ n₀.retryAt ≠ none) ∨
    (Clean n.readyEdgeIDs ∧ (¬ Clean n₀.readyEdgeIDs ∨
      n₀.readyEdgeIDs.length < n.readyEdgeIDs.length))

theorem Moved.ne (h : Moved x n) : some n ≠ x := by
  rintro rfl
  rcases h.since n rfl with hstatus | ⟨hnone, hsome⟩ | ⟨hclean, hnot | hlt⟩
  · exact hstatus h.ready
  · exact hsome hnone
  · exact hnot hclean
  · exact Nat.lt_irrefl _ hlt

theorem Moved.opens (h : Moved x n) (o : Opening) :
    ∃ n', o.opens (some n) = some n' ∧ Moved x n' := by
  cases o with
  | join id =>
    refine ⟨n, ?_, h⟩
    exact (opens_same _ _).2 ⟨n, rfl, .inr (.inr h.ready)⟩
  | target e =>
    refine ⟨{ n with status := .ready, retryAt := none
                     readyEdgeIDs := appendUnique n.readyEdgeIDs [e.id] },
      by simp [Opening.opens, h.ready], rfl, fun n₀ hx => ?_⟩
    rcases h.since n₀ hx with hstatus | ⟨-, hsome⟩ | ⟨hclean, hgrown⟩
    · exact .inl hstatus
    · exact .inr (.inl ⟨rfl, hsome⟩)
    · refine .inr (.inr ⟨clean_append _ _, hgrown.imp_right fun hlt => ?_⟩)
      obtain ⟨rest, hrest⟩ := clean_grows hclean [e.id]
      rw [hrest, List.length_append]
      omega

theorem opens_moved (o : Opening) (h : o.opens x ≠ x) : ∃ n, o.opens x = some n ∧ Moved x n := by
  cases o with
  | join id =>
    simp only [opens] at h ⊢
    split at h
    · exact absurd rfl h
    · rename_i hclosed
      rw [if_neg hclosed]
      refine ⟨_, rfl, rfl, fun n₀ hx => .inl fun hready => h ?_⟩
      rw [hx, Option.getD_some, ← hready]
  | target e =>
    simp only [opens] at h ⊢
    split at h
    · exact absurd rfl h
    · rename_i hrun
      rw [if_neg hrun]
      refine ⟨_, rfl, rfl, fun n₀ hx => ?_⟩
      by_contra hnot
      simp only [not_or, not_and, not_not, Nat.not_lt] at hnot
      obtain ⟨hready, hretry, hids⟩ := hnot
      subst hx
      simp only [Option.getD_some] at h hretry hids
      obtain ⟨hclean, hlen⟩ := hids (clean_append _ _)
      obtain ⟨rest, hrest⟩ := clean_grows hclean [e.id]
      rw [hrest, List.length_append] at hlen
      obtain rfl : rest = [] := List.length_eq_zero_iff.1 (by omega)
      rw [hrest, List.append_nil, ← hretry trivial, ← hready] at h
      exact h rfl

end Opening

/-- What becomes of a node over a list of openings. -/
def opened (os : List Opening) (k : String) (x : Option NodeProjection) : Option NodeProjection :=
  os.foldl (fun x o => if o.node = k then o.opens x else x) x

theorem opened_cons (o : Opening) (os : List Opening) (k : String) (x : Option NodeProjection) :
    opened (o :: os) k x = opened os k (if o.node = k then o.opens x else x) := rfl

theorem opened_append : opened (os ++ more) k x = opened more k (opened os k x) := List.foldl_append

theorem opened_one (hk : o.node = k) : opened [o] k x = o.opens x := if_pos hk

theorem opened_other (hk : o.node ≠ k) : opened [o] k x = x := if_neg hk

theorem opened_moved (os : List Opening) (h : Opening.Moved x n) :
    ∃ n', opened os k (some n) = some n' ∧ Opening.Moved x n' := by
  induction os generalizing n with
  | nil => exact ⟨n, rfl, h⟩
  | cons o os ih =>
    rw [opened_cons]
    split
    · obtain ⟨n', hn', hmoved⟩ := h.opens o
      rw [hn']
      exact ih hmoved
    · exact ih h

/-- A node is what it was if and only if every opening of it finds it open. -/
theorem opened_same : opened os k x = x ↔ ∀ o ∈ os, o.node = k → o.opens x = x := by
  induction os with
  | nil => simp [opened]
  | cons o os ih =>
    rw [List.forall_mem_cons, opened_cons]
    by_cases hk : o.node = k
    · rw [if_pos hk]
      by_cases hopen : o.opens x = x
      · simpa [hopen] using ih
      · refine iff_of_false (fun hsame => ?_) fun h => hopen (h.1 hk)
        obtain ⟨n, hn, hmoved⟩ := o.opens_moved hopen
        obtain ⟨n', hn', hmoved'⟩ := opened_moved (k := k) os hmoved
        rw [hn] at hsame
        exact hmoved'.ne (hn'.symm.trans hsame)
    · simpa [hk] using ih

theorem takeWhile_congr {α : Type} {f g : α → Bool} {l : List α} (h : ∀ a ∈ l, f a = g a) :
    l.takeWhile f = l.takeWhile g := by
  induction l with
  | nil => rfl
  | cons a l ih =>
    rw [List.takeWhile_cons, List.takeWhile_cons, h a List.mem_cons_self,
      ih fun a ha => h a (List.mem_cons_of_mem _ ha)]

section Route

variable {H : Host} {plan : RequirementExecutionPlan} {p q m : PlanProjection} {b : NodeAttempt}

theorem openJoin_node (p : PlanProjection) (c k : String) :
    (openJoin c p).nodes[k]? = opened [.join c] k p.nodes[k]? := by
  unfold openJoin
  by_cases hk : c = k
  · subst hk
    rw [opened_one (o := .join c) (k := c) rfl]
    simp only [Opening.opens]
    split <;> simp
  · rw [opened_other (o := .join c) hk]
    simp only
    split
    · rfl
    · exact GoMap.get_set_ne hk

/-- The joins that the failure of an attempt short-circuits. -/
def joinsOf (H : Host) (g : WorkflowGraph) (b : NodeAttempt) : List Opening :=
  if b.status.unsuccessful then (g.nodes.filter (shortCircuits H g b)).map (.join ·.id) else []

theorem shortCircuitJoins_node (H : Host) (g : WorkflowGraph) (b : NodeAttempt) (p : PlanProjection)
    (k : String) : (shortCircuitJoins H g b p).nodes[k]? = opened
    (joinsOf H g b) k p.nodes[k]? := by
  unfold shortCircuitJoins joinsOf
  split
  · generalize g.nodes = l
    induction l generalizing p with
    | nil => rfl
    | cons c l ih =>
      rw [List.foldl_cons, ih]
      by_cases hc : shortCircuits H g b c = true
      · simp only [hc, if_true, openJoin_node, List.filter_cons_of_pos hc, List.map_cons]
        rfl
      · simp [hc]
  · rfl

theorem openTarget_node (p : PlanProjection) (e : WorkflowEdge) (k : String) :
    (openTarget e true p).nodes[k]? = opened [.target e] k p.nodes[k]? := by
  unfold openTarget
  by_cases hk : e.toID = k
  · subst hk
    rw [opened_one (o := .target e) (k := e.toID) rfl]
    simp only [Opening.opens]
    split <;> simp
  · rw [opened_other (o := .target e) hk]
    simp only
    split
    · rfl
    · exact GoMap.get_set_ne hk

instance (p : PlanProjection) (e : WorkflowEdge) : Decidable (Spare p e) :=
  inferInstanceAs (Decidable (_ ∨ _))

/-- The targets that a fan-out opens before it reaches an edge that is exhausted. -/
def fannedOf (plan : RequirementExecutionPlan) (p : PlanProjection) (b : NodeAttempt)
    (event : String) :
    List Opening :=
  match routeSelection plan b event with
  | .ok (.fanOut es) => (es.takeWhile fun e => Spare p e).map .target
  | _ => []

/-- A routing error leaves counted traversals, decisions, and the nodes that were opened. -/
structure Strayed (os : List Opening) (p m : PlanProjection) : Prop where
  rest : m = { p with traversals := m.traversals, decisions := m.decisions, nodes := m.nodes }
  decisions : p.decisions <+: m.decisions
  nodes : ∀ k : String, m.nodes[k]? = opened os k p.nodes[k]?

theorem strayed_counted (h : m = { p with traversals := t }) : Strayed [] p m := by
  subst h
  exact ⟨rfl, List.prefix_rfl, fun _ => rfl⟩

theorem followEdge_error (h : followEdge plan b key fan e p = (.error err, m)) :
    ¬ Spare p e ∧ m = countTraversal e p := by
  refine ⟨fun hspare => ?_, ?_⟩
  · have hok := followEdge_spare plan b key fan hspare
    rw [h] at hok
    cases hok
  · unfold followEdge at h
    simp only at h
    split at h
    · cases h
      rfl
    · cases h

theorem followEdge_ok (h : followEdge plan b key fan e p = (.ok u, m)) :
    Spare p e ∧ m = recordDecision plan b key e fan (openTarget e fan (countTraversal e p)) := by
  unfold followEdge at h
  simp only at h
  split at h
  · cases h
  · rename_i hover
    cases h
    refine ⟨?_, rfl⟩
    by_cases hpos : e.maxTraversals > 0
    · simp only [hpos, decide_true, Bool.true_and, decide_eq_true_eq,
        traversals_counted hpos] at hover
      exact .inr (by omega)
    · exact .inl (by omega)

theorem countTraversal_rest (e : WorkflowEdge) (p : PlanProjection) :
    countTraversal e p = { p with traversals := (countTraversal e p).traversals } := by
  unfold countTraversal
  split <;> rfl

theorem openTarget_rest (e : WorkflowEdge) (fan : Bool) (p : PlanProjection) :
    openTarget e fan p = { p with nodes := (openTarget e fan p).nodes } := by
  unfold openTarget
  simp only
  split <;> rfl

theorem recordDecision_rest (plan : RequirementExecutionPlan) (b : NodeAttempt) (key : String)
    (e : WorkflowEdge) (fan : Bool) (p : PlanProjection) : ∃ more,
    recordDecision plan b key e fan p = { p with decisions := p.decisions ++ more } := by
  unfold recordDecision
  split
  · exact ⟨[], by simp⟩
  · exact ⟨_, rfl⟩

/-- A fan-out edge that is followed opens its target. -/
theorem strayed_followed (h : followEdge plan b key true e p = (.ok u, m)) :
    Strayed [.target e] p m := by
  obtain ⟨-, rfl⟩ := followEdge_ok h
  obtain ⟨more, hmore⟩ := recordDecision_rest plan b key e true
    (openTarget e true (countTraversal e p))
  rw [hmore, openTarget_rest]
  refine ⟨?_, ?_, fun k => ?_⟩
  · rw [countTraversal_rest]
  · rw [countTraversal_rest]
    exact List.prefix_append _ _
  · simp only [openTarget_node]
    rw [countTraversal_rest]

theorem Strayed.trans (h : Strayed os p q) (h' : Strayed more q m) : Strayed (os ++ more) p m := by
  refine ⟨?_, h.decisions.trans h'.decisions, fun k => ?_⟩
  · rw [h'.rest, h.rest]
  · rw [h'.nodes, h.nodes, opened_append]

theorem followAll_error (hnodup : (es.map (·.id)).Nodup)
    (h : followAll plan b key es p = (.error err, m)) :
    Strayed ((es.takeWhile fun e => Spare p e).map .target) p m := by
  induction es generalizing p with
  | nil => cases h
  | cons e es ih =>
    obtain ⟨hnot, hnodup⟩ := List.nodup_cons.mp hnodup
    unfold followAll at h
    split at h
    · rename_i hfollow
      cases h
      obtain ⟨hover, rfl⟩ := followEdge_error hfollow
      rw [List.takeWhile_cons_of_neg (by simpa using hover)]
      exact strayed_counted (countTraversal_rest e p)
    · rename_i q hfollow
      obtain ⟨hspare, -⟩ := followEdge_ok hfollow
      rw [List.takeWhile_cons_of_pos (by simpa using hspare), List.map_cons]
      have hrest := ih hnodup h
      have hsame : es.takeWhile (fun d => decide (Spare q d)) = es.takeWhile fun d =>
        decide (Spare p d) := by
        refine takeWhile_congr fun d hd => decide_eq_decide.2 ?_
        have hne : e.id ≠ d.id := fun heq => hnot (List.mem_map.mpr ⟨d, hd, heq.symm⟩)
        have htrav := traversalsOf_other plan b key true p hne
        rw [hfollow] at htrav
        unfold Spare
        rw [htrav]
      rw [hsame] at hrest
      exact (strayed_followed hfollow).trans hrest

theorem selectEdges_fanOut (h : selectEdges es = .ok (.fanOut fs)) : fs = es := by
  unfold selectEdges at h
  split at h
  · cases h
  · cases h
  · simp only at h
    split at h
    · cases h
      rfl
    · split at h <;> cases h

theorem route_error (hnodup : (plan.graphSnapshot.edges.map (·.id)).Nodup)
    (h : route H plan b input now p = (.error err, m)) :
    Strayed (fannedOf plan p b input.event) p m := by
  unfold route at h
  unfold fannedOf
  split at h
  · cases h
  · split at h
    · rename_i hs
      cases h
      rw [hs]
      exact strayed_counted rfl
    · rename_i hs
      rw [hs]
      unfold routeWithoutEdge at h
      simp only at h
      repeat' split at h
      all_goals cases h
      exact strayed_counted rfl
    · rename_i e hs
      rw [hs]
      obtain ⟨-, rfl⟩ := followEdge_error h
      exact strayed_counted (countTraversal_rest e p)
    · rename_i es hs
      rw [hs]
      refine followAll_error ?_ h
      obtain ⟨matched, hm, hsel⟩ := bind_ok.mp hs
      rw [selectEdges_fanOut hsel, matchEdges_eq hm]
      exact hnodup.sublist (List.filter_sublist.map _)

end Route

section Failed

variable {H : Host} {plan : RequirementExecutionPlan} {p q m : PlanProjection} {a b : NodeAttempt}
  {f : Finishing} {k : String} {input : TransitionInput}

/-- The routing of the finished attempt fails without a trace: its result reports no usage, and
every other node that is opened on the way is open already. -/
structure Traceless (H : Host) (plan : RequirementExecutionPlan) (p : PlanProjection)
    (b : NodeAttempt)
    (input : TransitionInput) : Prop where
  usage : resultUsage input.result = {}
  nodes : ∀ o ∈ joinsOf H plan.graphSnapshot b ++ fannedOf plan p b input.event, o.node ≠ b.nodeID →
    ∃ n, p.nodes[o.node]? = some n ∧ o.Idle n

theorem restoreKey_insert {m : GoMap String} (key v : String) :
    restoreKey m (m.insert key v) key = m := by
  unfold restoreKey
  split
  · rename_i previous hp
    rw [GoMap.set_set, GoMap.set_get_self hp]
  · rename_i hn
    rw [GoMap.erase_set, GoMap.erase_of_none hn]

theorem i64_add_same (hn : i64 n = n) (hu : 0 ≤ u) (hu' : u ≤ maxInt64) :
    i64 (n + u) = n ↔ u = 0 := by
  unfold i64 maxInt64 at *
  omega

theorem usage_same (hrange : CountersInRange p) (r : StructuredResult) :
    (i64 (p.tokenUsage + (resultUsage r).tokens) = p.tokenUsage ∧
      i64 (p.toolCalls + (resultUsage r).tools) = p.toolCalls ∧
      i64 (p.costCents + (resultUsage r).cost) = p.costCents) ↔ resultUsage r = {} := by
  obtain ⟨htok, htool, hcost⟩ := hrange
  unfold resultUsage
  rw [i64_add_same htok (usageInt64_nonneg _ _) (usageInt64_le _ _),
    i64_add_same htool (usageInt64_nonneg _ _) (usageInt64_le _ _),
    i64_add_same hcost (usageInt64_nonneg _ _) (usageInt64_le _ _), Usage.mk.injEq]

/-- The nodes after the rollback: the attempt's own is restored. -/
theorem restored_nodes {nodes : GoMap NodeProjection} (hn : p.nodes[id']? = some n)
    (hos : ∀ j, j ≠ id' → nodes[j]? = opened os j p.nodes[j]?) :
    nodes.insert id' n = p.nodes ↔ ∀ o ∈ os, o.node ≠ id' → ∃ n, p.nodes[o.node]? = some n ∧
    o.Idle n := by
  constructor
  · intro hsame o ho hne
    have hget := congrArg (fun m : GoMap NodeProjection => m[o.node]?) hsame
    rw [GoMap.get_set_ne (Ne.symm hne), hos _ hne] at hget
    exact (Opening.opens_same _ _).1 (opened_same.1 hget o ho rfl)
  · intro h
    refine GoMap.ext_get fun j => ?_
    rw [GoMap.get_set]
    split
    · rename_i hj
      rw [← hj, hn]
    · rename_i hj
      rw [hos j (Ne.symm hj), opened_same]
      rintro o ho rfl
      exact (Opening.opens_same _ _).2 (h o ho (Ne.symm hj))

theorem rollback_iff (hf : FinishFacts plan p k input now f a) (hrange : CountersInRange p)
    (hb : b.nodeID = a.nodeID)
    (hm : Strayed os (commitFinish f k b p) m) :
    rollback f k b.nodeID p m = p ↔ resultUsage input.result = {} ∧
      ∀ o ∈ os, o.node ≠ b.nodeID → ∃ n, p.nodes[o.node]? = some n ∧ o.Idle n := by
  have hatt : (p.attempts.insert k b).insert k ((p.attempts[k]?).getD {}) = p.attempts := by
    rw [hf.stored, GoMap.set_set, Option.getD_some, GoMap.set_get_self hf.stored]
  have hdec : m.decisions.take p.decisions.length = p.decisions :=
    (List.prefix_iff_eq_take.1 hm.decisions).symm
  have hkey : (if (f.key != "") = true then restoreKey p.idempotency
      (if (f.key != "") = true then p.idempotency.insert f.key f.hash else p.idempotency) f.key
      else if (f.key != "") = true then p.idempotency.insert f.key f.hash else p.idempotency) =
        p.idempotency := by
    split
    · rw [restoreKey_insert]
    · rfl
  have hnode : p.nodes[b.nodeID]? = some f.node := hb ▸ hf.node
  have hrolled : rollback f k b.nodeID p m = { p with
      nodes := m.nodes.insert b.nodeID f.node
      tokenUsage := i64 (p.tokenUsage + f.usage.tokens)
      toolCalls := i64 (p.toolCalls + f.usage.tools)
      costCents := i64 (p.costCents + f.usage.cost) } := by
    rw [rollback, hdec, hnode, Option.getD_some, hm.rest]
    simp only [commitFinish, hatt, hkey]
  have hopened (j : String) (hj : j ≠ b.nodeID) : m.nodes[j]? = opened os j p.nodes[j]? := by
    rw [hm.nodes]
    simp only [commitFinish, GoMap.get_set_ne (Ne.symm hj)]
  have hnodes := restored_nodes hnode hopened
  rw [hrolled, hf.usage, ← usage_same hrange, ← hnodes]
  constructor
  · intro h
    exact ⟨⟨congrArg PlanProjection.tokenUsage h, congrArg PlanProjection.toolCalls h,
      congrArg PlanProjection.costCents h⟩, congrArg PlanProjection.nodes h⟩
  · rintro ⟨⟨htok, htool, hcost⟩, hnodes⟩
    rw [htok, htool, hcost, hnodes]

theorem fannedOf_traversals (h : q.traversals = p.traversals) :
    fannedOf plan q b = fannedOf plan p b := by
  have hspare : Spare q = Spare p := by
    funext e
    unfold Spare traversalsOf
    rw [h]
  unfold fannedOf
  simp only [hspare]

/-- When a finish that fails after its checks leaves the projection as it was. -/
theorem FinishResult.failed_iff (hres : FinishResult H plan p k input f (.error e) q)
    (hf : FinishFacts plan p k input now f a) (hrange : CountersInRange p)
    (hkeyed : Keyed p.repairPlans)
    (hnodup : (plan.graphSnapshot.edges.map (·.id)).Nodup) :
    q = p ↔ Untouched plan p f.attempt ∧ ∀ a', (repairStage plan p f.attempt).1 = .ok a' →
      Traceless H plan p (stampAttempt f.now a') input := by
  rw [← repairStage_untouched hkeyed]
  cases hres with
  | refused e q hq => simp [hq]
  | undone a' mid m e hr hm hs =>
    simp only [hr, Except.ok.injEq, forall_eq']
    have hb := stamped_nodeID (t := f.now) hr hf
    generalize stampAttempt f.now a' = b at *
    by_cases hmid : mid = p
    · subst hmid
      -- The joins are opened first, then the edges are followed.
      have hjoins : Strayed (joinsOf H plan.graphSnapshot b) (commitFinish f k b mid)
          (shortCircuitJoins H plan.graphSnapshot b (commitFinish f k b mid)) := by
        have hrest := (shortCircuitJoins_reopens H plan.graphSnapshot b
          (commitFinish f k b mid)).rest
        refine ⟨?_, ?_, fun j => shortCircuitJoins_node ..⟩
        · conv_lhs => rw [hrest]
          rw [hrest]
        · rw [hrest]
      unfold settle at hs
      simp only at hs
      split at hs
      · split at hs
        · rename_i e' m' hroute
          have hrolled := (Prod.mk.inj hs).2
          have hstray := route_error hnodup hroute
          rw [fannedOf_traversals (p := mid) (by
            rw [(shortCircuitJoins_reopens H plan.graphSnapshot b
              (commitFinish f k b mid)).rest]; rfl)]
            at hstray
          rw [← hrolled, rollback_iff hf hrange hb (hjoins.trans hstray)]
          exact ⟨fun h => ⟨rfl, h.1, h.2⟩, fun h => ⟨h.2.usage, h.2.nodes⟩⟩
        · cases hs
      · cases hs
    · -- The rollback does not put the contracts back, so what the repair stage wrote stays.
      refine iff_of_false (fun hsame => hmid ?_) fun h => hmid h.1
      have hplans : (rollback f k b.nodeID mid m).repairPlans = p.repairPlans := by rw [hsame]
      exact repairStage_same hr hkeyed hplans

end Failed

/-- After every run from a new projection: a finish that fails leaves the projection as it was
exactly when its checks refuse it, or the repair stage wrote nothing and the routing left no trace;
a takeover that fails does exactly when the attempt is not running or no owner is given. -/
theorem failed_calls_keep_projection (H : Host) (plan : RequirementExecutionPlan)
    (p₀ : PlanProjection) (hnew : newProjection plan = .ok p₀) (run : List Step) :
    let p := after H plan p₀ run
    (∀ (k : String) (input : TransitionInput) (clock : Time) (e : Err),
      (finishAttempt H plan p k input clock).1 = .error e →
      ((finishAttempt H plan p k input clock).2 = p ↔
        ∀ f, finishCheck H plan p k input (input.at clock) = .ok (.fresh f) →
          Untouched plan p f.attempt ∧ ∀ a, (repairStage plan p f.attempt).1 = .ok a →
            Traceless H plan p (stampAttempt f.now a) input)) ∧
    (∀ (k owner : String) (now clock : Time) (e : Err),
      (takeOver H plan p k owner now clock).1 = .error e →
      ((takeOver H plan p k owner now clock).2 = p ↔
        ¬ ∃ a, p.attempts[k]? = some a ∧ a.status = .running ∧ owner ≠ "")) := by
  have hgraph : validateGraph plan.graphSnapshot = .ok () := by
    simp only [newProjection, then_ok, pure_ok] at hnew
    exact hnew.2.2.1
  obtain ⟨rank, hfacts⟩ := validateGraph_ok hgraph
  have hinv : CountersInRange (after H plan p₀ run) ∧ Keyed (after H plan p₀ run).repairPlans := by
    refine invariant (I := fun p => CountersInRange p ∧ Keyed p.repairPlans) ?_
      (fun p s h _ => ⟨next_inRange h.1, next_keyed h.2⟩) meets_true
    simp only [newProjection, then_ok, pure_ok] at hnew
    rw [← hnew.2.2.2]
    exact ⟨⟨rfl, rfl, rfl⟩, nofun⟩
  refine ⟨fun k input clock e h => ?_, fun k owner now clock e h => takeOver_error_iff h⟩
  cases hcheck : finishCheck H plan (after H plan p₀ run) k input (input.at clock) with
  | error e' => simp [finishAttempt, hcheck]
  | ok admission =>
    cases admission with
    | replay a => simp [finishAttempt, hcheck] at h
    | fresh f =>
      obtain ⟨a, hf, hres⟩ := finishAttempt_fresh hcheck
      rw [h] at hres
      simpa using hres.failed_iff hf hinv.1 hinv.2 hfacts.edge_nodup

def evidencePlan : RequirementExecutionPlan :=
  samplePlan { id := "g", version := 1, entryNodeIDs := ["a"], exitNodeIDs := ["b"]
               nodes := [agentNode "a", agentNode "b"]
               edges := [
                 { id := "s", fromID := "a", toID := "b", on := .success
                   requiredEvidence := ["review"] },
                 { id := "t", fromID := "a", toID := "b", on := .timeout
                   requiredEvidence := ["review"] }] }

def usageResult : StructuredResult :=
  { fields := (∅ : GoMap Value).insert "tokens" (.int .int 5) }

/-- The attempt is under no contract, and no join and no fan-out waits for its success. -/
def FinishAdmission.idle (p : PlanProjection) : FinishAdmission → Bool
  | .replay _ => true
  | .fresh f => (evidencePlan.graphSnapshot.node f.attempt.nodeID).kind != .repair &&
      f.attempt.repairState == .unset &&
      (repairStage evidencePlan p f.attempt).1.toOption.all fun a =>
        (joinsOf sampleHost evidencePlan.graphSnapshot (stampAttempt f.now a) ++
          fannedOf evidencePlan p (stampAttempt f.now a) "success").isEmpty

theorem failed_calls_keep_projection_evidence :
    let p := after sampleHost evidencePlan (sampleRun evidencePlan []) [startCall "a" "a1"]
    (finishAttempt sampleHost evidencePlan p "a1"
      { event := "success", result := { evidenceIDs := ["e"] } } 2).2 = p := by
  intro p
  refine ((failed_calls_keep_projection sampleHost evidencePlan _
    (sampleRun_new (by decide +kernel))
    [startCall "a" "a1"]).1 "a1" _ 2 (errorNew "edge s requires evidence review") rfl).2
      fun f hcheck => ?_
  have hidle : (finishCheck sampleHost evidencePlan p "a1"
      { event := "success", result := { evidenceIDs := ["e"] } } 2).toOption.all
        (FinishAdmission.idle p) = true := by decide +kernel
  rw [show finishCheck sampleHost evidencePlan p "a1" _ 2 = _ from hcheck] at hidle
  simp only [Except.toOption, Option.all_some, FinishAdmission.idle, Bool.and_eq_true, bne_iff_ne,
    beq_iff_eq] at hidle
  obtain ⟨⟨hkind, hstate⟩, hnone⟩ := hidle
  refine ⟨.idle (fun h => absurd h hkind) fun hd => by simp [NodeAttempt.driving, hstate] at hd,
    fun a ha => ⟨by decide +kernel, fun o ho => ?_⟩⟩
  rw [show (repairStage evidencePlan p f.attempt).1 = .ok a from ha] at hnone
  rw [show joinsOf _ _ _ ++ fannedOf _ _ _ _ = [] from List.isEmpty_iff.mp hnone] at ho
  cases ho

/-- A routing error keeps the tokens of the refused result, and a takeover that
fails keeps the new lease. -/
theorem failed_calls_leave_traces :
    let p := sampleRun evidencePlan [startCall "a" "a1"]
    let q := finishAttempt sampleHost evidencePlan p "a1"
      { event := "success", result := { usageResult with evidenceIDs := ["e"] } } 2
    let r := takeOver sampleHost evidencePlan p "a1" "someone" 3 3
    (q.1.toBool = false ∧ p.tokenUsage = 0 ∧ q.2.tokenUsage = 5) ∧
      (r.1.toBool = false ∧ p.attempts["a1"]?.map (·.lease.fencingToken) = some 0 ∧
        r.2.attempts["a1"]?.map (·.lease.fencingToken) = some 1) := by
  decide +kernel

end Adro.Orchestration
