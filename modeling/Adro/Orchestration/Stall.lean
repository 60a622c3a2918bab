import Adro.Orchestration.Discipline
import Adro.Orchestration.Readiness

/-!
# Plans that can go on

A plan is live while it is not terminal and an attempt is in flight or a node
can be started. A start keeps it live, and so does a finish that fails, since its
attempt stays in flight. A finish that leaves nothing else in flight must hand
over: end the plan, follow an edge to a node whose join is then complete, or
schedule a retry of a node that is still enabled. A success that no edge matches,
an exit that passes before its contracts are verified, and a join that waits for
a branch that was not taken do not.
-/

namespace Adro.Orchestration

open Adro.Go Adro.Runs

/-- Attempts have ids, a node's current attempt is its own, and a running node's attempt runs. -/
structure Backed (attempts : GoMap NodeAttempt) (nodes : GoMap NodeProjection) : Prop where
  named : attempts[""]? = none
  own : ∀ (j : String) (n : NodeProjection), nodes[j]? = some n → n.currentAttempt ≠ "" →
    ∃ a, attempts[n.currentAttempt]? = some a ∧ a.nodeID = j
  runs : ∀ (j : String) (n : NodeProjection), nodes[j]? = some n → n.status = .running →
    ∃ a, attempts[n.currentAttempt]? = some a ∧ a.status = .running

variable {attempts : GoMap NodeAttempt} {nodes : GoMap NodeProjection} {k : String}
  {a b : NodeAttempt} {p mid m : PlanProjection}

section
variable (h : Backed attempts nodes)
include h

theorem Backed.ne_empty (ha : attempts[k]? = some a) : k ≠ "" := by
  rintro rfl
  rw [h.named] at ha
  cases ha

theorem Backed.reopened (hr : Reopened S nodes nodes') : Backed attempts nodes' := by
  refine ⟨h.named, fun j n hn hc => ?_, fun j n hn hs => ?_⟩
  · rcases hr j with hj | ⟨-, n', hj, hre⟩
    · exact h.own j n (hj ▸ hn) hc
    · rw [hj] at hn
      cases hn
      cases hold : nodes[j]? with
      | none => rw [hold] at hre; exact absurd hre.current hc
      | some n₀ =>
        rw [hold] at hre
        rw [hre.current] at hc ⊢
        exact h.own j n₀ hold hc
  · rcases hr j with hj | ⟨-, n', hj, hre⟩
    · exact h.runs j n (hj ▸ hn) hs
    · rw [hj] at hn
      cases hn
      rcases hre.status with h' | h' <;> rw [h'] at hs <;> cases hs

theorem Backed.write (hk : k ≠ "") (hb : b.nodeID = node)
    (hcur : n.currentAttempt = k) (hs : n.status = .running → b.status = .running)
    (hown : ∀ a, attempts[k]? = some a → a.nodeID = node) :
    Backed (attempts.insert k b) (nodes.insert node n) := by
  -- The current attempt of any other node is not the one that is written.
  have hother : ∀ j m, node ≠ j → nodes[j]? = some m → k ≠ m.currentAttempt := by
    rintro j m hj hm rfl
    obtain ⟨a, ha, haj⟩ := h.own j m hm hk
    exact hj ((hown a ha).symm.trans haj)
  refine ⟨by rw [GoMap.get_set_ne hk]; exact h.named, GoMap.forall_overwrite ?_ ?_,
    GoMap.forall_overwrite ?_ ?_⟩
  · intro j m hm hj hc
    rw [GoMap.get_set_ne (hother j m hj.symm hm)]
    exact h.own j m hm hc
  · exact fun _ => ⟨b, by simp [hcur], hb⟩
  · intro j m hm hj hr
    rw [GoMap.get_set_ne (hother j m hj.symm hm)]
    exact h.runs j m hm hr
  · exact fun hr => ⟨b, by simp [hcur], hs hr⟩

end

section
variable (h : Backed p.attempts p.nodes)
include h

theorem Backed.started (hf : StartFacts H plan p args now n no) :
    Backed (started plan p args n no now).attempts (started plan p args n no now).nodes := by
  refine h.write (ne_empty_of_not_blank hf.attemptID) rfl rfl (fun _ => rfl) (fun a ha => ?_)
  rw [hf.fresh] at ha
  cases ha

theorem Backed.settled (hf : FinishFacts plan p k input now f a)
    (hq : repairStage plan p f.attempt = (.ok a', mid))
    (hm : Routed S (commitFinish f k (stampAttempt f.now a') mid) m) :
    Backed m.attempts m.nodes := by
  have hmid := repairStage_result hq
  rw [hm.attempts]
  refine Backed.reopened ?_ hm.nodes
  show Backed (mid.attempts.insert k _) (mid.nodes.insert _ _)
  rw [hmid.attempts]
  refine (h.reopened hmid.nodes).write (h.ne_empty hf.stored) rfl hf.current (fun hs => hs)
    fun c hc => ?_
  rw [hf.stored] at hc
  cases hc
  exact (stamped_nodeID hq hf).symm

theorem Backed.finished
    (hf : FinishFacts plan p k input now f a) (hres : FinishResult H plan p k input f res q) :
    Backed q.attempts q.nodes := by
  cases hres with
  | refused e q hq =>
    rw [(repairStage_result hq).attempts]
    exact h.reopened (repairStage_result hq).nodes
  | kept a' mid m hq hm =>
    rw [noteReason_eq]
    show Backed m.attempts m.nodes
    exact h.settled hf hq hm
  | undone a' mid m e hq hm =>
    -- The rollback writes the stored attempt with its node as the repair stage left it.
    have hmid := repairStage_result hq
    have hback := h.reopened hmid.nodes
    have hcur := hmid.nodes.current hf.node
    rw [hf.current] at hcur
    have hnode := stamped_nodeID (t := f.now) hq hf
    show Backed (m.attempts.insert k _) (m.nodes.insert _ _)
    rw [hmid.attempts, hf.stored, hnode]
    refine (h.settled hf hq hm).write (h.ne_empty hf.stored) rfl hcur (fun hs => ?_) fun c hc => ?_
    · cases hn : mid.nodes[a.nodeID]? with
      | none => rw [hn] at hs; cases hs
      | some n =>
        rw [hn, Option.getD_some] at hs hcur
        obtain ⟨c, hc, hrun⟩ := hback.runs _ n hn hs
        rw [hcur, hf.stored] at hc
        cases hc
        exact hrun
    · rw [hm.attempts] at hc
      have hc : some (stampAttempt f.now a') = some c := by simpa [commitFinish] using hc
      cases hc
      exact hnode

end

theorem FinishResult.current (h : FinishResult H plan p k input f (.ok b) q)
    (hf : FinishFacts plan p k input now f a) (j : String) :
    ((q.nodes[j]?).getD default).currentAttempt = ((p.nodes[j]?).getD default).currentAttempt := by
  have hkeeps {S : String → Prop} {nodes nodes' : GoMap NodeProjection}
      (hr : Reopened S nodes nodes') : ((nodes'[j]?).getD default).currentAttempt =
        ((nodes[j]?).getD default).currentAttempt := by
    rcases hr j with hj | ⟨-, n', hj, hre⟩
    · rw [hj]
    · rw [hj]; exact hre.current
  cases h with
  | kept a' mid m hq hm =>
    rw [noteReason_eq]
    have hmid := hkeeps (repairStage_result hq).nodes
    refine (hkeeps hm.nodes).trans (Eq.trans ?_ hmid)
    show (((mid.nodes.insert _ _)[j]?).getD default).currentAttempt = _
    rw [GoMap.get_set, stamped_nodeID hq hf]
    split
    · rename_i hj
      rw [hmid, ← hj, hf.node]
      rfl
    · rfl

theorem FinishResult.satisfied (h : FinishResult H plan p k input f (.ok b) q)
    (hf : FinishFacts plan p k input now f a) (hback : Backed p.attempts p.nodes)
    (he : e.fromID ≠ a.nodeID) : satisfiedBy H q e = satisfiedBy H p e := by
  unfold satisfiedBy
  simp only [h.current hf e.fromID, (h.writes hf).attempts]
  split
  · rfl
  · rename_i hc
    have hne : ((p.nodes[e.fromID]?).getD default).currentAttempt ≠ "" := by simpa using hc
    rw [GoMap.get_set_ne]
    rintro rfl
    cases hn : p.nodes[e.fromID]? with
    | none => rw [hn] at hne; exact hne rfl
    | some n =>
      rw [hn] at hne
      obtain ⟨c, hc, hown⟩ := hback.own _ n hn hne
      have hstored := hf.stored
      rw [hn, Option.getD_some, hc] at hstored
      cases hstored
      exact he hown.symm

def Opened (p : PlanProjection) (j : String) : Prop :=
  ((p.nodes[j]?).getD default).status = .ready ∨ ((p.nodes[j]?).getD default).status = .running

theorem openTarget_opened :
    Opened (openTarget e fan p) e.toID ∧ ∀ j, Opened p j → Opened (openTarget e fan p) j := by
  unfold openTarget
  simp only
  split
  · rename_i hr
    exact ⟨.inr (by simpa using hr), fun j hj => hj⟩
  · refine ⟨.inl (by simp), fun j hj => ?_⟩
    unfold Opened
    simp only [GoMap.get_set]
    split
    · exact .inl rfl
    · exact hj

theorem followEdge_opened (h : followEdge plan a key fan e p = (.ok (), q)) :
    Opened q e.toID ∧ ∀ j, Opened p j → Opened q j := by
  unfold followEdge at h
  simp only at h
  split at h
  · cases h
  · cases h
    have hnodes : (recordDecision plan a key e fan (openTarget e fan (countTraversal e p))).nodes =
        (openTarget e fan (countTraversal e p)).nodes := by
      unfold recordDecision
      split <;> rfl
    have hcount : (countTraversal e p).nodes = p.nodes := by
      unfold countTraversal
      split <;> rfl
    obtain ⟨htarget, hkeeps⟩ := openTarget_opened
    unfold Opened at hkeeps ⊢
    rw [hnodes]
    rw [hcount] at hkeeps
    exact ⟨htarget, hkeeps⟩

theorem followAll_opened (h : followAll plan a key es p = (.ok (), q)) :
    (∀ e ∈ es, Opened q e.toID) ∧ ∀ j, Opened p j → Opened q j := by
  induction es generalizing p with
  | nil => cases h; exact ⟨by simp, fun j hj => hj⟩
  | cons e es ih =>
    unfold followAll at h
    split at h
    · cases h
    · rename_i u m hm
      obtain ⟨hfirst, hkeeps⟩ := followEdge_opened hm
      obtain ⟨hrest, hkeeps'⟩ := ih h
      refine ⟨List.forall_mem_cons.2 ⟨hkeeps' _ hfirst, hrest⟩, fun j hj => hkeeps' j (hkeeps j hj)⟩

/-- Where a routed attempt leaves the plan: `m` after routing from `p`. -/
inductive Onward (H : Host) (plan : RequirementExecutionPlan) (a : NodeAttempt) (event : String)
    (p m : PlanProjection) : Prop
  | ended (h : m.status = .terminal)
  | followed (edges : followedEdges plan a event ≠ [])
    (opened : ∀ e ∈ followedEdges plan a event, Opened m e.toID)
  | retried (none : matchedEdges plan a event = [])
    (may : mayRetry H (plan.graphSnapshot.node a.nodeID) a event = true)
    (opened : Opened m a.nodeID)
  | unverified (none : matchedEdges plan a event = [])
    (exit : a.nodeID ∈ plan.graphSnapshot.exitNodeIDs) (passed : a.status = .passed)
    (unverified : allRepairsVerified p = false) (pending : repairVerificationPending p = true)
  | unmatched (none : matchedEdges plan a event = [])
    (exit : a.nodeID ∉ plan.graphSnapshot.exitNodeIDs) (passed : a.status.unsuccessful = false)

theorem routeWithoutEdge_onward (hnone : matchedEdges plan a event = [])
    (h : routeWithoutEdge H plan a event now p = (.ok (), m)) : Onward H plan a event p m := by
  unfold routeWithoutEdge at h
  simp only at h
  split at h
  · rename_i hmay
    cases h
    refine .retried hnone hmay (.inl ?_)
    simp [scheduleRetry]
  · split at h
    · rename_i hexit
      have hexit : a.nodeID ∈ plan.graphSnapshot.exitNodeIDs := by simpa using hexit
      split at h
      · cases h
      · split at h
        · rename_i hver
          split at h
          · rename_i hp
            simp only [Bool.and_eq_true, beq_iff_eq] at hp
            exact .unverified hnone hexit hp.1 (by simpa using hver) hp.2
          · cases h; exact .ended rfl
        · cases h; exact .ended rfl
    · rename_i hexit
      split at h
      · cases h; exact .ended rfl
      · rename_i hs
        exact .unmatched hnone (by simpa using hexit) (by simpa using hs)

theorem selectEdges_empty (h : selectEdges es = .ok sel) (he : sel.edges = []) :
    es = [] ∧ sel = .none := by
  unfold selectEdges at h
  split at h
  · cases h; exact ⟨rfl, rfl⟩
  · cases h; cases he
  · simp only at h
    split at h
    · cases h; cases he
    · split at h
      · cases h
      · cases h; cases he

theorem route_onward (hroutes : routes a.status input.event = true)
    (h : route H plan a input now p = (.ok (), m)) : Onward H plan a input.event p m := by
  unfold route at h
  split at h
  · cases h; exact .ended rfl
  · rename_i hdeadline
    cases hsel : routeSelection plan a input.event with
    | error e => rw [hsel] at h; cases h
    | ok sel =>
      rw [hsel] at h
      obtain ⟨es, hes, hs⟩ := bind_ok.mp hsel
      have hmatched : matchedEdges plan a input.event = es := by
        simp [matchedEdges, hroutes, hdeadline, hes, Except.toOption]
      have hfollowed : followedEdges plan a input.event = sel.edges := by
        simp only [followedEdges, hmatched, hs]
      cases sel with
      | none =>
        exact routeWithoutEdge_onward (hmatched.trans (selectEdges_empty hs rfl).1) h
      | single e =>
        refine .followed (by rw [hfollowed]; simp [Selection.edges]) fun e' he' => ?_
        rw [hfollowed] at he'
        rw [List.mem_singleton.1 he']
        exact (followEdge_opened h).1
      | fanOut es =>
        refine .followed (fun hnil => ?_) fun e' he' => ?_
        · rw [hfollowed] at hnil
          cases (selectEdges_empty hs hnil).2
        · rw [hfollowed] at he'
          exact (followAll_opened h).1 e' he'

theorem shortCircuitJoins_plans (H : Host) (g : WorkflowGraph) (f : Finishing) (k : String)
    (a : NodeAttempt) (p : PlanProjection) :
    (shortCircuitJoins H g a (commitFinish f k a p)).repairPlans = p.repairPlans := by
  rw [(shortCircuitJoins_reopens H g a (commitFinish f k a p)).rest]
  rfl

section

variable (H : Host) (plan : RequirementExecutionPlan)

/-- The attempt and the contracts that a finish hands to `route`. -/
def handedToRoute (p : PlanProjection) (k : String)
    (input : TransitionInput) (clock : Time) : Option (NodeAttempt × PlanProjection) :=
  match finishCheck H plan p k input (input.at clock) with
  | .ok (.fresh f) =>
    match repairStage plan p f.attempt with
    | (.ok a, mid) => some (stampAttempt f.now a, mid)
    | (.error _, _) => none
  | _ => none

/-- The incoming edges of node `j` that start elsewhere than at `v` and count. -/
def countElsewhere (p : PlanProjection) (v j : String) : Nat :=
  (incomingEdges plan j).countP fun e => e.fromID != v && (satisfiedBy H p e).isSome

/-- How many incoming edges the join of node `j` asks for. -/
def joinNeedOf (j : String) : Int :=
  joinNeed (plan.graphSnapshot.node j) (incomingEdges plan j).length

/-- The attempt `b`, routed with the contracts of `mid`, leaves the plan something to go on with. -/
@[mk_iff]
structure HandsOver (p : PlanProjection)
    (input : TransitionInput) (b : NodeAttempt) (mid : PlanProjection) : Prop where
  /-- A success that matches no edge is that of an exit, with no contract open. -/
  passes : matchedEdges plan b input.event = [] → b.status = .passed →
    b.nodeID ∈ plan.graphSnapshot.exitNodeIDs ∧
      (allRepairsVerified mid = true ∨ repairVerificationPending mid = false)
  /-- A node that is retried has its join complete. -/
  retries : matchedEdges plan b input.event = [] →
    mayRetry H (plan.graphSnapshot.node b.nodeID) b input.event = true →
    incomingEdges plan b.nodeID = [] ∨
      joinNeedOf plan b.nodeID ≤ countElsewhere H plan p b.nodeID b.nodeID
  /-- One of the followed edges completes the join it leads to. -/
  follows : followedEdges plan b input.event ≠ [] → ∃ e ∈ followedEdges plan b input.event,
    ToldAlike H input e.on ∧ joinNeedOf plan e.toID ≤ 1 + countElsewhere H plan p b.nodeID e.toID

/-- A finish that leaves no other attempt in flight hands over, unless it ends the plan. -/
def FinishHandsOver (p : PlanProjection) (k : String)
    (input : TransitionInput) (clock : Time) : Prop :=
  ∀ b mid, handedToRoute H plan p k input clock = some (b, mid) → input.closesPlan = false →
    (∀ k' a', k' ≠ k → p.attempts[k']? = some a' → ¬ a'.live) → HandsOver H plan p input b mid

end

/-- The plan has ended, or an attempt is in flight, or a node can be started. -/
def GoesOn (H : Host) (plan : RequirementExecutionPlan) (p : PlanProjection) : Prop :=
  p.status = .terminal ∨ (∃ (k : String) (a : NodeAttempt), p.attempts[k]? = some a ∧ a.live) ∨
    ∃ n ∈ plan.graphSnapshot.nodes, enabled H plan p n = true

theorem enabled_of_join (hready : ((p.nodes[n.id]?).getD default).status = .ready)
    (hjoin : incomingEdges plan n.id = [] ∨ joinNeed n (incomingEdges plan n.id).length ≤
      (((incomingEdges plan n.id).countP fun e => (satisfiedBy H p e).isSome : Nat) : Int)) :
    enabled H plan p n = true := by
  unfold enabled edgesNeeded
  rw [hready]
  rcases hjoin with hnil | hneed
  · simp [hnil]
  · simp only [beq_self_eq_true, Bool.true_and, Bool.or_eq_true, decide_eq_true_eq]
    right
    split
    · omega
    · exact hneed

theorem Opened.goesOn (h : Opened q j) (hback : Backed q.attempts q.nodes)
    (hj : plan.graphSnapshot.known j = true)
    (hjoin : incomingEdges plan j = [] ∨ joinNeedOf plan j ≤
      (((incomingEdges plan j).countP fun e => (satisfiedBy H q e).isSome : Nat) : Int)) :
    GoesOn H plan q := by
  rcases h with hready | hrun
  · obtain ⟨hmem, hid⟩ := WorkflowGraph.node_mem hj
    refine .inr (.inr ⟨_, hmem, enabled_of_join (by rw [hid]; exact hready) ?_⟩)
    rw [hid]
    exact hjoin
  · cases hn : q.nodes[j]? with
    | none => rw [hn] at hrun; cases hrun
    | some n =>
      rw [hn] at hrun
      obtain ⟨a, ha, hs⟩ := hback.runs j n hn hrun
      exact .inr (.inl ⟨_, a, ha, .inl hs⟩)

theorem FinishResult.elsewhere (h : FinishResult H plan p k input f (.ok b) q)
    (hf : FinishFacts plan p k input now f a) (hback : Backed p.attempts p.nodes) (j : String) :
    (incomingEdges plan j).countP (fun e => e.fromID != b.nodeID && (satisfiedBy H q e).isSome) =
      countElsewhere H plan p b.nodeID j := by
  refine List.countP_congr fun e _ => ?_
  have hnode := (h.writes hf).nodeID
  by_cases he : e.fromID = b.nodeID
  · simp [he]
  · rw [h.satisfied hf hback (hnode ▸ he)]

/-- Counting all edges counts those from elsewhere, and one more that starts at the node. -/
theorem countP_elsewhere {l : List WorkflowEdge} :
    l.countP (fun e => e.fromID != v && P e) ≤ l.countP P ∧
      ∀ e ∈ l, e.fromID = v → P e = true →
        1 + l.countP (fun e => e.fromID != v && P e) ≤ l.countP P := by
  have hsplit := List.countP_eq_countP_filter_add l P fun e => e.fromID != v
  rw [List.countP_filter] at hsplit
  simp only [Bool.and_comm (P _)] at hsplit
  refine ⟨by omega, fun e he hv hp => ?_⟩
  have hpos : 0 < (l.filter fun e => !(e.fromID != v)).countP P :=
    List.countP_pos_iff.2 ⟨e, List.mem_filter.2 ⟨he, by simp [hv]⟩, hp⟩
  omega

theorem settle_onward (h : settle H plan f k input b mid = (.ok c, q))
    (hroutes : routes b.status input.event = true) :
    ∃ m, q = noteReason b m ∧ Onward H plan b input.event
      (shortCircuitJoins H plan.graphSnapshot b (commitFinish f k b mid)) m := by
  unfold settle at h
  simp only [hroutes, if_true] at h
  split at h
  · cases h
  · rename_i u m hm
    cases h
    exact ⟨m, rfl, route_onward hroutes hm⟩

theorem FinishResult.follows (h : FinishResult H plan p k input f (.ok b) q)
    (hf : FinishFacts plan p k input now f a) (hback : Backed p.attempts p.nodes)
    (hg : GraphFacts plan.graphSnapshot rank) (he : e ∈ plan.graphSnapshot.edges)
    (hfrom : e.fromID = b.nodeID) (hsat : edgeSatisfied H e b = true)
    (hneed : joinNeedOf plan e.toID ≤ 1 + countElsewhere H plan p b.nodeID e.toID)
    (hopened : Opened q e.toID) : GoesOn H plan q := by
  refine hopened.goesOn (hback.finished hf h) (hg.edge_to e he) (.inr ?_)
  have hcounts : (satisfiedBy H q e).isSome = true := by
    rw [(h.stands hf).satisfiedBy (hback.ne_empty hf.stored) hfrom]
    exact hsat
  have hin : e ∈ incomingEdges plan e.toID := by simp [incomingEdges, he]
  have hcount := (countP_elsewhere (P := fun e => (satisfiedBy H q e).isSome)).2 e hin hfrom hcounts
  rw [h.elsewhere hf hback] at hcount
  omega

theorem mayRetry_known {plan : RequirementExecutionPlan}
    (h : mayRetry H (plan.graphSnapshot.node j) a event = true) :
    plan.graphSnapshot.known j = true := by
  cases hf : plan.graphSnapshot.nodes.find? fun n => n.id == j with
  | none =>
    have hnode : plan.graphSnapshot.node j = default := by rw [WorkflowGraph.node, hf]; rfl
    rw [hnode] at h
    simp only [mayRetry, Bool.and_eq_true] at h
    exact absurd h.2 (by decide)
  | some n =>
    exact WorkflowGraph.known_iff.2 ⟨n, List.mem_of_find?_eq_some hf,
      by simpa using List.find?_some hf⟩

theorem HandsOver.goesOn (hover : HandsOver H plan p input b mid)
    (hf : FinishFacts plan p k input now f a) (hback : Backed p.attempts p.nodes)
    (hg : GraphFacts plan.graphSnapshot rank) (hq : repairStage plan p f.attempt = (.ok a', mid))
    (hb : stampAttempt f.now a' = b) (hs : settle H plan f k input b mid = (.ok b, q))
    (hclosed : ¬ b.live) : GoesOn H plan q := by
  subst hb
  obtain ⟨m₀, hm₀, ⟨-, hq'⟩ | ⟨e, he, -⟩⟩ := settle_cases hs
  case inr => cases he
  have hres : FinishResult H plan p k input f (.ok (stampAttempt f.now a')) q := by
    subst hq'
    exact .kept a' mid m₀ hq hm₀ hs
  have hsettled := eventStatus_cases hf.event
  rw [← stamped_status (t := f.now) hq] at hsettled
  have hroutes : routes (stampAttempt f.now a').status input.event = true := by
    rcases hsettled with h | h | h
    · simp [routes, h]
    · exact absurd (.inr h) hclosed
    · simp [routes, h]
  obtain ⟨m, hm, honward⟩ := settle_onward hs hroutes
  have hnodes : q.nodes = m.nodes := by rw [hm, noteReason_eq]
  have hopens : ∀ j, Opened m j → Opened q j := fun j h => by unfold Opened; rw [hnodes]; exact h
  have hplans := shortCircuitJoins_plans H plan.graphSnapshot f k (stampAttempt f.now a') mid
  cases honward with
  | ended h => exact .inl (by rw [hm, noteReason_eq]; exact h)
  | followed hedges hopened =>
    obtain ⟨e, he, htold, hneed⟩ := hover.follows hedges
    have hmatched := followedEdges_matched he
    obtain ⟨-, hmem, hfrom, -⟩ := (mem_matchedEdges hs).1 hmatched
    have hsat := ((edgeSatisfied_matched hres hf hmem hfrom).2 (.inl htold)).2 hmatched
    exact hres.follows hf hback hg hmem hfrom hsat hneed (hopens _ (hopened e he))
  | retried hnone hmay hopened =>
    refine (hopens _ hopened).goesOn (hback.finished hf hres) (mayRetry_known hmay) ?_
    refine (hover.retries hnone hmay).imp_right fun hneed => ?_
    have hcount := (countP_elsewhere (l := incomingEdges plan (stampAttempt f.now a').nodeID)
      (v := (stampAttempt f.now a').nodeID) (P := fun e => (satisfiedBy H q e).isSome)).1
    rw [hres.elsewhere hf hback] at hcount
    omega
  | unverified hnone hexit hpassed hunverified hpending =>
    rcases (hover.passes hnone hpassed).2 with h | h
    · rw [allRepairsVerified, hplans] at hunverified
      exact absurd (h.symm.trans hunverified) (by decide)
    · rw [repairVerificationPending, hplans] at hpending
      exact absurd (h.symm.trans hpending) (by decide)
  | unmatched hnone hexit hpassed =>
    have hp : (stampAttempt f.now a').status = .passed := by
      rcases hsettled with h | h | h
      · exact h
      · exact absurd (.inr h) hclosed
      · rw [hpassed] at h; cases h
    exact absurd (hover.passes hnone hp).1 hexit

def GoesOnStep (H : Host) (plan : RequirementExecutionPlan) (p : PlanProjection) (s : Step) :
    Prop :=
  match s.op with
  | .start _ => True
  | .finish k input => FinishHandsOver H plan p k input s.clock
  | .retry _ | .takeOver .. => False

theorem GoesOn.flight (h : ∃ (k : String) (a : NodeAttempt), q.attempts[k]? = some a ∧ a.live) :
    GoesOn H plan q := .inr (.inl h)

theorem settle_closes (h : settle H plan f k input b mid = (.ok c, q))
    (hdeadline : deadlineTimeout b = true) : q.status = .terminal := by
  have hstatus : b.status = .timedOut := by
    simp only [deadlineTimeout, Bool.and_eq_true, beq_iff_eq] at hdeadline
    exact hdeadline.1
  have hroutes : routes b.status input.event = true := by rw [hstatus]; rfl
  unfold settle at h
  simp only [hroutes, route, hdeadline] at h
  cases h
  rw [noteReason_eq]
  rfl

/-- A kept finish leaves its attempt waiting, another one in flight, or it hands over or ends the
plan. -/
theorem kept_goesOn (hf : FinishFacts plan p k input now f a) (hback : Backed p.attempts p.nodes)
    (hg : GraphFacts plan.graphSnapshot rank) (hq : repairStage plan p f.attempt = (.ok a', mid))
    (hb : stampAttempt f.now a' = b) (hs : settle H plan f k input b mid = (.ok b, q))
    (hover : input.closesPlan = false →
      (∀ k' a', k' ≠ k → p.attempts[k']? = some a' → ¬ a'.live) → HandsOver H plan p input b mid) :
    GoesOn H plan q := by
  subst hb
  obtain ⟨m, hm, ⟨-, rfl⟩ | ⟨e, he, -⟩⟩ := settle_cases hs
  case inr => cases he
  have hattempts := ((FinishResult.kept a' mid m hq hm hs).writes hf).attempts
  by_cases hclosed : (stampAttempt f.now a').live
  · exact .flight ⟨k, _, by rw [hattempts]; simp, hclosed⟩
  by_cases hother : ∀ k' a', k' ≠ k → p.attempts[k']? = some a' → ¬ a'.live
  · cases hplan : input.closesPlan with
    | false => exact (hover hplan hother).goesOn hf hback hg hq rfl hs hclosed
    | true =>
      have hevent := hf.event
      rw [← stamped_status (t := f.now) hq] at hevent
      have hdeadline := deadlineTimeout_eq hevent (stamped_input hq hf).2.2
      exact .inl (settle_closes hs (hdeadline.trans hplan))
  · simp only [not_forall, not_not] at hother
    obtain ⟨k', c, hne, hstored, hlive⟩ := hother
    refine .flight ⟨k', c, ?_, hlive⟩
    rw [hattempts, GoMap.get_set_ne (Ne.symm hne)]
    exact hstored

theorem finish_goesOn (hover : FinishHandsOver H plan p k input clock)
    (hback : Backed p.attempts p.nodes) (hg : GraphFacts plan.graphSnapshot rank)
    (hp : GoesOn H plan p) : GoesOn H plan (finishAttempt H plan p k input clock).2 := by
  unfold finishAttempt
  cases hc : finishCheck H plan p k input (input.at clock) with
  | error e => exact hp
  | ok admission =>
    cases admission with
    | replay a => exact hp
    | fresh f =>
      obtain ⟨a, hf⟩ := finishCheck_fresh hc
      -- A finish that fails leaves its attempt in flight.
      have hfails {q : PlanProjection} (hq : q.attempts = p.attempts) : GoesOn H plan q :=
        .flight ⟨k, a, by rw [hq]; exact hf.stored, hf.live⟩
      simp only
      cases hq : repairStage plan p f.attempt with
      | mk res mid =>
        cases res with
        | error e => exact hfails (repairStage_result hq).attempts
        | ok a' =>
          simp only
          cases hs : settle H plan f k input (stampAttempt f.now a') mid with
          | mk res q =>
            obtain ⟨m, hm, ⟨rfl, hnote⟩ | ⟨e, rfl, rfl⟩⟩ := settle_cases hs
            · have hhanded : handedToRoute H plan p k input clock =
                  some (stampAttempt f.now a', mid) := by
                simp only [handedToRoute, hc, hq]
              exact kept_goesOn hf hback hg hq rfl hs (hover _ _ hhanded)
            · exact hfails (rollback_attempts hf.stored (repairStage_result hq) hm)

theorem Backed.next (h : Backed p.attempts p.nodes) (hs : GoesOnStep H plan p s) :
    Backed (next H plan p s).attempts (next H plan p s).nodes := by
  have heffect := call_effect H plan p s
  obtain ⟨op, clock⟩ := s
  generalize (Step.call H plan ⟨op, clock⟩ p).1 = res at heffect
  generalize Orchestration.next H plan p ⟨op, clock⟩ = q at heffect
  cases heffect with
  | same => exact h
  | started args now n no hf => exact h.started hf
  | finished k input now f a res q hf hres => exact h.finished hf hres
  | retried => exact hs.elim
  | claimed => exact hs.elim
  | takenOver => exact hs.elim

theorem GoesOn.next (h : GoesOn H plan p) (hback : Backed p.attempts p.nodes)
    (hg : GraphFacts plan.graphSnapshot rank) (hs : GoesOnStep H plan p s) :
    GoesOn H plan (next H plan p s) := by
  obtain ⟨op, clock⟩ := s
  cases op with
  | start args =>
    unfold Orchestration.next Step.call
    rcases startAttempt_cases H plan p args clock with hsame | ⟨n, no, hf, hstart⟩
    · simp only [hsame]; exact h
    · simp only [hstart]
      exact .flight ⟨args.attemptID, newAttempt plan p args n no (args.input.at clock),
        by simp [started], .inl rfl⟩
  | finish k input => exact finish_goesOn hs hback hg h
  | retry nodeID => exact hs.elim
  | takeOver k owner now => exact hs.elim

theorem newProjection_goesOn (hnew : newProjection plan = .ok p)
    (hentry : ∃ k ∈ plan.graphSnapshot.entryNodeIDs, ∀ e ∈ plan.graphSnapshot.edges, e.toID ≠ k) :
    GoesOn H plan p := by
  obtain ⟨k, hk, hno⟩ := hentry
  obtain ⟨hmem, hid⟩ := WorkflowGraph.node_mem
    ((validateGraph_entries (newProjection_graph hnew)).2 k hk)
  refine .inr (.inr ⟨_, hmem, ?_⟩)
  have hin : incomingEdges plan k = [] := by simpa [incomingEdges] using hno
  rw [enabled_fresh (newProjection_attempts hnew), newProjection_node hnew hmem]
  simp [initialNode, hid, hk, hin]

theorem newProjection_backed (hnew : newProjection plan = .ok p) : Backed p.attempts p.nodes := by
  have hinitial : ∀ (j : String) (n : NodeProjection), p.nodes[j]? = some n →
      ∃ w, n = initialNode plan.graphSnapshot w := by
    simp only [newProjection, then_ok, pure_ok] at hnew
    obtain ⟨-, -, -, rfl⟩ := hnew
    intro j n hn
    rcases (initialNodes plan.graphSnapshot plan.graphSnapshot.nodes ∅ j).1 n
      hn with h | ⟨w, -, -, h⟩
    · simp at h
    · exact ⟨w, h⟩
  refine ⟨by simp [newProjection_attempts hnew], fun j n hn hc => ?_, fun j n hn hs => ?_⟩
  · obtain ⟨w, rfl⟩ := hinitial j n hn
    exact absurd rfl hc
  · obtain ⟨w, rfl⟩ := hinitial j n hn
    unfold initialNode at hs
    split at hs <;> cases hs

/-- In every run of starts and finishes whose finishes hand over, a plan that has not ended and has
no attempt in flight offers a node at some instant. -/
theorem no_silent_stall (H : Host) (plan : RequirementExecutionPlan) (p₀ : PlanProjection)
    (hnew : newProjection plan = .ok p₀)
    (hentry : ∃ k ∈ plan.graphSnapshot.entryNodeIDs, ∀ e ∈ plan.graphSnapshot.edges, e.toID ≠ k)
    (run : List Step) (hrun : Meets (next H plan) (GoesOnStep H plan) p₀ run) :
    let p := after H plan p₀ run
    (∀ (k : String) (a : NodeAttempt), p.attempts[k]? = some a →
      a.status ≠ .running ∧ a.status ≠ .waiting) →
    p.status ≠ .terminal → ∃ now, readyNodesAt H plan p now ≠ [] := by
  obtain ⟨rank, hg⟩ := validateGraph_ok (newProjection_graph hnew)
  intro p hidle hstatus
  have hgoes : Backed p.attempts p.nodes ∧ GoesOn H plan p :=
    invariant (I := fun p => Backed p.attempts p.nodes ∧ GoesOn H plan p)
      ⟨newProjection_backed hnew, newProjection_goesOn hnew hentry⟩
      (fun p s h hs => ⟨h.1.next hs, h.2.next h.1 hg hs⟩) hrun
  rw [exists_readyNodesAt]
  rcases hgoes.2 with hend | ⟨k, a, ha, hlive⟩ | hready
  · exact absurd hend hstatus
  · exact (hlive.elim (hidle k a ha).1 (hidle k a ha).2).elim
  · exact hready

instance : Decidable (HandsOver H plan p input b mid) :=
  decidable_of_iff' _ (handsOver_iff H plan p input b mid)

theorem finishHandsOver_of (h : (handedToRoute H plan p k input clock).all
    (fun c => decide (HandsOver H plan p input c.1 c.2)) = true) :
    FinishHandsOver H plan p k input clock := by
  intro b mid hb _ _
  rw [hb] at h
  exact of_decide_eq_true h

/-- After the success of `x` nothing is in flight, and `y` is offered. -/
theorem no_silent_stall_followed :
    ∃ now, readyNodesAt sampleHost (oneEdgePlan .success) (after sampleHost (oneEdgePlan .success)
      (sampleRun (oneEdgePlan .success) []) [startCall "x" "a", finishCall "a" "success" {}]) now ≠
        [] := by
  refine no_silent_stall sampleHost (oneEdgePlan .success) (sampleRun (oneEdgePlan .success) [])
    (sampleRun_new (by decide +kernel)) (by decide) [startCall "x" "a", finishCall "a" "success" {}]
    ⟨trivial, finishHandsOver_of (by decide +kernel), trivial⟩ ?_ (by decide +kernel)
  have hall : (after sampleHost (oneEdgePlan .success) (sampleRun (oneEdgePlan .success) [])
      [startCall "x" "a", finishCall "a" "success" {}]).attempts.all (fun _ a =>
        a.status != .running && a.status != .waiting) = true := by decide +kernel
  intro k a ha
  simpa using GoMap.all_iff.1 hall k a ha

/-- A success that matches no edge leaves a plan that never ends and never goes on. -/
theorem unmatched_success_stalls :
    let plan := oneEdgePlan .failure
    let run := [startCall "x" "a", finishCall "a" "success" {}]
    let p := sampleRun plan run
    (readyNodesAt sampleHost plan (sampleRun plan []) 1).map (·.id) = ["x"] ∧
      succeeds plan (sampleRun plan []) run = true ∧
      p.attempts.all (fun _ a => a.status == .passed) = true ∧ p.status = .running ∧
      ¬ ∃ now, readyNodesAt sampleHost plan p now ≠ [] := by
  refine ⟨by decide +kernel, by decide +kernel, by decide +kernel, by decide +kernel, ?_⟩
  rw [exists_readyNodesAt]
  decide +kernel

end Adro.Orchestration
