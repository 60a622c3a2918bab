import Adro.Orchestration.Lifecycle
import Adro.Orchestration.Verified

/-!
# The reducer keeps projections valid

The invariant behind `validate`, one part for each kind of entry, and its
preservation by the successful calls of a run. What the calls must avoid is in
`ClosureStep`: counters that overflow, a repair attempt that passes while its
contract is past planning, and finishes that leave a contract waiting for an
attempt that does not run any more.
-/

namespace Adro.Orchestration

open Adro.Go Adro.Runs

/-- The parts of an attempt that never change, and its link to a contract. -/
structure AttemptOk (plan : RequirementExecutionPlan) (k : String) (a : NodeAttempt) : Prop where
  id : a.id = k
  named : blank k = false
  owner : a.planID = plan.id
  node : plan.graphSnapshot.known a.nodeID = true
  number : 1 ≤ a.attemptNo
  manifest : a.inputManifest.manifest.sessionID ≠ "" ∧ a.inputManifest.manifest.digest ≠ ""
  author : (plan.graphSnapshot.node a.nodeID).kind = .repair →
    a.repairState ≠ .dispatched ∧ a.repairState ≠ .verifying

def AttemptsOk (plan : RequirementExecutionPlan) (attempts : GoMap NodeAttempt) : Prop :=
  ∀ (k : String) (a : NodeAttempt), attempts[k]? = some a → AttemptOk plan k a

def StatusesOk (attempts : GoMap NodeAttempt) : Prop :=
  ∀ (k : String) (a : NodeAttempt), attempts[k]? = some a → attemptStatusCheck k a = .ok ()

theorem newAttempt_ok (hf : StartFacts H plan p args now n no)
    (hnode : plan.graphSnapshot.known args.nodeID = true) (hno : 1 ≤ no) :
    AttemptOk plan args.attemptID (newAttempt plan p args n no now) where
  id := rfl
  named := hf.attemptID
  owner := rfl
  node := hnode
  number := hno
  manifest := ⟨ne_empty_of_not_blank hf.session, ne_empty_of_not_blank hf.digest⟩
  author := fun hk => by
    have hkind : (plan.graphSnapshot.node args.nodeID).kind = .repair := hk
    have hs : (newAttempt plan p args n no now).repairState = .planned := by
      simp [newAttempt, hkind]
    simp [hs]

/-- The repair stage gives a repair node's attempt no state of a contract. -/
theorem repairStage_author (h : repairStage plan p a = (.ok a', q))
    (hk : (plan.graphSnapshot.node a.nodeID).kind = .repair)
    (hs : a.repairState ≠ .dispatched ∧ a.repairState ≠ .verifying) :
    a'.repairState ≠ .dispatched ∧ a'.repairState ≠ .verifying := by
  unfold repairStage at h
  rw [hk] at h
  simp only [beq_self_eq_true, if_true] at h
  split at h
  · unfold planRepair at h
    simp only at h
    split at h
    · cases h
    · split at h
      · cases h
      · cases h
        unfold recordRepairPlan
        repeat' split
        all_goals simp
  · split at h
    · cases h; simp
    · cases h; exact hs

theorem AttemptOk.finished (h : AttemptOk plan k a) (hf : FinishFacts plan p k input now f a)
    (hr : repairStage plan p f.attempt = (.ok a', mid)) :
    AttemptOk plan k (stampAttempt t a') := by
  have hatt := hf.attempt
  have hb := repairStage_attempt hr
  have hnode : a'.nodeID = a.nodeID := by rw [hb, hatt]
  refine ⟨?_, h.named, ?_, ?_, ?_, ?_, fun hk => ?_⟩
  · show a'.id = k; rw [hb, hatt]; exact h.id
  · show a'.planID = _; rw [hb, hatt]; exact h.owner
  · show plan.graphSnapshot.known a'.nodeID = true; rw [hnode]; exact h.node
  · show 1 ≤ a'.attemptNo; rw [hb, hatt]; exact h.number
  · rw [hb, hatt]
    exact h.manifest
  · have hk : (plan.graphSnapshot.node f.attempt.nodeID).kind = .repair := by
      rw [hf.nodeID, ← hnode]; exact hk
    show a'.repairState ≠ .dispatched ∧ a'.repairState ≠ .verifying
    refine repairStage_author hr hk ?_
    rw [hf.link.2]
    exact h.author (hf.nodeID ▸ hk)

theorem stampAttempt_status (event : String) (h : eventStatus event = some a.status) :
    attemptStatusCheck k (stampAttempt t a) = .ok () := by
  unfold attemptStatusCheck
  rcases eventStatus_cases h with hp | hw | hu
  · simp [hp, stampAttempt, ensure]
  · simp [hw, stampAttempt, ensure]
  · cases hst : a.status <;> rw [hst] at hu <;> simp_all [AttemptStatus.unsuccessful, stampAttempt,
      ensure]

structure NodeOk (attempts : GoMap NodeAttempt) (k : String) (n : NodeProjection) : Prop where
  nodeID : n.nodeID = k
  status : n.status ≠ .unset
  number : 0 ≤ n.attemptNo
  current : n.currentAttempt ≠ "" → ∃ a, attempts[n.currentAttempt]? = some a ∧ a.nodeID = k ∧
    (n.status = .running → a.status = .running) ∧ (n.status = .waiting → a.status = .waiting)

structure NodesOk (g : WorkflowGraph) (attempts : GoMap NodeAttempt)
    (nodes : GoMap NodeProjection) : Prop where
  ok : ∀ (k : String) (n : NodeProjection), nodes[k]? = some n → NodeOk attempts k n
  known : ∀ k : String, g.known k = true ↔ ∃ n, nodes[k]? = some n

variable {attempts : GoMap NodeAttempt} {nodes : GoMap NodeProjection} {n : NodeProjection}
  {k : String}

theorem NodeOk.frame (h : NodeOk attempts k n)
    (hkeep : ∀ (j : String) (a : NodeAttempt), attempts[j]? = some a → a.nodeID = k →
      attempts'[j]? = some a) : NodeOk attempts' k n :=
  { h with
    current := fun hc => by
      obtain ⟨a, ha, hn, hs⟩ := h.current hc
      exact ⟨a, hkeep _ a ha hn, hn, hs⟩ }

theorem NodeOk.reopen (h : NodeOk attempts k n) (hr : Reopen n n') : NodeOk attempts k n' where
  nodeID := hr.nodeID.trans h.nodeID
  status := by rcases hr.status with h | h <;> simp [h]
  number := by rw [hr.number]; exact h.number
  current := fun hc => by
    rw [hr.current] at hc ⊢
    obtain ⟨a, ha, hn, -⟩ := h.current hc
    refine ⟨a, ha, hn, fun hs => ?_, fun hs => ?_⟩
    · rcases hr.status with h | h <;> rw [hs] at h <;> cases h
    · rcases hr.status with h | h <;> rw [hs] at h <;> cases h

theorem NodesOk.reopened (h : NodesOk g attempts nodes) (hr : Reopened S nodes nodes')
    (hS : ∀ k, S k → g.known k = true) : NodesOk g attempts nodes' where
  ok := fun k n hn => by
    rcases hr k with e | ⟨hs, n', e, hre⟩
    · exact h.ok k n (e ▸ hn)
    · obtain ⟨m, hm⟩ := (h.known k).mp (hS k hs)
      rw [hm, Option.getD_some] at hre
      rw [hn] at e
      cases e
      exact (h.ok k m hm).reopen hre
  known := fun k => by
    rcases hr k with e | ⟨hs, n', e, -⟩
    · rw [e]; exact h.known k
    · exact ⟨fun _ => ⟨n', e⟩, fun _ => hS k hs⟩

theorem NodesOk.write (h : NodesOk g attempts nodes) (hk : g.known node = true)
    (hn : NodeOk (attempts.insert j b) node n)
    (hold : ∀ a, attempts[j]? = some a → a.nodeID = node) :
    NodesOk g (attempts.insert j b) (nodes.insert node n) where
  ok := by
    refine GoMap.forall_overwrite (fun i m hm hne => (h.ok i m hm).frame fun l a ha hl => ?_) hn
    rw [GoMap.get_set_ne ?_]
    · exact ha
    · rintro rfl
      exact hne (hl.symm.trans (hold a ha))
  known := fun i => by
    rw [GoMap.get_set]
    split
    · rename_i hi; subst hi; exact ⟨fun _ => ⟨n, rfl⟩, fun _ => hk⟩
    · exact h.known i

def Counter (x : Int) : Prop := 0 ≤ x ∧ x ≤ maxInt64

/-- Everything `validate` asks for, except the statuses of attempts. -/
structure ProjectionOk (plan : RequirementExecutionPlan) (p : PlanProjection) : Prop where
  head : p.planID = plan.id ∧ plan.id ≠ "" ∧ 1 ≤ p.revision
  status : p.status.frozen = true
  counters : Counter p.tokenUsage ∧ Counter p.toolCalls ∧ Counter p.costCents
  attempts : AttemptsOk plan p.attempts
  repairs : Repairs plan p.attempts p.repairPlans
  ended : Succeeded p → AllVerified p.repairPlans
  nodes : NodesOk plan.graphSnapshot p.attempts p.nodes

theorem Counter.add (h : Counter x) (hu : 0 ≤ u) (hfit : x + u ≤ maxInt64) :
    Counter (i64 (x + u)) := by
  unfold Counter at *
  rw [i64_eq (by omega) hfit]
  omega

theorem ProjectionOk.started (h : ProjectionOk plan p) (hf : StartFacts H plan p args now n no)
    (hfit : p.tokenUsage + args.envelope.manifest.tokenEstimate ≤ maxInt64)
    (hroom : args.attemptNo < 1 → n.attemptNo < maxInt64) :
    ProjectionOk plan (started plan p args n no now) := by
  have hnode := h.nodes.ok _ n hf.node
  have hknown : plan.graphSnapshot.known args.nodeID = true :=
    (h.nodes.known args.nodeID).mpr ⟨n, hf.node⟩
  have hno : 1 ≤ no := by
    rw [hf.number]
    split
    · have := hnode.number
      rw [i64_eq (by omega) (by omega)]
      omega
    · omega
  refine ⟨h.head, rfl, ⟨h.counters.1.add hf.estimate hfit, h.counters.2⟩, ?_,
    h.repairs.started hf, fun hs => absurd hs.1 (by simp [Orchestration.started]), ?_⟩
  · exact GoMap.forall_set h.attempts (newAttempt_ok hf hknown hno)
  · refine h.nodes.write hknown ⟨hnode.nodeID, by simp [startedNode], by simp [startedNode]; omega,
      fun _ => ⟨newAttempt plan p args n no now, by simp [startedNode], rfl, fun _ => rfl, ?_⟩⟩ ?_
    · simp [startedNode]
    · intro a ha
      rw [hf.fresh] at ha
      cases ha

theorem StatusesOk.started (h : StatusesOk p.attempts) (hlease : args.lease.expiresAt ≠ 0) :
    StatusesOk (started plan p args n no now).attempts := by
  refine GoMap.forall_set h ?_
  simp [newAttempt, attemptStatusCheck, ensure, hlease]

theorem setRepairState_verified (h : r.state = .verified) (hr : setRepairState r s = some r') :
    r'.state = .verified := by
  have hne : s ≠ .unset := by
    rintro rfl
    simp [setRepairState, validRepairLifecycle] at hr
  have hallowed := (setRepairState_allowed r s (by simp [h]) hne).mp ⟨r', hr⟩
  obtain ⟨_, rfl⟩ := setRepairState_eq hr
  rw [h] at hallowed
  cases s <;> first | rfl | cases hallowed

theorem AllVerified.repaired (h : AllVerified p.repairPlans)
    (heff : RepairEffect plan p a a' mid)
    (hnot : ¬ ((plan.graphSnapshot.node a.nodeID).kind = .repair ∧ a.status = .passed)) :
    AllVerified mid.repairPlans := by
  cases heff with
  | idle => exact h
  | transient r hd hr => exact GoMap.forall_set h (h _ r hr)
  | patched r r₁ hd hs hp hr hnext =>
    have hstay := setRepairState_verified (h _ r hr) hnext
    exact GoMap.forall_set h hstay
  | verified r r₁ s hd hs hp hr hc hnext =>
    have hv : r.state = .verified := h _ r hr
    exact GoMap.forall_set h (setRepairState_verified (by exact hv) hnext)
  | failed r r₂ s q hd hu hr hround =>
    cases hround with
    | again r₁ r₂ h₁ =>
      have := setRepairState_verified (h _ r hr) h₁
      obtain ⟨_, rfl⟩ := setRepairState_eq h₁
      cases this
    | last r₁ r₂ h₁ =>
      have := setRepairState_verified (h _ r hr) h₁
      obtain ⟨_, rfl⟩ := setRepairState_eq h₁
      cases this
  | planned fresh hk hp => exact absurd ⟨hk, hp⟩ hnot

theorem route_frozen (H : Host) (plan : RequirementExecutionPlan) (a : NodeAttempt)
    (input : TransitionInput) (now : Time) (h : p.status.frozen = true) :
    (route H plan a input now p).2.status.frozen = true := by
  unfold route
  split
  · rfl
  · split
    · exact h
    · unfold routeWithoutEdge
      simp only
      repeat' split
      all_goals first | exact h | rfl
    · rw [(followEdge_sameEnd ..).1]; exact h
    · rw [followAll_sameEnd.1]; exact h

theorem settle_frozen (hs : settle H plan f k input b mid = (res, q))
    (h : mid.status.frozen = true) : q.status.frozen = true := by
  have hjoins := (shortCircuitJoins_reopens H plan.graphSnapshot b (commitFinish f k b mid)).rest
  have hcommit : (shortCircuitJoins H plan.graphSnapshot b
      (commitFinish f k b mid)).status.frozen = true := by rw [hjoins]; exact h
  unfold settle at hs
  simp only at hs
  split at hs
  · have hroute := route_frozen H plan b input f.now hcommit
    split at hs
    · cases hs; exact h
    · rename_i m hm
      rw [hm] at hroute
      cases hs
      rw [noteReason_eq]
      exact hroute
  · cases hs
    rw [noteReason_eq]
    exact hcommit

def Fits (p : PlanProjection) (u : Usage) : Prop :=
  p.tokenUsage + u.tokens ≤ maxInt64 ∧ p.toolCalls + u.tools ≤ maxInt64 ∧
    p.costCents + u.cost ≤ maxInt64

theorem ProjectionOk.finishesOk (h : ProjectionOk plan p) (hg : GraphFacts plan.graphSnapshot rank)
    (ha : p.attempts[k]? = some a) : FinishesOk plan p k a := by
  have hok := h.attempts k a ha
  refine ⟨hok.id, ne_empty_of_not_blank hok.named, ?_, hok.author, fun id hid => ?_⟩
  · obtain ⟨n, hn, hid⟩ := WorkflowGraph.known_iff.mp hok.node
    exact hid ▸ ne_empty_of_not_blank (hg.node_id n hn)
  · refine (h.nodes.known id).mpr ?_
    exact Option.isSome_iff_exists.mp
      (Std.ExtTreeMap.isSome_getElem?_iff_mem.mpr (Std.ExtTreeMap.contains_iff_mem.mp hid))

theorem ProjectionOk.repaired (h : ProjectionOk plan p) (hg : GraphFacts plan.graphSnapshot rank)
    (hf : FinishFacts plan p k input now f a)
    (hr : repairStage plan p f.attempt = (.ok a', mid)) (hdec : Decides plan p k a input)
    (hre : Replans plan p a input) :
    Repairs plan (p.attempts.insert k (stampAttempt t a')) mid.repairPlans := by
  have hok := h.finishesOk hg hf.stored
  have heff := repairStage_effect hr
  have hb := stamped_nodeID (t := t) hr hf
  have hst := stamped_status (t := t) hr
  generalize stampAttempt t a' = b at *
  have hlive : a.status ≠ .passed := by rcases hf.live with h | h <;> simp [h]
  have hgrows : Grows p.attempts (p.attempts.insert k b) :=
    .write hf.stored hb fun hp => absurd hp hlive
  have hcontracts : Contracts (fun _ _ => True) (p.attempts.insert k b) mid.repairPlans := by
    refine (h.repairs.contracts.grow hgrows fun _ _ _ _ _ _ => trivial).repaired (k := k) heff ?_ ?_
    · intro hk hp j r hj hopen
      rw [hf.nodeID] at hk hopen
      exact ((hre hk (hf.passing hp)).2 j r hj hopen).1
    · intro hd hp
      exact ⟨hf.named.mpr ((hdec (hf.driving.mp hd) _ hf.event).1 hp), b,
        by rw [GoMap.get_set, if_pos rfl], hst.trans hp⟩
  exact fun j r hj => ⟨hcontracts j r hj, h.repairs.drafts hok hf heff hre hb hst hgrows j r hj,
    h.repairs.pendings hok hf heff hdec hre hst j r hj⟩

theorem NodesOk.finished (h : NodesOk plan.graphSnapshot p.attempts p.nodes)
    (hg : GraphFacts plan.graphSnapshot rank) (hf : FinishFacts plan p k input now f a)
    (hrep : Repaired (contractCovers p f.attempt) p mid)
    (hcover : ∀ j, contractCovers p f.attempt j → plan.graphSnapshot.known j = true)
    (hb : b.nodeID = a.nodeID) (hst : b.status = f.attempt.status)
    (hm : Routed (settleOpens plan b input.event) (commitFinish f k b mid) m) :
    NodesOk plan.graphSnapshot (p.attempts.insert k b) m.nodes := by
  have hmid : NodesOk plan.graphSnapshot p.attempts mid.nodes := h.reopened hrep.nodes hcover
  have hown := h.ok _ f.node hf.node
  have hknown : plan.graphSnapshot.known b.nodeID = true :=
    (h.known _).mpr ⟨f.node, hb ▸ hf.node⟩
  have hcommit : NodesOk plan.graphSnapshot (p.attempts.insert k b)
    (commitFinish f k b mid).nodes := by
    refine hmid.write hknown ⟨hown.nodeID.trans hb.symm, ?_, hown.number, fun _ => ?_⟩
      fun c hc => ?_
    · show b.status ≠ .unset
      rw [hst]
      rcases eventStatus_cases hf.event with h | h | h
      · simp [h]
      · simp [h]
      · intro hu; rw [hu] at h; cases h
    · exact ⟨b, by simp [hf.current], rfl, id, id⟩
    · rw [hf.stored] at hc
      cases hc
      exact hb.symm
  refine hcommit.reopened hm.nodes ?_
  rintro j ⟨-, ⟨e, he, -, rfl⟩ | ⟨-, rfl⟩⟩
  · exact hg.edge_to e he
  · exact hknown

/-- A passing repair attempt needs a plan that has not succeeded yet. -/
def Unended (plan : RequirementExecutionPlan) (p : PlanProjection) (a : NodeAttempt)
    (input : TransitionInput) : Prop :=
  (plan.graphSnapshot.node a.nodeID).kind = .repair → eventStatus input.event = some .passed →
    ¬ Succeeded p

theorem ProjectionOk.finished (h : ProjectionOk plan p) (hg : GraphFacts plan.graphSnapshot rank)
    (hres : FinishResult H plan p k input f (.ok b) q) (hf : FinishFacts plan p k input now f a)
    (hfits : Fits p (resultUsage input.result)) (hdec : Decides plan p k a input)
    (hre : Replans plan p a input) (hend : Unended plan p a input) : ProjectionOk plan q := by
  have hsucc := hres.succeeded
  cases hres with
  | kept a' mid m hr hm hs =>
    have hrep := repairStage_result hr
    have hrepairs := h.repaired (t := f.now) hg hf hr hdec hre
    have hb := stamped_nodeID (t := f.now) hr hf
    have hst := stamped_status (t := f.now) hr
    have hattempt := (h.attempts k a hf.stored).finished (t := f.now) hf hr
    have hfrozen := settle_frozen hs (by rw [hrep.rest]; exact h.status)
    generalize stampAttempt f.now a' = b at *
    have hnodes := h.nodes.finished hg hf hrep (fun j ⟨r, hr, hc⟩ =>
      (h.repairs _ r hr).draft.known j hc) hb hst hm
    have hplans : m.repairPlans = mid.repairPlans := by rw [hm.rest]; rfl
    have hattempts : m.attempts = p.attempts.insert k b := by
      rw [hm.attempts, ← hrep.attempts]; rfl
    have hnote := (hplans ▸ hrepairs : Repairs plan _ m.repairPlans).noteReason b
    have hused : 0 ≤ (resultUsage input.result).tokens ∧ 0 ≤ (resultUsage input.result).tools ∧
        0 ≤ (resultUsage input.result).cost :=
      ⟨usageInt64_nonneg .., usageInt64_nonneg .., usageInt64_nonneg ..⟩
    rw [noteReason_eq] at hfrozen hsucc ⊢
    refine ⟨?_, hfrozen, ?_, ?_, ?_, fun hq => ?_, ?_⟩
    · rw [hm.rest]
      rw [hrep.rest]
      exact h.head
    · rw [hm.rest]
      show Counter (i64 (mid.tokenUsage + f.usage.tokens)) ∧
        Counter (i64 (mid.toolCalls + f.usage.tools)) ∧ Counter (i64 (mid.costCents + f.usage.cost))
      rw [hrep.rest, hf.usage]
      exact ⟨h.counters.1.add hused.1 hfits.1, h.counters.2.1.add hused.2.1 hfits.2.1,
        h.counters.2.2.add hused.2.2 hfits.2.2⟩
    · rw [hattempts]
      exact GoMap.forall_set h.attempts hattempt
    · rw [hattempts]
      exact hnote
    · rcases hsucc hq with hp | hall
      · refine forall_noteReason (hplans ▸ ?_) (fun _ _ _ h => h)
        refine (h.ended hp).repaired (repairStage_effect hr) fun ⟨hk, hpass⟩ => ?_
        exact hend (hf.nodeID ▸ hk) (hf.passing hpass) hp
      · exact hall
    · rw [hattempts]
      exact hnodes

theorem FinishResult.statusesOk (hres : FinishResult H plan p k input f (.ok b) q)
    (hf : FinishFacts plan p k input now f a)
    (h : ∀ (j : String) (c : NodeAttempt), p.attempts[j]? = some c → j ≠ k →
      attemptStatusCheck j c = .ok ()) : StatusesOk q.attempts := by
  rcases hres.attempts hf with ⟨e, he, -⟩ | ⟨c, hc, hq, -⟩
  · cases he
  · rw [hq]
    refine GoMap.forall_overwrite h ?_
    cases hres with
    | kept a' mid m hr hm hs =>
      cases hc
      refine stampAttempt_status input.event ?_
      have hst : a'.status = f.attempt.status := stamped_status (t := f.now) hr
      rw [hst]
      exact hf.event

theorem NodesOk.rewrite (h : NodesOk g attempts nodes)
    (ha : attempts[j]? = some a) (hn : b.nodeID = a.nodeID) (hs : b.status = a.status) :
    NodesOk g (attempts.insert j b) nodes where
  known := h.known
  ok := fun k n hk => by
    have hok := h.ok k n hk
    refine ⟨hok.nodeID, hok.status, hok.number, fun hc => ?_⟩
    obtain ⟨c, hcur, hnode, hst⟩ := hok.current hc
    rw [GoMap.get_set]
    split
    · rename_i hj
      rw [← hj, ha] at hcur
      cases hcur
      exact ⟨b, rfl, hn.trans hnode, by rw [hs]; exact hst⟩
    · exact ⟨c, hcur, hnode, hst⟩

theorem ProjectionOk.claimed (h : ProjectionOk plan p) (owner : String) (now : Time)
    (ha : p.attempts[k]? = some a) :
    ProjectionOk plan (claimLease p a k owner now) := by
  have hok := h.attempts k a ha
  refine ⟨h.head, h.status, h.counters, GoMap.forall_set h.attempts { hok with },
    fun j r hj => ?_, h.ended, h.nodes.rewrite ha rfl rfl⟩
  have hr := h.repairs j r hj
  exact ⟨hr.contract.grow (claimLease_grows ha) fun _ _ _ _ _ _ => trivial,
    hr.draft.grow (claimLease_grows ha), hr.pending.rewrite ha rfl rfl rfl⟩

theorem ProjectionOk.retried (h : ProjectionOk plan p) (hn : p.nodes[k]? = some n) :
    ProjectionOk plan { p with
      nodes := p.nodes.insert k { n with status := .ready }
      status := if p.status == .terminal then .running else p.status } := by
  have hok := h.nodes.ok k n hn
  refine ⟨h.head, ?_, h.counters, h.attempts, h.repairs, fun hs => absurd hs.1 ?_, ?_, fun j => ?_⟩
  · split
    · rfl
    · exact h.status
  · simp only [beq_iff_eq]
    split
    · simp
    · assumption
  · refine GoMap.forall_set h.nodes.ok ⟨hok.nodeID, by simp, hok.number, fun hc => ?_⟩
    obtain ⟨a, ha, hnode, -⟩ := hok.current hc
    exact ⟨a, ha, hnode, by simp, by simp⟩
  · rw [GoMap.get_set]
    split
    · rename_i hj
      subst hj
      exact ⟨fun _ => ⟨_, rfl⟩, fun _ => (h.nodes.known k).mpr ⟨n, hn⟩⟩
    · exact h.nodes.known j

/-- Calls that keep a projection valid when they succeed. -/
def ClosureStep (plan : RequirementExecutionPlan) (p : PlanProjection) (s : Step) : Prop :=
  match s.op with
  | .start args => args.lease.expiresAt ≠ 0 ∧
      p.tokenUsage + args.envelope.manifest.tokenEstimate ≤ maxInt64 ∧
      (args.attemptNo < 1 → ∀ n, p.nodes[args.nodeID]? = some n → n.attemptNo < maxInt64)
  | .finish k input => Fits p (resultUsage input.result) ∧
      ∀ a, p.attempts[k]? = some a → a.status = .running ∨ a.status = .waiting →
        Decides plan p k a input ∧ Replans plan p a input ∧ Unended plan p a input
  | .retry nodeID => trimSpace nodeID = nodeID
  | .takeOver _ _ _ => True

/-- A takeover decides: it neither passes nor parks the attempt nor reports a
transient failure. -/
theorem takeOver_decides (plan : RequirementExecutionPlan) :
    Decides plan p k a (takeOverInput plan k token now) ∧
      Replans plan p a (takeOverInput plan k token now) ∧
      Unended plan p a (takeOverInput plan k token now) := by
  have hev : eventStatus (takeOverInput plan k token now).event = some .timedOut := by
    simp [takeOverInput, eventStatus]
  refine ⟨fun _ s hs => ?_, fun _ hs => ?_, fun _ hs => ?_⟩
  · rw [hev] at hs
    cases hs
    exact ⟨by simp, fun _ => ⟨by simp, by
      simp [takeOverInput, isRetryableRepairProviderFailure, repairCodes]⟩⟩
  · rw [hev] at hs; cases hs
  · rw [hev] at hs; cases hs

theorem ProjectionOk.step (h : ProjectionOk plan p) (hst : StatusesOk p.attempts)
    (hg : GraphFacts plan.graphSnapshot rank) (hok : (s.call H plan p).1 = .ok ())
    (hs : ClosureStep plan p s) :
    ProjectionOk plan (next H plan p s) ∧ StatusesOk (next H plan p s).attempts := by
  have heff := call_effect H plan p s
  unfold ClosureStep at hs
  generalize s.op = op at heff hs
  generalize next H plan p s = q at heff
  generalize (s.call H plan p).1 = res at heff hok
  cases heff with
  | same => exact ⟨h, hst⟩
  | started args now n no hf =>
    exact ⟨h.started hf hs.2.1 fun hlt => hs.2.2 hlt n hf.node, hst.started hs.1⟩
  | finished k input now f a res q hf hres =>
    cases res with
    | error e => cases hok
    | ok b =>
      obtain ⟨hdec, hre, hend⟩ := hs.2 a hf.stored hf.live
      exact ⟨h.finished hg hres hf hs.1 hdec hre hend,
        hres.statusesOk hf fun j c hc _ => hst j c hc⟩
  | retried nodeID n hn hclosed =>
    rw [hs] at hn
    exact ⟨h.retried hn, hst⟩
  | claimed k owner at₀ now a e ha => cases hok
  | takenOver k owner at₀ now now' a f b res q ha hrun hown hf hres =>
    cases res with
    | error e => cases hok
    | ok c =>
      obtain ⟨hdec, hre, hend⟩ := takeOver_decides plan
      have hclaim := h.claimed owner now ha
      have hzero : Fits (claimLease p a k owner now) (resultUsage
          (takeOverInput plan k (i64 (a.lease.fencingToken + 1)) now).result) := by
        obtain ⟨⟨-, ht⟩, ⟨-, hc⟩, -, hd⟩ := h.counters
        have hnone : resultUsage (takeOverInput plan k
          (i64 (a.lease.fencingToken + 1)) now).result =
            {} := by simp [takeOverInput, resultUsage, usageInt64]
        rw [hnone]
        exact ⟨by simpa [claimLease] using ht, by simpa [claimLease] using hc,
          by simpa [claimLease] using hd⟩
      refine ⟨hclaim.finished hg hres hf hzero hdec hre hend,
        hres.statusesOk hf fun j d hd hne => ?_⟩
      refine hst j d ?_
      simp only [claimLease] at hd
      rwa [GoMap.get_set_ne (Ne.symm hne)] at hd

theorem AttemptOk.check (h : AttemptOk plan k a) (hp : p.planID = plan.id)
    (hnode : a.nodeID ≠ "") (hst : attemptStatusCheck k a = .ok ()) :
    attemptCheck p k a = .ok () := by
  have hvalid : (a.repairState == .unset || validRepairLifecycle a.repairState) = true := by
    cases a.repairState <;> rfl
  have hno := h.number
  simp only [attemptCheck, then_ok, ensure_ok, hst, hvalid]
  simp [h.id, h.owner, hp, hnode, h.manifest]
  omega

section

variable {p : PlanProjection} {r : RepairPlan}

section
variable (h : DraftOk plan p.attempts k r)
include h

theorem DraftOk.headCheck (hk : r.id = k)
    (hp : p.planID = plan.id) (hg : GraphFacts plan.graphSnapshot rank) :
    repairHeadCheck p k r = .ok () := by
  obtain ⟨hmin, hround, hmax⟩ := h.rounds
  have hvalid : validRepairLifecycle r.state = true := by
    have := h.state
    cases hs : r.state <;> first | rfl | exact absurd hs this
  simp only [repairHeadCheck, then_ok, ensure_ok]
  refine ⟨?_, by simpa using hround, ?_⟩
  · simp only [hk, h.owner, hp, bne_self_eq_false, hvalid, Bool.not_true, Bool.or_false,
      Bool.false_or, Bool.not_eq_true', Bool.or_eq_false_iff, beq_eq_false_iff_ne,
      decide_eq_false_iff_not, List.isEmpty_eq_false_iff]
    exact ⟨⟨⟨⟨⟨h.author.1, h.author.2.1⟩, h.target⟩, h.verification.1⟩, by omega⟩, by omega⟩
  · refine eachSeen_of_nodup (fun _ seen x hx hseen => ?_) (by simpa using h.verification.2)
      (by simp)
    obtain ⟨n, hn, hid⟩ := WorkflowGraph.known_iff.mp (h.known x (.inr hx))
    simp only [then_ok, ensure_ok]
    exact ⟨by rw [← hid, hg.node_id n hn]; rfl, by simpa using hseen⟩

theorem DraftOk.lineageCheck : repairLineageCheck p k r = .ok () := by
  obtain ⟨a, ha, hn, hs⟩ := h.passed
  simp only [repairLineageCheck, then_ok, ensure_ok]
  refine ⟨?_, by simp [ha, hn, hs]⟩
  have hmem := h.author.2.2
  have hne : r.repairAttemptIDs ≠ [] := List.ne_nil_of_mem hmem
  simp [hmem, hne]

theorem DraftOk.historyCheck : repairHistoryCheck k r = .ok () := by
  obtain ⟨hhead, hlast, hchain⟩ := h.history
  have hne : r.stateHistory ≠ [] := by intro he; rw [he] at hhead; cases hhead
  simp only [repairHistoryCheck, then_ok, ensure_ok]
  exact ⟨by simp [hne, hhead, hlast], historyStepsCheck_ok k hchain⟩

end

section
variable (h : RepairOk plan p.attempts k r)
  (hnamed : ∀ (j : String) (a : NodeAttempt), p.attempts[j]? = some a → blank j = false)
include h hnamed

theorem RepairOk.targetCheck : repairTargetCheck p k r = .ok () := by
  unfold repairTargetCheck
  split
  · rename_i hs
    have hon : r.state.dispatchedOn := by
      cases hst : r.state <;> rw [hst] at hs <;> simp_all [RepairLifecycle.dispatchedOn]
    obtain ⟨t, ht, hn, hpassed⟩ := h.contract.target hon
    have hne := ne_empty_of_not_blank (hnamed _ t ht)
    simp only [then_ok, ensure_ok, ht]
    refine ⟨by simpa using hne, by simpa using hn, ?_, ?_⟩
    · by_cases hd : r.state = .dispatched
      · obtain ⟨a, ha, hrun⟩ := h.pending.dispatched hd
        rw [ht] at ha
        cases ha
        simp [hrun.1]
      · simp [hd]
    · by_cases hd : r.state = .dispatched
      · simp [hd]
      · simp [hpassed hd]
  · rfl

theorem RepairOk.verifyingCheck : repairVerifyingCheck p k r = .ok () := by
  unfold repairVerifyingCheck
  split
  · rename_i hs
    have hs : r.state = .verifying ∨ r.state = .verified := by simpa using hs
    have hcheck : r.state.checking := by rcases hs with h | h <;> simp [h]
    simp only [then_ok, ensure_ok, eachOk_ok]
    constructor
    · have hentry : ∃ node v : String, r.verificationAttempts[node]? = some v := by
        rcases hs with hs | hs
        · exact h.pending.nonempty hs
        · obtain ⟨node, hnode⟩ := List.exists_mem_of_ne_nil _ h.draft.verification.1
          obtain ⟨-, v, -, hv, -⟩ := h.contract.verified_all hs hnode
          exact ⟨node, v, hv⟩
      obtain ⟨node, v, hv⟩ := hentry
      have := GoMap.length_le_size (l := [node]) (by simp) (by simpa using ⟨v, hv⟩)
      simp only [List.length_singleton] at this
      simp only [bne_iff_ne]
      omega
    · rintro ⟨node, v⟩ hmem
      have hv := GoMap.mem_entries.mp hmem
      obtain ⟨hdecl, -, -, b, hb, hn⟩ := h.contract.verification hcheck node v hv
      simp only [verificationAttemptCheck, then_ok, ensure_ok, hb]
      refine ⟨by simp [hdecl, hnamed v b hb], by simpa using hn, ?_⟩
      by_cases hst : r.state = .verifying
      · obtain ⟨c, hc, hrun⟩ := h.pending.verifying hst node v hv
        rw [hb] at hc
        cases hc
        rcases hrun with hp | hrun
        · simp [hp]
        · simp [hrun.1]
      · simp [hst]
  · rfl

theorem RepairOk.verifiedCheck : repairVerifiedCheck p k r = .ok () := by
  unfold repairVerifiedCheck
  split
  · rename_i hs
    have hs : r.state = .verified := by simpa using hs
    obtain ⟨t, ht, -⟩ := h.contract.target (by simp [hs])
    have hsize : r.verificationNodeIDs.length ≤ r.verificationAttempts.size := by
      refine GoMap.length_le_size h.draft.verification.2 fun node hnode => ?_
      obtain ⟨-, v, -, hv, -⟩ := h.contract.verified_all hs hnode
      exact ⟨v, hv⟩
    simp only [then_ok, ensure_ok, eachOk_ok]
    refine ⟨by simpa using ne_empty_of_not_blank (hnamed _ t ht), by simpa using hsize,
      fun node hnode => ?_⟩
    obtain ⟨hflag, v, b, hv, hb, hn, hp, -⟩ := h.contract.verified_all hs hnode
    simp [hflag, hv, hb, hn, hp]
  · rfl

end

theorem RepairOk.check (h : RepairOk plan p.attempts k r) (hp : p.planID = plan.id)
    (hg : GraphFacts plan.graphSnapshot rank)
    (hnamed : ∀ (j : String) (a : NodeAttempt), p.attempts[j]? = some a → blank j = false) :
    repairCheck p k r = .ok () := by
  simp only [repairCheck, then_ok]
  exact ⟨h.draft.headCheck h.contract.key hp hg, h.draft.lineageCheck, h.draft.historyCheck,
    h.targetCheck hnamed, h.verifyingCheck hnamed, h.verifiedCheck hnamed⟩

end

theorem NodeOk.check (h : NodeOk p.attempts k n) : nodeCheck p k n = .ok () := by
  simp only [nodeCheck, then_ok, ensure_ok]
  refine ⟨by simpa using h.nodeID, by simpa using h.status, ?_⟩
  split
  · rename_i hc
    obtain ⟨a, ha, hn, hr, hw⟩ := h.current (by simpa using hc)
    rw [ha]
    simp only [then_ok, ensure_ok]
    refine ⟨by simpa using hn, ?_, ?_⟩
    · simpa [Classical.or_iff_not_imp_left] using hr
    · simpa [Classical.or_iff_not_imp_left] using hw
  · rfl

theorem allRepairsVerified_of (h : Repairs plan p.attempts p.repairPlans)
    (hall : AllVerified p.repairPlans) : allRepairsVerified p = true := by
  refine GoMap.all_iff.mpr fun k r hr => ?_
  have hok := h k r hr
  have hs := hall k r hr
  simp only [RepairPlan.allVerified, hs, beq_self_eq_true, Bool.true_and, Bool.and_eq_true,
    List.all_eq_true, Bool.not_eq_true', List.isEmpty_eq_false_iff, decide_eq_true_eq]
  refine ⟨⟨hok.draft.verification.1, hok.contract.complete hs⟩, fun node hnode => ?_⟩
  simp [(hok.contract.verified_all hs hnode).1]

theorem ProjectionOk.validate (h : ProjectionOk plan p) (hst : StatusesOk p.attempts)
    (hg : GraphFacts plan.graphSnapshot rank) : p.validate = .ok () := by
  obtain ⟨hid, hne, hrev⟩ := h.head
  obtain ⟨⟨ht, -⟩, ⟨hc, -⟩, hd, -⟩ := h.counters
  simp only [PlanProjection.validate, then_ok, ensure_ok, eachOk_ok]
  refine ⟨?_, ?_, ?_, fun ⟨k, a⟩ hmem => ?_, fun ⟨k, r⟩ hmem => ?_, ?_, fun ⟨k, n⟩ hmem => ?_⟩
  · simp [hid, hne]; omega
  · have := h.status
    cases hs : p.status <;> rw [hs] at this <;> first | rfl | cases this
  · simp; omega
  · have ha := GoMap.mem_entries.mp hmem
    exact (h.attempts k a ha).check hid (h.finishesOk hg ha).node (hst k a ha)
  · exact (h.repairs k r (GoMap.mem_entries.mp hmem)).check hid hg fun j a ha =>
      (h.attempts j a ha).named
  · by_cases hs : Succeeded p
    · simp [allRepairsVerified_of h.repairs (h.ended hs)]
    · by_cases hterm : p.status = .terminal
      · have hout : p.terminalOutcome ≠ "succeeded" := fun ho => hs ⟨hterm, ho⟩
        simp [hout]
      · simp [hterm]
  · exact (h.nodes.ok k n (GoMap.mem_entries.mp hmem)).check

theorem newProjection_ok (h : newProjection plan = .ok p) :
    (∃ rank, GraphFacts plan.graphSnapshot rank) ∧ ProjectionOk plan p ∧ StatusesOk p.attempts := by
  simp only [newProjection, then_ok, ensure_ok, pure_ok, Bool.and_eq_true, bne_iff_ne,
    decide_eq_true_eq] at h
  obtain ⟨hid, ⟨⟨hfrozen, -⟩, hrev⟩, hgraph, rfl⟩ := h
  have hnodes := initialNodes plan.graphSnapshot plan.graphSnapshot.nodes ∅
  have hzero : Counter 0 := by unfold Counter maxInt64; omega
  refine ⟨validateGraph_ok hgraph,
    ⟨⟨rfl, hid, hrev⟩, hfrozen, ⟨hzero, hzero, hzero⟩, ?_, ?_, ?_, ?_⟩,
    ?_⟩
  · intro k a ha; simp at ha
  · intro k r hr; simp at hr
  · intro _ k r hr; simp at hr
  · refine ⟨fun k n hn => ?_, fun k => ⟨fun hk => ?_, fun ⟨n, hn⟩ => ?_⟩⟩
    · rcases (hnodes k).1 n hn with hn | ⟨w, -, rfl, rfl⟩
      · simp at hn
      · refine ⟨rfl, ?_, by simp [initialNode], fun hc => absurd rfl hc⟩
        unfold initialNode
        split <;> simp
    · exact (hnodes k).2 (.inr (WorkflowGraph.known_iff.mp hk))
    · rcases (hnodes k).1 n hn with hn | ⟨w, hw, hwk, -⟩
      · simp at hn
      · exact WorkflowGraph.known_iff.mpr ⟨w, hw, hwk⟩
  · intro k a ha; simp at ha

/-- In every run of successful calls that meet `ClosureStep`, `validate` accepts
the projection reached. -/
theorem reducer_closed (H : Host) (plan : RequirementExecutionPlan) (p₀ : PlanProjection)
    (hnew : newProjection plan = .ok p₀) (run : List Step)
    (hrun : Meets (next H plan) (fun p s => (s.call H plan p).1 = .ok () ∧ ClosureStep plan p s)
      p₀ run) : (after H plan p₀ run).validate = .ok () := by
  obtain ⟨⟨rank, hg⟩, hok, hst⟩ := newProjection_ok hnew
  obtain ⟨hok, hst⟩ := invariant (I := fun p => ProjectionOk plan p ∧ StatusesOk p.attempts)
    ⟨hok, hst⟩ (fun p s h hs => h.1.step h.2 hg hs.1 hs.2) hrun
  exact hok.validate hst hg

theorem ok_of_toBool {x : Except Err Unit} (h : x.toBool = true) : x = .ok () := by
  cases x with
  | ok u => rfl
  | error e => cases h

/-- The first repair is planned. -/
theorem reducer_closed_planned :
    let p := after sampleHost repairTwicePlan (sampleRun repairTwicePlan []) (repairSteps.take 2)
    (p.repairPlans["plan:repair:r1"]?).map (·.state) = some .planned ∧ p.validate = .ok () := by
  refine ⟨by decide +kernel, reducer_closed sampleHost repairTwicePlan
    (sampleRun repairTwicePlan []) (sampleRun_new (by decide +kernel)) _
      ⟨⟨ok_of_toBool (by decide +kernel), by decide, by decide +kernel, fun _ n hn => ?_⟩,
        ⟨ok_of_toBool (by decide +kernel), by unfold Fits; decide +kernel, fun a ha _ => ?_⟩,
        trivial⟩⟩
  · have hno : ((sampleRun repairTwicePlan []).nodes["r"]?).map (·.attemptNo) = some 0 := by
      decide +kernel
    rw [show (sampleRun repairTwicePlan []).nodes["r"]? = some n from hn] at hno
    have hno : n.attemptNo = 0 := Option.some.inj hno
    rw [hno]
    decide
  · have hnode : ((repairTwiceRun (repairSteps.take 1)).attempts["r1"]?).map (·.nodeID) =
        some "r" := by decide +kernel
    rw [show (repairTwiceRun (repairSteps.take 1)).attempts["r1"]? = some a from ha] at hnode
    have hnode : a.nodeID = "r" := Option.some.inj hnode
    refine ⟨fun hd => absurd (by rw [hnode]; decide) hd.1, fun _ _ => ⟨?_, fun j r hr => ?_⟩,
      fun _ _ hs => ?_⟩
    · show (["v"] : List String).Nodup
      decide
    · have hall : (repairTwiceRun (repairSteps.take 1)).repairPlans.all
        (fun _ _ => false) = true := by
        decide +kernel
      exact absurd (GoMap.all_iff.mp hall j r hr) (by simp)
    · exact absurd hs.1 (by decide +kernel)

/-- A target attempt that fails because of its provider keeps its contract
dispatched for a retry, but `validate` wants a running target attempt there. -/
theorem retryable_target_invalid :
    let failed : Step := {
      op := .finish "t1" {
        event := "failure"
        result := { evidenceIDs := ["evidence"] }
        failure := some { code := "provider_timeout", message := "timeout", retryable := true } }
      clock := 2 }
    let run := repairSteps.take 3 ++ [failed]
    succeeds repairTwicePlan (sampleRun repairTwicePlan []) run = true ∧
      (match (sampleRun repairTwicePlan run).validate with
        | .ok _ => ""
        | .error e => e.text) =
        "repair plan plan:repair:r1 is dispatched without a running target attempt" := by
  decide +kernel

end Adro.Orchestration
