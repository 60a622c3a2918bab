import Adro.Orchestration.Contract
import Adro.Orchestration.Terminal

/-!
# Verified repairs

What a verified contract promises at the end of a run, with the order in which
its attempts were started, and that a plan only ends as succeeded when all its
contracts are verified. The promise needs the passing finishes to be sound; the
second half holds of every call.
-/

namespace Adro.Orchestration

open Adro.Go Adro.Runs

section

variable (H : Host) (plan : RequirementExecutionPlan) (p₀ : PlanProjection) (run : List Step)

/-- Whenever attempt `v` was there, attempt `t` had passed. -/
def StartedAfter (v t : String) : Prop :=
  ∀ pre, pre <+: run → (after H plan p₀ pre).attempts[v]?.isSome = true →
    ∃ a, (after H plan p₀ pre).attempts[t]? = some a ∧ a.status = .passed

theorem Grows.trans (h : Grows m₁ m₂) (h' : Grows m₂ m₃) : Grows m₁ m₃ := by
  intro k a ha
  obtain ⟨b, hb, hn, hp⟩ := h k a ha
  obtain ⟨c, hc, hn', hp'⟩ := h' k b hb
  exact ⟨c, hc, hn'.trans hn, fun hpass => hp' (hp hpass)⟩

theorem next_grows (p : PlanProjection) (s : Step) :
    Grows p.attempts (next H plan p s).attempts := by
  have heff := call_effect H plan p s
  generalize s.op = op at heff
  generalize next H plan p s = q at heff
  generalize (s.call H plan p).1 = res at heff
  cases heff with
  | same => exact .refl
  | started args now n no hf => exact .new hf.fresh
  | finished k input now f a res q hf hres => exact hres.grows hf
  | retried => exact .refl
  | claimed k owner at₀ now a e ha => exact claimLease_grows ha
  | takenOver k owner at₀ now now' a f b res q ha hrun hown hf hres =>
    exact (claimLease_grows ha).trans (hres.grows hf)

theorem after_grows (p : PlanProjection) (run more : List Step) :
    Grows (after H plan p run).attempts (after H plan p (run ++ more)).attempts := by
  unfold after
  rw [exec_append]
  exact related (I := fun _ => True) (R := fun p q => Grows p.attempts q.attempts)
    (fun _ => .refl) (fun _ _ _ => .trans) trivial (fun _ _ _ _ => trivial)
    (fun p s _ _ => next_grows H plan p s) meets_true

theorem startedAfter_carries (s : Step) :
    Carries (StartedAfter H plan p₀ run) (StartedAfter H plan p₀ (run ++ [s]))
      (after H plan p₀ (run ++ [s])).attempts := by
  intro v t x hafter hx hp pre hpre hv
  rcases List.prefix_concat_iff.mp hpre with rfl | hpre
  · exact ⟨x, hx, hp⟩
  · exact hafter pre hpre hv

theorem startedAfter_follows (s : Step) :
    Follows (StartedAfter H plan p₀ (run ++ [s])) (after H plan p₀ run).attempts
      (after H plan p₀ (run ++ [s])).attempts := by
  intro v t x hnone hx hp pre hpre hv
  rcases List.prefix_concat_iff.mp hpre with rfl | ⟨rest, rfl⟩
  · exact ⟨x, hx, hp⟩
  · -- An attempt that is missing later was not there before.
    obtain ⟨a, ha⟩ := Option.isSome_iff_exists.mp hv
    obtain ⟨a', ha', -⟩ := after_grows H plan p₀ pre rest v a ha
    rw [hnone] at ha'
    cases ha'

end

theorem contracts_after (hnew : newProjection plan = .ok p₀) (run : List Step)
    (hrun : Meets (next H plan) (ContractStep plan) p₀ run) :
    Contracts (StartedAfter H plan p₀ run) (after H plan p₀ run).attempts
      (after H plan p₀ run).repairPlans := by
  induction run using List.reverseRecOn with
  | nil =>
    intro k r hr
    simp only [newProjection, then_ok, pure_ok] at hnew
    rw [← hnew.2.2.2] at hr
    simp [after] at hr
  | append_singleton run s ih =>
    obtain ⟨hrun, hs⟩ := meets_concat.mp hrun
    have hc := startedAfter_carries H plan p₀ run s
    have hf := startedAfter_follows H plan p₀ run s
    have hlast : after H plan p₀ (run ++ [s]) = next H plan (after H plan p₀ run) s := exec_concat
    rw [hlast] at hc hf ⊢
    exact (ih hrun).step hs hc hf

def Succeeded (p : PlanProjection) : Prop :=
  p.status = .terminal ∧ p.terminalOutcome = "succeeded"

def AllVerified (plans : GoMap RepairPlan) : Prop :=
  ∀ (k : String) (r : RepairPlan), plans[k]? = some r → r.state = .verified

theorem SameEnd.succeeded (h : SameEnd p q) (hq : Succeeded q) : Succeeded p :=
  ⟨h.1 ▸ hq.1, h.2 ▸ hq.2⟩

theorem allRepairsVerified_all (h : allRepairsVerified p = true) : AllVerified p.repairPlans := by
  intro k r hr
  have hall := GoMap.all_iff.mp h k r hr
  simp only [RepairPlan.allVerified, Bool.and_eq_true, beq_iff_eq] at hall
  exact hall.1.1.1

theorem failureOutcome_ne : failureOutcome s ≠ "succeeded" := by
  cases s <;> decide

/-- Only an exit with every contract verified ends the plan as succeeded. -/
theorem routeWithoutEdge_end (H : Host) (plan : RequirementExecutionPlan) (a : NodeAttempt)
    (event : String) (now : Time) (p : PlanProjection) :
    SameEnd p (routeWithoutEdge H plan a event now p).2 ∨
      (routeWithoutEdge H plan a event now p).1 = .ok () ∧
        (Succeeded (routeWithoutEdge H plan a event now p).2 → allRepairsVerified p = true) := by
  unfold routeWithoutEdge
  simp only
  split
  · exact .inr ⟨rfl, fun h => absurd h.1 (by simp [scheduleRetry])⟩
  · split
    · split
      · exact .inl ⟨rfl, rfl⟩
      · split
        · split
          · exact .inr ⟨rfl, fun h => absurd h.1 (by simp)⟩
          · exact .inr ⟨rfl, fun h => absurd h.2 (by simp [terminate])⟩
        · rename_i hverified
          exact .inr ⟨rfl, fun _ => by simpa using hverified⟩
    · split
      · exact .inr ⟨rfl, fun h => absurd h.2 failureOutcome_ne⟩
      · exact .inl ⟨rfl, rfl⟩

theorem route_end (H : Host) (plan : RequirementExecutionPlan) (a : NodeAttempt)
    (input : TransitionInput) (now : Time) (p : PlanProjection) :
    SameEnd p (route H plan a input now p).2 ∨ (route H plan a input now p).1 = .ok () ∧
      (Succeeded (route H plan a input now p).2 → allRepairsVerified p = true) := by
  unfold route
  split
  · exact .inr ⟨rfl, fun h => absurd h.2 (by simp [terminate])⟩
  · split
    · exact .inl ⟨rfl, rfl⟩
    · exact routeWithoutEdge_end ..
    · exact .inl (followEdge_sameEnd ..)
    · exact .inl followAll_sameEnd

theorem settle_succeeded (h : settle H plan f k input b mid = (res, q)) (hq : Succeeded q) :
    Succeeded mid ∨ AllVerified mid.repairPlans := by
  have hjoins := (shortCircuitJoins_reopens H plan.graphSnapshot b (commitFinish f k b mid)).rest
  have hcommit : SameEnd mid (shortCircuitJoins H plan.graphSnapshot b
    (commitFinish f k b mid)) := by
    rw [hjoins]; exact ⟨rfl, rfl⟩
  have hplans : (shortCircuitJoins H plan.graphSnapshot b (commitFinish f k b mid)).repairPlans =
      mid.repairPlans := by rw [hjoins]; rfl
  unfold settle at h
  simp only at h
  split at h
  · have hend := route_end H plan b input f.now
      (shortCircuitJoins H plan.graphSnapshot b (commitFinish f k b mid))
    split at h
    · rename_i e m hm
      rw [hm] at hend
      cases h
      -- The rollback restores the status, and a failed routing keeps the outcome.
      rcases hend with hend | ⟨hok, -⟩
      · exact .inl ⟨hq.1, (hcommit.trans hend).2 ▸ hq.2⟩
      · cases hok
    · rename_i u m hm
      rw [hm] at hend
      cases h
      rw [noteReason_eq] at hq
      rcases hend with hend | ⟨-, hend⟩
      · exact .inl ((hcommit.trans hend).succeeded hq)
      · exact .inr (hplans ▸ allRepairsVerified_all (hend hq))
  · cases h
    rw [noteReason_eq] at hq
    exact .inl (hcommit.succeeded hq)

theorem FinishResult.succeeded (h : FinishResult H plan p k input f res q) (hq : Succeeded q) :
    Succeeded p ∨ AllVerified q.repairPlans := by
  have hrepair : ∀ {res mid}, repairStage plan p f.attempt = (res, mid) → SameEnd p mid :=
    fun hr => by rw [(repairStage_result hr).rest]; exact ⟨rfl, rfl⟩
  cases h with
  | refused e q hr => exact .inl ((hrepair hr).succeeded hq)
  | kept a' mid m hr hm hs =>
    have hplans : m.repairPlans = mid.repairPlans := by rw [hm.rest]; rfl
    exact (settle_succeeded hs hq).imp (hrepair hr).succeeded
      fun hall => forall_noteReason (hplans ▸ hall) (fun _ _ _ h => h)
  | undone a' mid m e hr hm hs =>
    exact (settle_succeeded hs hq).imp (hrepair hr).succeeded id

/-- A call that ends the plan as succeeded leaves every contract verified. -/
theorem next_succeeded (plan : RequirementExecutionPlan) (hq : Succeeded (next H plan p s)) :
    Succeeded p ∨ AllVerified (next H plan p s).repairPlans := by
  have heff := call_effect H plan p s
  generalize s.op = op at heff
  generalize next H plan p s = q at heff hq
  generalize (s.call H plan p).1 = res at heff
  cases heff with
  | same => exact .inl hq
  | started args now n no hf => exact absurd hq.1 (by simp [Orchestration.started])
  | finished k input now f a res q hf hres => exact hres.succeeded hq
  | retried nodeID n hn hclosed =>
    refine absurd hq.1 ?_
    simp only [beq_iff_eq]
    split
    · simp
    · assumption
  | claimed => exact .inl hq
  | takenOver k owner at₀ now now' a f b res q ha hrun hown hf hres => exact hres.succeeded hq

/-- In every run whose passing finishes are sound: a verified contract names a
passed attempt of its target node and, for each verification node, a passed
attempt of that node started after the target had passed. And whenever the plan
came to end as succeeded, all its contracts were verified. -/
theorem repair_verification_sound (H : Host) (plan : RequirementExecutionPlan)
    (p₀ : PlanProjection) (hnew : newProjection plan = .ok p₀) (run : List Step)
    (hrun : Meets (next H plan) (ContractStep plan) p₀ run) :
    (∀ (k : String) (r : RepairPlan), (after H plan p₀ run).repairPlans[k]? = some r →
      r.state = .verified →
      (∃ t, (after H plan p₀ run).attempts[r.targetAttemptID]? = some t ∧
        t.nodeID = r.targetNodeID ∧ t.status = .passed) ∧
      ∀ node ∈ r.verificationNodeIDs, ∃ (v : String) (b : NodeAttempt),
        r.verificationAttempts[node]? = some v ∧ (after H plan p₀ run).attempts[v]? = some b ∧
        b.nodeID = node ∧ b.status = .passed ∧
        StartedAfter H plan p₀ run v r.targetAttemptID) ∧
    ∀ pre s, pre ++ [s] <+: run → Succeeded (after H plan p₀ (pre ++ [s])) →
      ¬ Succeeded (after H plan p₀ pre) →
      ∀ (k : String) (r : RepairPlan), (after H plan p₀ (pre ++ [s])).repairPlans[k]? = some r →
        r.state = .verified := by
  constructor
  · intro k r hr hs
    have hok := contracts_after hnew run hrun k r hr
    have hcheck : r.state.checking := by simp [hs]
    obtain ⟨t, ht, htn, htp⟩ := hok.target hcheck.past.1
    refine ⟨⟨t, ht, htn, htp hcheck.past.2⟩, fun node hnode => ?_⟩
    exact (hok.verified_all hs hnode).2
  · intro pre s _ hq hp
    have hlast : after H plan p₀ (pre ++ [s]) = next H plan (after H plan p₀ pre) s := exec_concat
    rw [hlast] at hq ⊢
    exact (next_succeeded plan hq).resolve_left hp

/-- The repair node `r` patches `t`, which `v` verifies; `x` runs `r` again. -/
def repairTwicePlan : RequirementExecutionPlan :=
  samplePlan {
    id := "g", version := 1, entryNodeIDs := ["r", "x"], exitNodeIDs := ["v"]
    nodes := [repairNode "r" "t" ["v"], agentNode "t", agentNode "v", agentNode "x"]
    edges := [successEdge "rt" "r" "t", successEdge "tv" "t" "v", successEdge "xr" "x" "r"] }

/-- The projection after some calls on the new projection. -/
def repairTwiceRun (run : List Step) : PlanProjection :=
  after sampleHost repairTwicePlan (sampleRun repairTwicePlan []) run

def repairSteps : List Step :=
  [startCall "r" "r1", finishCall "r1" "success" (repairResult "t" ["v"] 1),
    startCall "t" "t1", finishCall "t1" "success" {}, startCall "v" "v1"]

/-- A passing attempt of a given node, under a contract in the same state. -/
theorem sound_at (p : PlanProjection) (k node id target : String) (v : Option String)
    (s₀ : RepairLifecycle) (selection : Selection)
    (hattempt : (p.attempts[k]?).map (fun a => (a.nodeID, a.repairPlanID, a.repairState)) =
      some (node, id, s₀))
    (hkind : (plan.graphSnapshot.node node).kind ≠ .repair)
    (hcontract : (p.repairPlans[id]?).map
      (fun r => (r.state, r.targetAttemptID, r.verificationAttempts[node]?)) = some (s₀, target, v))
    (hnamed : (s₀ = .dispatched → target = k) ∧ (s₀ = .verifying → v = some k))
    (hev : input.result.evidenceIDs ≠ [])
    (hroute : ∀ s, routeSelection plan (stampAttempt 0 {
      nodeID := node, result := input.result, status := .passed, repairState := s }) input.event =
        .ok selection)
    (hspare : selection.Spare p) : ∀ a, p.attempts[k]? = some a → Sound plan p k a input := by
  intro a ha _
  rw [ha] at hattempt
  obtain ⟨rfl, rfl, rfl⟩ := hattempt
  refine ⟨fun hk => absurd hk hkind, fun _ => ⟨fun r hr => ?_, hev, fun s =>
    ⟨selection, ?_, hspare⟩⟩⟩
  · rw [hr] at hcontract
    simp only [Option.map_some, Option.some.injEq, Prod.mk.injEq] at hcontract
    obtain ⟨hs, rfl, rfl⟩ := hcontract
    exact ⟨fun h => ⟨hs.trans h, hnamed.1 h⟩, fun h => ⟨hs.trans h, hnamed.2 h⟩⟩
  · rw [← hroute s]
    unfold routeSelection
    congr 1
    refine matchEdges_congr ?_ ?_ ?_ _ <;> rfl

theorem repairSteps_meet :
    Meets (next sampleHost repairTwicePlan) (ContractStep repairTwicePlan)
      (sampleRun repairTwicePlan []) (repairSteps ++ [finishCall "v1" "success" {}]) := by
  refine ⟨trivial, fun a ha _ _ => ⟨fun _ => ?_, fun hd => ?_⟩, trivial, fun a ha _ => ?_, trivial,
    fun a ha _ => ?_, trivial⟩
  · intro k r hr _
    have hall : (repairTwiceRun (repairSteps.take 1)).repairPlans.all
        (fun _ r => r.state == .planned) = true := by decide +kernel
    simpa using GoMap.all_iff.mp hall k r hr
  · have hnode : ((repairTwiceRun (repairSteps.take 1)).attempts["r1"]?).map
        (·.nodeID) = some "r" := by decide +kernel
    rw [show (repairTwiceRun (repairSteps.take 1)).attempts["r1"]? = some a from ha] at hnode
    have hnode : a.nodeID = "r" := Option.some.inj hnode
    exact absurd (by rw [hnode]; decide) hd.1
  · exact sound_at (repairTwiceRun (repairSteps.take 3)) "t1" "t" "plan:repair:r1" "t1"
      none .dispatched (.single (successEdge "tv" "t" "v")) (by decide +kernel) (by decide)
      (by decide +kernel) (by decide) (by simp) (fun s => by cases s <;> rfl)
        (.inl (by decide)) a ha
  · exact sound_at (repairTwiceRun repairSteps) "v1" "v" "plan:repair:r1" "t1"
      (some "v1") .verifying .none (by decide +kernel) (by decide)
      (by decide +kernel) (by decide) (by simp) (fun s => by cases s <;> rfl) trivial a ha

theorem repair_verification_sound_once :
    ((sampleRun repairTwicePlan (repairSteps ++ [finishCall "v1" "success" {}])).repairPlans[
      "plan:repair:r1"]?).map (·.state) = some .verified ∧
    ∀ (k : String) (r : RepairPlan),
    (after sampleHost repairTwicePlan (sampleRun repairTwicePlan [])
      (repairSteps ++ [finishCall "v1" "success" {}])).repairPlans[k]? = some r →
      r.state = .verified → ∃ t, (after sampleHost repairTwicePlan (sampleRun repairTwicePlan [])
        (repairSteps ++ [finishCall "v1" "success" {}])).attempts[r.targetAttemptID]? = some t ∧
        t.nodeID = r.targetNodeID ∧ t.status = .passed :=
  ⟨by decide +kernel, fun k r hr hs => ((repair_verification_sound sampleHost repairTwicePlan
    (sampleRun repairTwicePlan []) (sampleRun_new (by decide +kernel))
    (repairSteps ++ [finishCall "v1" "success" {}]) repairSteps_meet).1 k r hr hs).1⟩

/-- The second pass of `r` refreshes the contract while `v1` verifies the first
patch: the target is forgotten, the lifecycle is kept, and `v1` then verifies a
contract that names no target and no verification attempt. The plan succeeds. -/
theorem verified_without_target :
    let p := sampleRun repairTwicePlan (repairSteps ++ [startCall "x" "x1",
      finishCall "x1" "success" {}, startCall "r" "r2",
      finishCall "r2" "success" (repairResult "t" ["v"] 1), finishCall "v1" "success" {}])
    (newProjection repairTwicePlan).toBool = true ∧
    (p.repairPlans["plan:repair:r1"]?).map (fun r => (r.state, r.verificationNodeIDs,
      p.attempts[r.targetAttemptID]?.isSome, r.verificationAttempts["v"]?)) =
        some (.verified, ["v"], false, none) ∧
    p.status = .terminal ∧ p.terminalOutcome = "succeeded" := by
  decide +kernel

end Adro.Orchestration
