import Adro.Orchestration.Runs

/-!
# What the repair stage writes

`repairStage_effect` lists the six ways the repair stage of an admitted finish
can end without an error, each with the contract it leaves.
-/

namespace Adro.Orchestration

open Adro.Go

/-- The attempt belongs to a contract whose lifecycle it drives. -/
def NodeAttempt.driving (plan : RequirementExecutionPlan) (a : NodeAttempt) : Prop :=
  (plan.graphSnapshot.node a.nodeID).kind ≠ .repair ∧ a.repairPlanID ≠ "" ∧
    (a.repairState = .dispatched ∨ a.repairState = .verifying)

section
variable (hf : FinishFacts plan p k input now f a)
include hf

theorem FinishFacts.link :
    f.attempt.repairPlanID = a.repairPlanID ∧ f.attempt.repairState = a.repairState := by
  rw [hf.attempt]
  exact ⟨rfl, rfl⟩

theorem FinishFacts.driving : f.attempt.driving plan ↔ a.driving plan := by
  unfold NodeAttempt.driving
  rw [hf.nodeID, hf.link.1, hf.link.2]

theorem FinishFacts.passing
    (hp : f.attempt.status = .passed) : eventStatus input.event = some .passed := by
  rw [hf.event, hp]

end

/-- The contract of a new round, or the exhausted one. -/
inductive RoundFailed (p : PlanProjection) (r : RepairPlan) : RepairPlan → PlanProjection → Prop
  | again (r₁ r₂ : RepairPlan) (h₁ : setRepairState r .failed = some r₁)
    (left : r₁.round < r₁.maxRounds) (h₂ : setRepairState r₁.nextRound .planned = some r₂) :
    RoundFailed p r r₂ (resetRepairRound p r₁.nextRound)
  | last (r₁ r₂ : RepairPlan) (h₁ : setRepairState r .failed = some r₁)
    (left : ¬ r₁.round < r₁.maxRounds) (h₂ : setRepairState r₁ .exhausted = some r₂) :
    RoundFailed p r r₂ p

inductive RepairEffect (plan : RequirementExecutionPlan) (p : PlanProjection) (a : NodeAttempt) :
    NodeAttempt → PlanProjection → Prop
  /-- Nothing is written: the attempt drives no contract, or is parked. -/
  | idle (s : RepairLifecycle)
    (planning : (plan.graphSnapshot.node a.nodeID).kind = .repair → a.status ≠ .passed)
    (driving : a.driving plan → a.status ≠ .passed ∧ a.status.unsuccessful = false) :
    RepairEffect plan p a { a with repairState := s } p
  /-- A transient failure keeps the contract for a retry. -/
  | transient (r : RepairPlan) (driving : (plan.graphSnapshot.node a.nodeID).kind ≠ .repair)
    (contract : p.repairPlans[a.repairPlanID]? = some r)
    (retryable : isRetryableRepairProviderFailure a = true) :
    RepairEffect plan p a a { p with repairPlans := p.repairPlans.insert r.id r }
  | patched (r r₁ : RepairPlan) (driving : a.driving plan) (state : a.repairState = .dispatched)
    (passed : a.status = .passed) (contract : p.repairPlans[a.repairPlanID]? = some r)
    (next : setRepairState r .patched = some r₁) :
    RepairEffect plan p a { a with repairState := .patched } { p with
      repairPlans := p.repairPlans.insert r₁.id { r₁ with
        patchArtifactIDs := appendUnique r₁.patchArtifactIDs a.outputArtifacts } }
  | verified (r r₁ : RepairPlan) (s : RepairLifecycle) (driving : a.driving plan)
    (state : a.repairState = .verifying)
    (passed : a.status = .passed) (contract : p.repairPlans[a.repairPlanID]? = some r)
    (complete : s = if (r.verifiedNodes.insert a.nodeID true).size == r.verificationNodeIDs.length
      then .verified else .verifying)
    (next : setRepairState { r with
      verifiedNodes := r.verifiedNodes.insert a.nodeID true
      verificationArtifactIDs := appendUnique r.verificationArtifactIDs a.outputArtifacts } s =
        some r₁) :
    RepairEffect plan p a { a with repairState := s } { p with
      repairPlans := p.repairPlans.insert r₁.id r₁ }
  | failed (r r₂ : RepairPlan) (s : RepairLifecycle) (q : PlanProjection) (driving : a.driving plan)
    (unsuccessful : a.status.unsuccessful = true)
    (contract : p.repairPlans[a.repairPlanID]? = some r) (round : RoundFailed p r r₂ q) :
    RepairEffect plan p a { a with repairState := s } { q with
      repairPlans := q.repairPlans.insert r₂.id r₂ }
  | planned (fresh : RepairPlan) (kind : (plan.graphSnapshot.node a.nodeID).kind = .repair)
    (passed : a.status = .passed)
    (created : createRepairPlan p plan { a with repairState := .planned } = .ok fresh) :
    RepairEffect plan p a (recordRepairPlan p { a with repairState := .planned } fresh).1
      (recordRepairPlan p { a with repairState := .planned } fresh).2

theorem failRepairRound_ok (h : failRepairRound p r reopen = (.ok s, q)) :
    ∃ r₂ m, RoundFailed p r r₂ m ∧ q = { m with repairPlans := m.repairPlans.insert r₂.id r₂ } := by
  unfold failRepairRound at h
  simp only at h
  split at h
  · cases h
  · rename_i r₁ h₁
    split at h
    · rename_i left
      split at h
      · cases h
      · rename_i r₂ h₂
        cases h
        exact ⟨r₂, _, .again r₁ r₂ h₁ left h₂, rfl⟩
    · rename_i left
      split at h
      · cases h
      · rename_i r₂ h₂
        cases h
        exact ⟨r₂, p, .last r₁ r₂ h₁ left h₂, rfl⟩

theorem advance_effect (hkind : (plan.graphSnapshot.node a.nodeID).kind ≠ .repair)
    (h : advanceRepairAttemptState p a = (.ok s, q)) :
    RepairEffect plan p a { a with repairState := s } q := by
  have hplanning : (plan.graphSnapshot.node a.nodeID).kind = .repair → a.status ≠ .passed :=
    fun hk => absurd hk hkind
  unfold advanceRepairAttemptState at h
  split at h
  · rename_i hid
    cases h
    exact .idle _ hplanning fun hd => absurd (by simpa using hid) hd.2.1
  · rename_i hid
    have hid : a.repairPlanID ≠ "" := by simpa using hid
    split at h
    · cases h
    · rename_i r hr
      split at h
      · rename_i hret
        cases h
        exact .transient r hkind hr hret
      · have hstays : a.driving plan → ¬ (a.status == .passed) = true → ∀ reopen,
            (if a.status.unsuccessful then failRepairRound p r reopen
              else (.ok a.repairState, p)) = (.ok s, q) →
            RepairEffect plan p a { a with repairState := s } q := by
          intro hd hp reopen h
          split at h
          · rename_i hu
            obtain ⟨r₂, m, hround, rfl⟩ := failRepairRound_ok h
            exact .failed r r₂ s m hd hu hr hround
          · rename_i hu
            cases h
            exact .idle _ hplanning fun _ => ⟨by simpa using hp, by simpa using hu⟩
        split at h
        · rename_i hst
          have hd : a.driving plan := ⟨hkind, hid, .inl hst⟩
          split at h
          · rename_i hp
            unfold passTarget at h
            split at h
            · cases h
            · rename_i r₁ hnext
              cases h
              exact .patched r r₁ hd hst (by simpa using hp) hr hnext
          · rename_i hp
            exact hstays hd hp _ h
        · rename_i hst
          have hd : a.driving plan := ⟨hkind, hid, .inr hst⟩
          split at h
          · rename_i hp
            unfold passVerification at h
            simp only at h
            split at h
            · cases h
            · rename_i r₁ hnext
              cases h
              exact .verified r r₁ _ hd hst (by simpa using hp) hr rfl hnext
          · rename_i hp
            exact hstays hd hp _ h
        · rename_i hne hne'
          cases h
          exact .idle _ hplanning fun hd => (hd.2.2.elim hne hne').elim

theorem repairStage_effect (h : repairStage plan p a = (.ok a', q)) :
    RepairEffect plan p a a' q := by
  unfold repairStage at h
  split at h
  · rename_i hkind
    have hkind : (plan.graphSnapshot.node a.nodeID).kind = .repair := by simpa using hkind
    have hnot : a.driving plan → a.status ≠ .passed ∧ a.status.unsuccessful = false :=
      fun hd => absurd hkind hd.1
    split at h
    · rename_i hp
      unfold planRepair at h
      simp only at h
      split at h
      · cases h
      · split at h
        · cases h
        · rename_i fresh hcreate
          cases h
          exact .planned fresh hkind (by simpa using hp) hcreate
    · rename_i hp
      have hp : a.status ≠ .passed := by simpa using hp
      split at h
      · cases h; exact .idle _ (fun _ => hp) hnot
      · cases h; exact .idle _ (fun _ => hp) hnot
  · rename_i hkind
    have hkind : (plan.graphSnapshot.node a.nodeID).kind ≠ .repair := by simpa using hkind
    split at h
    · split at h
      · cases h
      · rename_i s q' hadv
        cases h
        exact advance_effect hkind hadv
    · rename_i hs
      cases h
      refine .idle _ (fun hk => absurd hk hkind) fun hd => ?_
      have hs : a.repairState = .unset := by simpa using hs
      rcases hd.2.2 with h | h <;> rw [hs] at h <;> cases h

structure Drafted (p : PlanProjection) (plan : RequirementExecutionPlan) (a : NodeAttempt)
    (r : RepairPlan) : Prop where
  id : r.id = plan.id ++ ":repair:" ++ a.id
  plan : r.planID = plan.id
  author : r.repairNodeID = a.nodeID ∧ r.repairAttemptID = a.id ∧ r.repairAttemptIDs = [a.id]
  target : r.targetNodeID ≠ "" ∧ p.nodes.contains r.targetNodeID = true
  verification : r.verificationNodeIDs = repairVerificationNodes a ∧ r.verificationNodeIDs ≠ [] ∧
    ∀ id ∈ r.verificationNodeIDs, p.nodes.contains id = true
  rounds : r.round = 1 ∧ 1 ≤ r.maxRounds ∧ r.maxRounds = intValue (a.result.fields["max_rounds"]?)
  planned : r.state = .planned ∧ r.stateHistory = [.planned]
  unbound : r.targetAttemptID = "" ∧ r.verificationAttempts = ∅ ∧ r.verifiedNodes = ∅

theorem createRepairPlan_ok (h : createRepairPlan p plan a = .ok r) : Drafted p plan a r := by
  unfold createRepairPlan at h
  simp only [then_ok, ensure_ok, eachOk_ok] at h
  obtain ⟨hc, ht, hv, -, -, h⟩ := h
  cases h
  simp only [Bool.not_eq_true', Bool.or_eq_false_iff, beq_eq_false_iff_ne, decide_eq_false_iff_not,
    not_lt, List.isEmpty_eq_false_iff] at hc
  obtain ⟨⟨htarget, hne⟩, hrounds⟩ := hc
  exact ⟨rfl, rfl, ⟨rfl, rfl, rfl⟩, ⟨htarget, ht⟩, ⟨rfl, hne, hv⟩,
    ⟨rfl, hrounds, rfl⟩, ⟨rfl, rfl⟩, ⟨rfl, rfl, rfl⟩⟩

/-- Whether the passing repair attempt refreshes an open contract or records a
new one; it may also find itself linked to another node's contract, and then
records nothing. -/
theorem recordRepairPlan_plans (p : PlanProjection) (a : NodeAttempt) (fresh : RepairPlan) :
    (∃ k existing, p.repairPlans[k]? = some existing ∧ existing.openFor a.nodeID = true ∧
      (recordRepairPlan p a fresh).2 =
        { p with repairPlans := p.repairPlans.insert k (existing.refresh fresh k a.id) }) ∨
    (recordRepairPlan p a fresh).2 =
      { p with repairPlans := p.repairPlans.insert fresh.id fresh } ∨
    (recordRepairPlan p a fresh).2 = p := by
  unfold recordRepairPlan
  split
  · rename_i k existing hfind
    obtain ⟨hk, hopen⟩ := GoMap.find_some hfind
    exact .inl ⟨k, existing, hk, hopen, rfl⟩
  · split
    · exact .inr (.inl rfl)
    · exact .inr (.inr rfl)

end Adro.Orchestration
