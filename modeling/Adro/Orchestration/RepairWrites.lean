import Adro.Orchestration.RepairLaws
import Adro.Orchestration.Rollback

/-!
# When the repair stage writes nothing

Contracts are stored under their own id in every projection that is reached. Under
that invariant `repairStage_untouched` says for which attempts the repair stage of a
finish leaves the projection as it was.
-/

namespace Adro.Orchestration

open Adro.Go Adro.Runs

section Keyed

variable {H : Host} {plan : RequirementExecutionPlan} {p q mid : PlanProjection}
    {a a' : NodeAttempt}
  {r r' : RepairPlan}

/-- Contracts are stored under their own id. -/
def Keyed (plans : GoMap RepairPlan) : Prop :=
  ∀ (k : String) (r : RepairPlan), plans[k]? = some r → r.id = k

theorem Keyed.set (h : Keyed plans) (hr : r.id = k) :
    Keyed (plans.insert k r) := GoMap.forall_set h hr

theorem setRepairState_id (h : setRepairState r state = some r') : r'.id = r.id := by
  obtain ⟨history, rfl⟩ := setRepairState_eq h
  rfl

theorem RoundFailed.id (h : RoundFailed p r r' q) : r'.id = r.id := by
  cases h with
  | again r₁ _ h₁ _ h₂ =>
    have hid : r₁.id = r.id := setRepairState_id h₁
    exact (setRepairState_id h₂).trans hid
  | last r₁ _ h₁ _ h₂ => exact (setRepairState_id h₂).trans (setRepairState_id h₁)

theorem RoundFailed.plans (h : RoundFailed p r r' q) : q.repairPlans = p.repairPlans := by
  cases h with
  | again => rw [(resetRepairRound_reopens p _).rest]
  | last => rfl

theorem RepairEffect.keyed (h : RepairEffect plan p a a' q) (hp : Keyed p.repairPlans) :
    Keyed q.repairPlans := by
  cases h with
  | idle => exact hp
  | transient r => exact hp.set rfl
  | patched r r₁ => exact hp.set rfl
  | verified r r₁ => exact hp.set rfl
  | failed r r₂ s q driving unsuccessful contract round =>
    rw [round.plans]
    exact hp.set rfl
  | planned fresh =>
    unfold recordRepairPlan
    split
    · exact hp.set rfl
    · split
      · exact hp.set rfl
      · exact hp

/-- A refused verification is entered in its contract. -/
theorem advance_refused (h : advanceRepairAttemptState p a = (.error e, q)) : q = p ∨
    ∃ r verified, p.repairPlans[a.repairPlanID]? = some r ∧ q = { p with
      repairPlans :=
        p.repairPlans.insert a.repairPlanID { r with verifiedNodes := verified } } := by
  unfold advanceRepairAttemptState at h
  split at h
  · cases h
  · split at h
    · cases h
      exact .inl rfl
    · rename_i r hr
      split at h
      · cases h
      · split at h
        · split at h
          · unfold passTarget at h
            split at h
            · cases h
              exact .inl rfl
            · cases h
          · split at h
            · exact .inl (failRepairRound_error h)
            · cases h
        · split at h
          · unfold passVerification at h
            simp only at h
            split at h
            · cases h
              exact .inr ⟨r, _, hr, rfl⟩
            · cases h
          · split at h
            · exact .inl (failRepairRound_error h)
            · cases h
        · cases h

theorem repairStage_refused (h : repairStage plan p a = (.error e, q)) (hp : Keyed p.repairPlans) :
    Keyed q.repairPlans := by
  unfold repairStage at h
  split at h
  · split at h
    · rw [planRepair_error h]
      exact hp
    · split at h <;> cases h
  · split at h
    · split at h
      · rename_i hadvance
        cases h
        rcases advance_refused hadvance with rfl | ⟨r, verified, hr, rfl⟩
        · exact hp
        · exact hp.set (hp _ r hr)
      · cases h
    · cases h

theorem currentHistory_length : r.stateHistory.length ≤ r.currentHistory.length := by
  unfold RepairPlan.currentHistory
  cases r.stateHistory with
  | nil => exact Nat.zero_le _
  | cons =>
    simp only [List.isEmpty_cons, Bool.false_eq_true, if_false]
    split <;> simp

theorem setRepairState_lengthens (h : setRepairState r state = some r') :
    r.stateHistory.length ≤ r'.stateHistory.length ∧
      (r.state ≠ state → r.stateHistory.length < r'.stateHistory.length) := by
  have hle := currentHistory_length (r := r)
  unfold setRepairState at h
  split at h
  · cases h
  · split at h
    · cases h
      simp
    · split at h
      · cases h
      · split at h
        · cases h
          simp only [List.length_append, List.length_singleton]
          omega
        · rename_i hsame
          cases h
          exact ⟨hle, fun hne => absurd (by simpa using hsame) hne⟩

theorem RoundFailed.history (h : RoundFailed p r r' q) :
    r.stateHistory.length < r'.stateHistory.length := by
  cases h with
  | again r₁ _ h₁ _ h₂ =>
    have hfailed : r₁.nextRound.state ≠ .planned := by
      obtain ⟨history, rfl⟩ := setRepairState_eq h₁
      exact nofun
    exact (setRepairState_lengthens h₁).1.trans_lt ((setRepairState_lengthens h₂).2 hfailed)
  | last r₁ _ h₁ _ h₂ =>
    have hfailed : r₁.state ≠ .exhausted := by
      obtain ⟨history, rfl⟩ := setRepairState_eq h₁
      exact nofun
    exact (setRepairState_lengthens h₁).1.trans_lt ((setRepairState_lengthens h₂).2 hfailed)

/-- A repair stage that keeps the contracts keeps the projection. -/
theorem repairStage_same (h : repairStage plan p a = (.ok a', mid)) (hp : Keyed p.repairPlans)
    (hsame : mid.repairPlans = p.repairPlans) : mid = p := by
  cases repairStage_effect h with
  | idle => rfl
  | transient | patched | verified =>
    simp only at hsame
    rw [hsame]
  | failed r r₂ s q driving unsuccessful contract round =>
    simp only [round.plans, GoMap.set_eq_self] at hsame
    rw [round.id, hp _ r contract, contract] at hsame
    have hlt := round.history
    rw [Option.some.inj hsame] at hlt
    exact absurd hlt (Nat.lt_irrefl _)
  | planned fresh =>
    unfold recordRepairPlan at hsame ⊢
    split
    · rename_i hfound
      simp only [hfound] at hsame
      rw [hsame]
    · rename_i hnone
      simp only [hnone] at hsame
      split
      · rename_i hid
        rw [if_pos hid] at hsame
        simp only at hsame
        rw [hsame]
      · rfl

theorem FinishResult.keyed (h : FinishResult H plan p k input f res q) (hp : Keyed p.repairPlans) :
    Keyed q.repairPlans := by
  cases h with
  | refused e q hq => exact repairStage_refused hq hp
  | kept a' mid m hr hm hs =>
    have hmid := (repairStage_effect hr).keyed hp
    have hm' : Keyed m.repairPlans := by
      rw [hm.rest]
      exact hmid
    unfold noteReason
    split
    · rename_i r hr
      split
      · exact hm'
      · exact hm'.set (hm' _ r hr)
    · exact hm'
  | undone a' mid m e hr hm hs => exact (repairStage_effect hr).keyed hp

theorem next_keyed (h : Keyed p.repairPlans) : Keyed (next H plan p s).repairPlans := by
  have heff := call_effect H plan p s
  generalize s.op = op, next H plan p s = q, (s.call H plan p).1 = res at heff
  cases heff with
  | same => exact h
  | started args now n no facts =>
    refine started_plans h fun a r r₁ _ hr hj => ?_
    rw [← h _ r hr]
    cases hj with
    | planned => rfl
    | target _ _ _ hnext => exact (setRepairState_id hnext :)
    | verification _ _ _ hnext => exact (setRepairState_id hnext :)
  | finished k input now f a res q hf hres => exact hres.keyed h
  | retried => exact h
  | claimed => exact h
  | takenOver k owner at₀ now now' a f b res q ha hrun hown hf hres => exact hres.keyed h

end Keyed

section Untouched

variable {plan : RequirementExecutionPlan} {p : PlanProjection} {a : NodeAttempt} {r : RepairPlan}

/-- The repair stage has nothing to write: a passing repair attempt finds its plan recorded, and
the contract an attempt drives has taken its result in before or is closed to it. -/
structure Untouched (plan : RequirementExecutionPlan) (p : PlanProjection) (a : NodeAttempt) :
    Prop where
  planned : (plan.graphSnapshot.node a.nodeID).kind = .repair → a.status = .passed →
    resolveRepairTarget plan.graphSnapshot (plan.graphSnapshot.node a.nodeID) ≠ "" →
    ∀ fresh, createRepairPlan p plan { a with repairState := .planned } = .ok fresh →
      match p.repairPlans.find fun _ r => r.openFor a.nodeID with
      | some (id, r) => r.refresh fresh id a.id = r
      | none => a.repairPlanID ≠ ""
  failed : a.driving plan → isRetryableRepairProviderFailure a = false →
    a.status.unsuccessful = true →
    ∀ r, p.repairPlans[a.repairPlanID]? = some r → setRepairState r .failed = none
  patched : a.driving plan → a.repairState = .dispatched → a.status = .passed →
    ∀ r, p.repairPlans[a.repairPlanID]? = some r → ∀ r', setRepairState r .patched = some r' →
      { r' with patchArtifactIDs := appendUnique r'.patchArtifactIDs a.outputArtifacts } = r
  verified : a.driving plan → a.repairState = .verifying → a.status = .passed →
    ∀ r, p.repairPlans[a.repairPlanID]? = some r → r.verifiedNodes[a.nodeID]? = some true ∧
      ∀ r', setRepairState
        { r with
          verificationArtifactIDs := appendUnique r.verificationArtifactIDs a.outputArtifacts }
        (if r.verifiedNodes.size == r.verificationNodeIDs.length then .verified else .verifying) =
          some r' → r' = r

theorem stored_same :
    { p with repairPlans := p.repairPlans.insert k r } = p ↔ p.repairPlans[k]? = some r := by
  rw [← GoMap.set_eq_self]
  exact ⟨congrArg PlanProjection.repairPlans, fun h => by rw [h]⟩

theorem failRepairRound_same (hr : p.repairPlans[r.id]? = some r) :
    (failRepairRound p r reopen).2 = p ↔ setRepairState r .failed = none := by
  cases hfail : setRepairState r .failed with
  | none => simp [failRepairRound, hfail]
  | some r₁ =>
    refine iff_of_false (fun hsame => ?_) nofun
    obtain ⟨s, hok⟩ : ∃ s, (failRepairRound p r reopen).1 = .ok s := by
      obtain ⟨history, rfl⟩ := setRepairState_eq hfail
      unfold failRepairRound
      rw [hfail]
      dsimp only
      split <;> exact ⟨_, rfl⟩
    obtain ⟨r₂, m, hround, hq⟩ := failRepairRound_ok (Prod.ext hok rfl)
    have hplans := congrArg PlanProjection.repairPlans (hq.symm.trans hsame)
    simp only [hround.plans, GoMap.set_eq_self] at hplans
    rw [hround.id, hr] at hplans
    exact absurd (Option.some.inj hplans ▸ hround.history) (Nat.lt_irrefl _)

theorem passTarget_same (hr : p.repairPlans[r.id]? = some r) :
    (passTarget p a r).2 = p ↔ ∀ r', setRepairState r .patched = some r' →
      { r' with patchArtifactIDs := appendUnique r'.patchArtifactIDs a.outputArtifacts } = r := by
  unfold passTarget
  split
  · rename_i hnone
    simp [hnone]
  · rename_i r' hnext
    simp only [stored_same, setRepairState_id hnext, hr, hnext, Option.some.injEq, forall_eq']
    exact eq_comm

theorem passVerification_same (hr : p.repairPlans[a.repairPlanID]? = some r)
    (hid : r.id = a.repairPlanID) :
    (passVerification p a r).2 = p ↔ r.verifiedNodes[a.nodeID]? = some true ∧ ∀ r', setRepairState
      { r with verificationArtifactIDs := appendUnique r.verificationArtifactIDs a.outputArtifacts }
      (if r.verifiedNodes.size == r.verificationNodeIDs.length then .verified else .verifying) =
        some r' → r' = r := by
  by_cases hentered : r.verifiedNodes[a.nodeID]? = some true
  · have hsame := GoMap.set_get_self hentered
    unfold passVerification
    simp only [hsame, hentered, true_and]
    split
    · rename_i hnone
      exact iff_of_true (stored_same.2 hr) fun r' h => by cases hnone.symm.trans h
    · rename_i r' hnext
      have hr' : r'.id = a.repairPlanID := (setRepairState_id hnext).trans hid
      simp only [stored_same, hr', hr, hnext, Option.some.injEq, forall_eq']
      exact eq_comm
  · refine iff_of_false (fun hsame => hentered ?_) fun h => hentered h.1
    -- Accepted or refused, the node is entered in the contract that is stored.
    obtain ⟨r', hstored, hnodes⟩ :
      ∃ r', (passVerification p a r).2.repairPlans[a.repairPlanID]? = some r' ∧
        r'.verifiedNodes = r.verifiedNodes.insert a.nodeID true := by
      unfold passVerification
      dsimp only
      split
      · exact ⟨_, Std.ExtTreeMap.getElem?_insert_self, rfl⟩
      · rename_i r' hnext
        have hr' : r'.id = a.repairPlanID := (setRepairState_id hnext).trans hid
        have hnodes : r'.verifiedNodes = r.verifiedNodes.insert a.nodeID true := by
          obtain ⟨history, rfl⟩ := setRepairState_eq hnext
          rfl
        exact ⟨r', by rw [hr', Std.ExtTreeMap.getElem?_insert_self], hnodes⟩
    rw [hsame, hr] at hstored
    cases hstored
    rw [hnodes, Std.ExtTreeMap.getElem?_insert_self]

theorem planRepair_same : (planRepair plan p a).2 = p ↔
    (resolveRepairTarget plan.graphSnapshot (plan.graphSnapshot.node a.nodeID) ≠ "" →
    ∀ fresh, createRepairPlan p plan { a with repairState := .planned } = .ok fresh →
      match p.repairPlans.find fun _ r => r.openFor a.nodeID with
      | some (id, r) => r.refresh fresh id a.id = r
      | none => a.repairPlanID ≠ "") := by
  unfold planRepair
  dsimp only
  split
  · rename_i hrefused
    refine iff_of_true rfl fun htarget fresh hfresh => ?_
    have hdraft := (createRepairPlan_ok hfresh).verification
    have hnone : repairVerificationNodes a = [] := by simpa [htarget] using hrefused
    exact absurd (hdraft.1.trans hnone) hdraft.2.1
  · rename_i hposed
    have htarget : resolveRepairTarget plan.graphSnapshot (plan.graphSnapshot.node a.nodeID) ≠ "" :=
      fun h => hposed (by simp [h])
    split
    · rename_i hcreate
      simp [hcreate]
    · rename_i fresh hfresh
      simp only [hfresh, Except.ok.injEq, forall_eq', htarget, ne_eq,
        not_false_eq_true, forall_const]
      unfold recordRepairPlan
      cases hfind : p.repairPlans.find fun _ r => r.openFor a.nodeID with
      | some found =>
        simp only [stored_same, (GoMap.find_some hfind).1, Option.some.injEq]
        exact eq_comm
      | none =>
        have hdraft := createRepairPlan_ok hfresh
        dsimp only
        split
        · rename_i hlink
          refine iff_of_false (fun hsame => ?_) (by simpa using hlink)
          have hopen := GoMap.find_none.1 hfind _ _ (stored_same.1 hsame)
          simp [RepairPlan.openFor, hdraft.author.1, hdraft.planned.1] at hopen
        · rename_i hlink
          exact iff_of_true rfl (by simpa using hlink)

theorem Untouched.idle (hplan : (plan.graphSnapshot.node a.nodeID).kind = .repair →
    a.status ≠ .passed)
    (hdrive : ¬ a.driving plan) : Untouched plan p a :=
  ⟨fun hkind h => absurd h (hplan hkind), fun h => absurd h hdrive, fun h => absurd h hdrive,
    fun h => absurd h hdrive⟩

section Contract

variable (hkind : (plan.graphSnapshot.node a.nodeID).kind ≠ .repair)
  (hr : p.repairPlans[a.repairPlanID]? = some r)
include hkind hr

/-- What is left to look at once the contract is known. -/
theorem Untouched.under
    (failed : isRetryableRepairProviderFailure a = false → a.status.unsuccessful = true →
      setRepairState r .failed = none)
    (patched : a.repairState = .dispatched → a.status = .passed →
      ∀ r', setRepairState r .patched = some r' →
        { r' with patchArtifactIDs := appendUnique r'.patchArtifactIDs a.outputArtifacts } = r)
    (verified : a.repairState = .verifying → a.status = .passed → (passVerification p a r).2 = p)
    (hid : r.id = a.repairPlanID) : Untouched plan p a := by
  have honly (r' : RepairPlan) (h : p.repairPlans[a.repairPlanID]? = some r') : r = r' :=
    Option.some.inj (hr.symm.trans h)
  exact ⟨fun h => absurd h hkind, fun _ hretry hbad r' h => honly r' h ▸ failed hretry hbad,
    fun _ hstate hpassed r' h => honly r' h ▸ patched hstate hpassed,
    fun _ hstate hpassed r' h => honly r' h ▸
      (passVerification_same hr hid).1 (verified hstate hpassed)⟩

variable (hid : r.id = a.repairPlanID)
include hid

/-- A target and a verification that did not pass end the round in the same way. -/
theorem endRound_untouched (hd : a.driving plan)
    (hretry : isRetryableRepairProviderFailure a = false) (hfailed : a.status ≠ .passed) :
    (if a.status.unsuccessful then failRepairRound p r reopen
      else (.ok a.repairState, p)).2 = p ↔ Untouched plan p a := by
  split
  · rename_i hbad
    rw [failRepairRound_same (hid ▸ hr)]
    exact ⟨fun h => .under hkind hr (fun _ _ => h) (fun _ h => absurd h hfailed)
      (fun _ h => absurd h hfailed) hid, fun h => h.failed hd hretry hbad r hr⟩
  · rename_i hgood
    exact iff_of_true rfl (.under hkind hr (fun _ h => absurd h hgood) (fun _ h => absurd h hfailed)
      (fun _ h => absurd h hfailed) hid)

theorem passTarget_untouched (hd : a.driving plan) (hstate : a.repairState = .dispatched)
    (hpassed : a.status = .passed) : (passTarget p a r).2 = p ↔ Untouched plan p a := by
  rw [passTarget_same (hid ▸ hr)]
  exact ⟨fun h => .under hkind hr (fun _ h => by rw [hpassed] at h; cases h) (fun _ _ => h)
    (fun h => by cases hstate.symm.trans h) hid, fun h => h.patched hd hstate hpassed r hr⟩

theorem passVerification_untouched (hd : a.driving plan) (hstate : a.repairState = .verifying)
    (hpassed : a.status = .passed) : (passVerification p a r).2 = p ↔ Untouched plan p a := by
  refine ⟨fun h => .under hkind hr (fun _ h => by rw [hpassed] at h; cases h)
    (fun h => by cases hstate.symm.trans h) (fun _ _ => h) hid, fun h => ?_⟩
  exact (passVerification_same hr hid).2 (h.verified hd hstate hpassed r hr)

end Contract

theorem advance_untouched (hkind : (plan.graphSnapshot.node a.nodeID).kind ≠ .repair)
    (hp : Keyed p.repairPlans) : (advanceRepairAttemptState p a).2 = p ↔ Untouched plan p a := by
  have hplan : (plan.graphSnapshot.node a.nodeID).kind = .repair → a.status ≠ .passed :=
    fun h => absurd h hkind
  unfold advanceRepairAttemptState
  split
  · rename_i hid
    exact iff_of_true rfl (.idle hplan fun hd => hd.2.1 (by simpa using hid))
  rename_i hlinked
  have hlinked : a.repairPlanID ≠ "" := by simpa using hlinked
  cases hr : p.repairPlans[a.repairPlanID]? with
  | none =>
    have hno : ∀ r, p.repairPlans[a.repairPlanID]? ≠ some r := fun r h => by cases hr.symm.trans h
    exact iff_of_true rfl ⟨fun h => absurd h hkind, fun _ _ _ r h => absurd h (hno r),
      fun _ _ _ r h => absurd h (hno r), fun _ _ _ r h => absurd h (hno r)⟩
  | some r =>
    have hid : r.id = a.repairPlanID := hp _ r hr
    dsimp only
    split
    · rename_i hretry
      -- A provider failure that is retried stores the contract as it is.
      have hfailed : a.status ≠ .passed :=
        fun h => by simp [isRetryableRepairProviderFailure, h] at hretry
      exact iff_of_true (stored_same.2 (hid ▸ hr)) (.under hkind hr (fun h => by simp [hretry] at h)
        (fun _ h => absurd h hfailed) (fun _ h => absurd h hfailed) hid)
    rename_i hretry
    have hretry : isRetryableRepairProviderFailure a = false := by simpa using hretry
    split
    · rename_i hstate
      have hd : a.driving plan := ⟨hkind, hlinked, .inl hstate⟩
      by_cases hpassed : a.status = .passed
      · rw [if_pos (by simpa using hpassed)]
        exact passTarget_untouched hkind hr hid hd hstate hpassed
      · rw [if_neg (by simpa using hpassed)]
        exact endRound_untouched hkind hr hid hd hretry hpassed
    · rename_i hstate
      have hd : a.driving plan := ⟨hkind, hlinked, .inr hstate⟩
      by_cases hpassed : a.status = .passed
      · rw [if_pos (by simpa using hpassed)]
        exact passVerification_untouched hkind hr hid hd hstate hpassed
      · rw [if_neg (by simpa using hpassed)]
        exact endRound_untouched hkind hr hid hd hretry hpassed
    · rename_i hne hne'
      exact iff_of_true rfl (.idle hplan fun hd => hd.2.2.elim hne hne')

theorem repairStage_untouched (hp : Keyed p.repairPlans) :
    (repairStage plan p a).2 = p ↔ Untouched plan p a := by
  by_cases hkind : (plan.graphSnapshot.node a.nodeID).kind = .repair
  · have hdrive : ¬ a.driving plan := fun hd => hd.1 hkind
    by_cases hpassed : a.status = .passed
    · have hstage : repairStage plan p a =
        planRepair plan p a := by simp [repairStage, hkind, hpassed]
      rw [hstage, planRepair_same]
      exact ⟨fun h => ⟨fun _ _ => h, fun hd => absurd hd hdrive, fun hd => absurd hd hdrive,
        fun hd => absurd hd hdrive⟩, fun h => h.planned hkind hpassed⟩
    · refine iff_of_true ?_ (.idle (fun _ => hpassed) hdrive)
      unfold repairStage
      rw [if_pos (by simpa using hkind), if_neg (by simpa using hpassed)]
      split <;> rfl
  · by_cases hunset : a.repairState = .unset
    · refine iff_of_true ?_ (.idle (fun h => absurd h hkind) fun hd => ?_)
      · simp [repairStage, hkind, hunset]
      · simp [NodeAttempt.driving, hunset] at hd
    · rw [← advance_untouched hkind hp]
      unfold repairStage
      rw [if_neg (by simpa using hkind), if_pos (by simpa using hunset)]
      split <;> rename_i heq <;> rw [heq]

end Untouched

end Adro.Orchestration
