import Adro.Orchestration.RepairLaws
import Adro.Orchestration.Rollback

/-!
# Repair contracts over a run

What a contract says about the attempts it names, as an invariant. It breaks
when a repair node passes again while its contract is past planning, and when an
attempt passes that its contract does not name (any more): a verification of an
older round then counts for a new patch. The relation `After` carries the order
of attempts along the run.
-/

namespace Adro.Orchestration

open Adro.Go Adro.Runs

@[simp] def RepairLifecycle.checking : RepairLifecycle → Prop
  | .verifying | .verified => True
  | _ => False

@[simp] def RepairLifecycle.dispatchedOn : RepairLifecycle → Prop
  | .dispatched | .patched | .verifying | .verified => True
  | _ => False

theorem RepairLifecycle.checking.past {s : RepairLifecycle} (h : s.checking) :
    s.dispatchedOn ∧ s ≠ .dispatched := by
  cases s <;> simp_all

/-- `After v t` stands for: attempt `v` was started when `t` had passed. -/
structure ContractOk (After : String → String → Prop) (attempts : GoMap NodeAttempt) (k : String)
    (r : RepairPlan) : Prop where
  key : r.id = k
  stable : r.state ≠ .failed ∧ r.state ≠ .unset
  unstarted : r.state = .planned → r.targetAttemptID = ""
  clean : ¬ r.state.checking → r.state ≠ .exhausted →
    r.verificationAttempts = ∅ ∧ r.verifiedNodes = ∅
  target : r.state.dispatchedOn → ∃ t, attempts[r.targetAttemptID]? = some t ∧
    t.nodeID = r.targetNodeID ∧ (r.state ≠ .dispatched → t.status = .passed)
  verification : r.state.checking → ∀ node v : String, r.verificationAttempts[node]? = some v →
    node ∈ r.verificationNodeIDs ∧ v ≠ "" ∧ After v r.targetAttemptID ∧
      ∃ b, attempts[v]? = some b ∧ b.nodeID = node
  verified : r.state.checking → ∀ (node : String) (flag : Bool),
    r.verifiedNodes[node]? = some flag → flag = true ∧
    ∃ (v : String) (b : NodeAttempt), r.verificationAttempts[node]? = some v ∧
      attempts[v]? = some b ∧ b.status = .passed
  complete : r.state = .verified → r.verificationNodeIDs.length ≤ r.verifiedNodes.size

def Contracts (After : String → String → Prop) (attempts : GoMap NodeAttempt)
    (plans : GoMap RepairPlan) : Prop :=
  ∀ (k : String) (r : RepairPlan), plans[k]? = some r → ContractOk After attempts k r

/-- Attempts are kept with their node, and passed ones stay passed. -/
def Grows (attempts attempts' : GoMap NodeAttempt) : Prop :=
  ∀ (k : String) (a : NodeAttempt), attempts[k]? = some a →
    ∃ a', attempts'[k]? = some a' ∧ a'.nodeID = a.nodeID ∧
      (a.status = .passed → a'.status = .passed)

theorem Grows.refl : Grows attempts attempts := fun _ a ha => ⟨a, ha, rfl, id⟩

theorem Grows.new (hk : attempts[k]? = none) :
    Grows attempts (attempts.insert k b) := fun j a ha =>
  ⟨a, by rw [GoMap.get_set_ne (by rintro rfl; rw [hk] at ha; cases ha)]; exact ha, rfl, id⟩

variable {a : NodeAttempt}

theorem Grows.write (hk : attempts[k]? = some a)
    (hn : b.nodeID = a.nodeID) (hs : a.status = .passed → b.status = .passed) :
    Grows attempts (attempts.insert k b) := by
  intro j c hc
  rw [GoMap.get_set]
  split
  · rename_i hj
    rw [← hj, hk] at hc
    cases hc
    exact ⟨b, rfl, hn, hs⟩
  · exact ⟨c, hc, rfl, id⟩

/-- The order of attempts carries over to a later state. -/
def Carries (After After' : String → String → Prop) (attempts' : GoMap NodeAttempt) : Prop :=
  ∀ (v t : String) (x : NodeAttempt), After v t → attempts'[t]? = some x → x.status = .passed →
    After' v t

/-- Attempts that are not there yet come after those that passed. -/
def Follows (After' : String → String → Prop) (attempts attempts' : GoMap NodeAttempt) : Prop :=
  ∀ (v t : String) (x : NodeAttempt), attempts[v]? = none → attempts'[t]? = some x →
    x.status = .passed → After' v t

variable {attempts : GoMap NodeAttempt} {plans : GoMap RepairPlan} {k : String} {r : RepairPlan}

theorem ContractOk.grow (h : ContractOk After attempts k r) (hg : Grows attempts attempts')
    (hc : Carries After After' attempts') : ContractOk After' attempts' k r where
  key := h.key
  stable := h.stable
  unstarted := h.unstarted
  clean := h.clean
  target := fun hs => by
    obtain ⟨t, ht, hn, hp⟩ := h.target hs
    obtain ⟨t', ht', hn', hp'⟩ := hg _ t ht
    exact ⟨t', ht', hn'.trans hn, fun hd => hp' (hp hd)⟩
  verification := fun hs node v hv => by
    obtain ⟨hmem, hne, hafter, b, hb, hnode⟩ := h.verification hs node v hv
    obtain ⟨b', hb', hn', -⟩ := hg v b hb
    obtain ⟨t, ht, -, hp⟩ := h.target hs.past.1
    obtain ⟨t', ht', -, hp'⟩ := hg _ t ht
    have hpassed := hp' (hp hs.past.2)
    exact ⟨hmem, hne, hc v _ t' hafter ht' hpassed, b', hb', hn'.trans hnode⟩
  verified := fun hs node flag hf => by
    obtain ⟨hflag, v, b, hv, hb, hp⟩ := h.verified hs node flag hf
    obtain ⟨b', hb', -, hp'⟩ := hg v b hb
    exact ⟨hflag, v, b', hv, hb', hp' hp⟩
  complete := h.complete

theorem Contracts.grow (h : Contracts After attempts plans) (hg : Grows attempts attempts')
    (hc : Carries After After' attempts') : Contracts After' attempts' plans :=
  fun k r hr => (h k r hr).grow hg hc

theorem Contracts.set (h : Contracts After attempts plans) (hr : ContractOk After attempts k r) :
    Contracts After attempts (plans.insert k r) := GoMap.forall_set h hr

theorem ContractOk.reason (h : ContractOk After attempts k r) (code : String) :
    ContractOk After attempts k { r with lastReasonCode := code } :=
  { h with }

theorem Contracts.noteReason (h : Contracts After attempts p.repairPlans) (a : NodeAttempt) :
    Contracts After attempts (noteReason a p).repairPlans :=
  forall_noteReason h (fun _ _ code hok => hok.reason code)

theorem ContractOk.unbound (hk : r.id = k)
    (h : (r.state = .planned ∧ r.targetAttemptID = "" ∧ r.verificationAttempts = ∅ ∧
      r.verifiedNodes = ∅) ∨ r.state = .exhausted) : ContractOk After attempts k r := by
  rcases h with ⟨hs, ht, hv, hn⟩ | hs
  · exact ⟨hk, by simp [hs], fun _ => ht, fun _ _ => ⟨hv, hn⟩,
      by simp [hs], by simp [hs],
      by simp [hs], by simp [hs]⟩
  · exact ⟨hk, by simp [hs], by simp [hs], by simp [hs],
      by simp [hs], by simp [hs],
      by simp [hs], by simp [hs]⟩

theorem ContractOk.verified_all (h : ContractOk After attempts k r) (hs : r.state = .verified)
    (hnode : node ∈ r.verificationNodeIDs) :
    r.verifiedNodes[node]? = some true ∧ ∃ (v : String) (b : NodeAttempt),
      r.verificationAttempts[node]? = some v ∧ attempts[v]? = some b ∧ b.nodeID = node ∧
      b.status = .passed ∧ After v r.targetAttemptID := by
  have hcheck : r.state.checking := by simp [hs]
  have hsub : ∀ (j : String) (flag : Bool), r.verifiedNodes[j]? = some flag →
      j ∈ r.verificationNodeIDs := fun j flag hf => by
    obtain ⟨-, v, b, hv, -⟩ := h.verified hcheck j flag hf
    exact (h.verification hcheck j v hv).1
  obtain ⟨flag, hflag⟩ := GoMap.covers_of_size hsub (h.complete hs) hnode
  obtain ⟨rfl, v, b, hv, hb, hp⟩ := h.verified hcheck node flag hflag
  obtain ⟨-, -, hafter, b', hb', hn⟩ := h.verification hcheck node v hv
  rw [hb] at hb'
  cases hb'
  exact ⟨hflag, v, b, hv, hb, hn, hp, hafter⟩

theorem retryable_failed (h : retryableRepairProviderAttempt p k = true) :
    ∃ a, p.attempts[k]? = some a ∧ a.status ≠ .passed := by
  simp only [retryableRepairProviderAttempt, Bool.and_eq_true, Option.any_eq_true] at h
  obtain ⟨-, a, ha, hr⟩ := h
  refine ⟨a, ha, ?_⟩
  simp only [isRetryableRepairProviderFailure, Bool.and_eq_true, Bool.or_eq_true, beq_iff_eq] at hr
  rcases hr.1 with h | h <;> simp [h]

theorem ContractOk.unverified (h : ContractOk After p.attempts k r)
    (hsel : SelectsVerification p nodeID r) : r.verifiedNodes[nodeID]? = none := by
  rcases hsel.state with hs | hs
  · rw [(h.clean (by simp [hs]) (by simp [hs])).2]
    simp
  · have hcheck : r.state.checking := by simp [hs]
    by_contra hsome
    obtain ⟨flag, hflag⟩ := Option.ne_none_iff_exists'.mp hsome
    obtain ⟨-, v, b, hv, hb, hp⟩ := h.verified hcheck nodeID flag hflag
    obtain ⟨-, hne, -⟩ := h.verification hcheck nodeID v hv
    have hattempt := hsel.attempt
    rw [hv, Option.getD_some] at hattempt
    obtain ⟨x, hx, hfail⟩ := retryable_failed (hattempt.resolve_left hne)
    rw [hb] at hx
    cases hx
    exact hfail hp

theorem ContractOk.joinTarget (h : ContractOk After attempts k r) (ha : attempts[a.id]? = some a)
    (hn : a.nodeID = r.targetNodeID) (hs : r.state = .planned ∨ r.state = .dispatched)
    (hr : setRepairState { r with targetAttemptID := a.id } .dispatched = some r') :
    ContractOk After attempts k r' := by
  obtain ⟨history, rfl⟩ := setRepairState_eq hr
  have hclean := h.clean (by rcases hs with hs | hs <;> simp [hs])
    (by rcases hs with hs | hs <;> simp [hs])
  exact ⟨h.key, by simp, by simp, fun _ _ => hclean, fun _ => ⟨a, ha, hn, by simp⟩,
    by simp, by simp, by simp⟩

theorem ContractOk.joinVerification (h : ContractOk After attempts k r)
    (ha : attempts[a.id]? = some a) (hid : a.id ≠ "") (hn : a.nodeID ∈ r.verificationNodeIDs)
    (hs : r.state = .patched ∨ r.state = .verifying) (hafter : After a.id r.targetAttemptID)
    (hnew : r.verifiedNodes[a.nodeID]? = none) (hr : setRepairState { r with
      verificationAttempts := r.verificationAttempts.insert a.nodeID a.id } .verifying = some r') :
    ContractOk After attempts k r' := by
  obtain ⟨history, rfl⟩ := setRepairState_eq hr
  obtain ⟨t, ht, htn, htp⟩ := h.target (by
    rcases hs with hs | hs <;> simp [hs])
  -- A patched contract names no verification yet.
  have hold : ∀ node v : String, r.verificationAttempts[node]? = some v → r.state.checking := by
    intro node v hv
    rcases hs with hs | hs
    · rw [(h.clean (by simp [hs]) (by simp [hs])).1] at hv
      simp at hv
    · simp [hs]
  have holdv : ∀ (node : String) (flag : Bool), r.verifiedNodes[node]? = some flag →
      r.state.checking := by
    intro node flag hv
    rcases hs with hs | hs
    · rw [(h.clean (by simp [hs]) (by simp [hs])).2] at hv
      simp at hv
    · simp [hs]
  refine ⟨h.key, by simp, by simp, by simp,
    fun _ => ⟨t, ht, htn, fun _ => htp (by rcases hs with hs | hs <;> simp [hs])⟩, ?_, ?_, by simp⟩
  · intro _ node v hv
    simp only [GoMap.get_set] at hv
    split at hv
    · rename_i hnode
      cases hv
      exact ⟨hnode ▸ hn, hid, hafter, a, ha, hnode⟩
    · exact h.verification (hold node v hv) node v hv
  · intro _ node flag hf
    obtain ⟨hflag, v, b, hv, hb, hp⟩ := h.verified (holdv node flag hf) node flag hf
    have hne : a.nodeID ≠ node := by
      rintro rfl
      rw [hnew] at hf
      cases hf
    exact ⟨hflag, v, b, by simp only [GoMap.get_set_ne hne]; exact hv, hb, hp⟩

/-- A contract that selects a fresh attempt keeps its word when the attempt joins. -/
theorem ContractOk.joined (h : ContractOk After p.attempts k r)
    (h' : ContractOk After' attempts' k r) (ha : attempts'[a.id]? = some a) (hid : a.id ≠ "")
    (hafter : ∀ (t : String) (x : NodeAttempt), attempts'[t]? = some x → x.status = .passed →
      After' a.id t) (hj : Joins p g r a r') : ContractOk After' attempts' k r' := by
  cases hj with
  | planned => exact h'
  | target _ hst hsel hr =>
    exact h'.joinTarget ha hsel.target.symm (hsel.state.imp (·.1) (·.1)) hr
  | verification _ hst hsel hr =>
    obtain ⟨t, ht, -, htp⟩ := h'.target (by
      rcases hsel.state with hs | hs <;> simp [hs])
    have hpassed := htp (by rcases hsel.state with hs | hs <;> simp [hs])
    exact h'.joinVerification ha hid hsel.node hsel.state (hafter _ t ht hpassed)
      (h.unverified hsel) hr

theorem Contracts.started (h : Contracts After p.attempts p.repairPlans)
    (hf : StartFacts H plan p args now n no)
    (hc : Carries After After' (started plan p args n no now).attempts)
    (hnew : Follows After' p.attempts (started plan p args n no now).attempts) :
    Contracts After' (started plan p args n no now).attempts
      (started plan p args n no now).repairPlans := by
  have hgrown : Contracts After' (Orchestration.started plan p args n no now).attempts
      p.repairPlans := h.grow (Grows.new hf.fresh) hc
  have hself : (Orchestration.started plan p args n no now).attempts[args.attemptID]? =
      some (newAttempt plan p args n no now) := by simp [Orchestration.started]
  refine started_plans hgrown fun a r r₁ ha hr hj => ?_
  have haid : a.id = args.attemptID := by rw [← ha]; rfl
  rw [ha] at hself
  exact ((h _ r hr).joined (hgrown _ r hr) (haid ▸ hself)
    (haid ▸ ne_empty_of_not_blank hf.attemptID)
    (fun t x ht hp => hnew _ t x (haid ▸ hf.fresh) ht hp) hj).reason _

def Named (p : PlanProjection) (k : String) (a : NodeAttempt) : Prop :=
  ∀ r, p.repairPlans[a.repairPlanID]? = some r →
    (a.repairState = .dispatched → r.state = .dispatched ∧ r.targetAttemptID = k) ∧
    (a.repairState = .verifying →
      r.state = .verifying ∧ r.verificationAttempts[a.nodeID]? = some k)

theorem FinishFacts.named (hf : FinishFacts plan p k input now f a) :
    Named p k f.attempt ↔ Named p k a := by
  unfold Named
  rw [hf.nodeID, hf.link.1, hf.link.2]

/-- Another pass of the repair node finds its contract planned. -/
def Unstarted (p : PlanProjection) (nodeID : String) : Prop :=
  ∀ (k : String) (r : RepairPlan), p.repairPlans[k]? = some r → r.openFor nodeID = true →
    r.state = .planned

theorem RoundFailed.unbound (After : String → String → Prop) (attempts : GoMap NodeAttempt)
    (h : RoundFailed p r r₂ q) (hk : r.id = k) :
    ContractOk After attempts k r₂ ∧ q.repairPlans = p.repairPlans := by
  cases h with
  | again r₁ r₂ h₁ left h₂ =>
    obtain ⟨_, rfl⟩ := setRepairState_eq h₁
    obtain ⟨_, rfl⟩ := setRepairState_eq h₂
    refine ⟨.unbound hk (.inl ⟨rfl, rfl, rfl, rfl⟩), ?_⟩
    rw [(resetRepairRound_reopens _ _).rest]
  | last r₁ r₂ h₁ left h₂ =>
    obtain ⟨_, rfl⟩ := setRepairState_eq h₁
    obtain ⟨_, rfl⟩ := setRepairState_eq h₂
    exact ⟨.unbound hk (.inr rfl), rfl⟩

theorem ContractOk.patched (h : ContractOk After attempts k r) (hs : r.state = .dispatched)
    (hb : attempts[r.targetAttemptID]? = some b) (hp : b.status = .passed)
    (hr : setRepairState r .patched = some r') (artifacts : List String) :
    ContractOk After attempts k { r' with patchArtifactIDs := artifacts } := by
  obtain ⟨_, rfl⟩ := setRepairState_eq hr
  obtain ⟨t, ht, hn, -⟩ := h.target (by simp [hs])
  rw [hb] at ht
  cases ht
  have hclean := h.clean (by simp [hs]) (by simp [hs])
  exact ⟨h.key, by simp, by simp, fun _ _ => hclean, fun _ => ⟨b, hb, hn, fun _ => hp⟩,
    by simp, by simp, by simp⟩

theorem ContractOk.verifies (h : ContractOk After attempts k r) (hs : r.state = .verifying)
    (hv : r.verificationAttempts[nodeID]? = some v) (hb : attempts[v]? = some b)
    (hp : b.status = .passed)
    (hnext : s = if (r.verifiedNodes.insert nodeID true).size == r.verificationNodeIDs.length
      then .verified else .verifying)
    (hr : setRepairState { r with
      verifiedNodes := r.verifiedNodes.insert nodeID true
      verificationArtifactIDs := artifacts } s = some r') : ContractOk After attempts k r' := by
  obtain ⟨_, rfl⟩ := setRepairState_eq hr
  have hcheck : r.state.checking := by simp [hs]
  have hs' : s = .verified ∨ s = .verifying := by rw [hnext]; split <;> simp
  have hcheck' : s.checking := by rcases hs' with h | h <;> simp [h]
  obtain ⟨t, ht, htn, htp⟩ := h.target hcheck.past.1
  refine ⟨h.key, by rcases hs' with h | h <;> simp [h], by rcases hs' with h | h <;> simp [h],
    fun hn => absurd hcheck' hn, fun _ => ⟨t, ht, htn, fun _ => htp hcheck.past.2⟩,
    fun _ => h.verification hcheck, fun _ node flag hf => ?_, fun hv => ?_⟩
  · simp only [GoMap.get_set] at hf
    split at hf
    · rename_i hnode
      cases hf
      exact ⟨rfl, v, b, hnode ▸ hv, hb, hp⟩
    · exact h.verified hcheck node flag hf
  · simp only at hv
    rw [hv] at hnext
    split at hnext
    · rename_i hsize
      exact (by simpa using hsize : _ = _).ge
    · cases hnext

theorem Contracts.repaired (h : Contracts After attempts p.repairPlans)
    (heff : RepairEffect plan p a a' mid)
    (hplan : (plan.graphSnapshot.node a.nodeID).kind = .repair → a.status = .passed →
      Unstarted p a.nodeID)
    (hpass : a.driving plan → a.status = .passed → Named p k a ∧
      ∃ b, attempts[k]? = some b ∧ b.status = .passed) :
    Contracts After attempts mid.repairPlans := by
  cases heff with
  | idle => exact h
  | transient r hd hr hret =>
    have hok := h _ r hr
    exact h.set (hok.key ▸ hok)
  | patched r r₁ hd hs hp hr hnext =>
    obtain ⟨hnamed, b, hb, hbp⟩ := hpass hd hp
    obtain ⟨hst, rfl⟩ := (hnamed r hr).1 hs
    have hok := (h _ r hr).patched hst hb hbp hnext (appendUnique r₁.patchArtifactIDs
      a.outputArtifacts)
    exact h.set (hok.key ▸ hok)
  | verified r r₁ s hd hs hp hr hc hnext =>
    obtain ⟨hnamed, b, hb, hbp⟩ := hpass hd hp
    obtain ⟨hst, hv⟩ := (hnamed r hr).2 hs
    have hok := (h _ r hr).verifies hst hv hb hbp hc hnext
    exact h.set (hok.key ▸ hok)
  | failed r r₂ s q hd hu hr hround =>
    obtain ⟨hok, hq⟩ := hround.unbound After attempts (h _ r hr).key
    rw [hq]
    exact h.set (hok.key ▸ hok)
  | planned fresh hk hp hc =>
    have hd := createRepairPlan_ok hc
    rcases recordRepairPlan_plans p { a with repairState := .planned } fresh with
      ⟨j, existing, hj, hopen, hq⟩ | hq | hq
    · rw [hq]
      have hst := hplan hk hp j existing hj hopen
      exact h.set (.unbound rfl (.inl ⟨hst, hd.unbound⟩))
    · rw [hq]
      exact h.set (.unbound rfl (.inl ⟨hd.planned.1, hd.unbound⟩))
    · rw [hq]
      exact h

/-- What a passing finish has to find: a repair node its contract still planned,
an attempt under a contract one that counts on it, and edges that take it. -/
def Sound (plan : RequirementExecutionPlan) (p : PlanProjection) (k : String) (a : NodeAttempt)
    (input : TransitionInput) : Prop :=
  eventStatus input.event = some .passed →
    ((plan.graphSnapshot.node a.nodeID).kind = .repair → Unstarted p a.nodeID) ∧
    (a.driving plan → Named p k a ∧ Routable plan p a input)

theorem Sound.refused (h : Sound plan p k a input) (hf : FinishFacts plan p k input now f a)
    (hr : repairStage plan p f.attempt = (.error e, q)) : q = p := by
  refine repairStage_error hf (fun hkind hid hst hev r hr => ?_) hr
  exact ((((h hev).2 ⟨hkind, hid, .inr hst⟩).1 r hr).2 hst).1

theorem FinishResult.grows (h : FinishResult H plan p k input f res q)
    (hf : FinishFacts plan p k input now f a) : Grows p.attempts q.attempts := by
  rcases h.attempts hf with ⟨e, -, hq⟩ | ⟨b, -, hq, hn, -⟩
  · rw [hq]; exact .refl
  · rw [hq]
    refine Grows.write hf.stored hn fun hp => ?_
    rcases hf.live with h | h <;> rw [hp] at h <;> cases h

theorem Contracts.finished (h : Contracts After p.attempts p.repairPlans)
    (hres : FinishResult H plan p k input f res q) (hf : FinishFacts plan p k input now f a)
    (hs : Sound plan p k a input) (hc : Carries After After' q.attempts) :
    Contracts After' q.attempts q.repairPlans := by
  have hgrown := h.grow (hres.grows hf) hc
  have hattempts := hres.attempts hf
  have hnode := hf.nodeID
  have hplan : (plan.graphSnapshot.node f.attempt.nodeID).kind = .repair →
      f.attempt.status = .passed → Unstarted p f.attempt.nodeID := by
    rw [hnode]
    exact fun hk hp => (hs (hf.passing hp)).1 hk
  cases hres with
  | refused e q hr => rw [hs.refused hf hr] at hgrown ⊢; exact hgrown
  | kept a' mid m hr hm hsettle =>
    obtain ⟨b, hb, hq, -, hst⟩ := hattempts.resolve_left (by rintro ⟨e, he, -⟩; cases he)
    have hrest : m.repairPlans = mid.repairPlans := by rw [hm.rest]; rfl
    refine Contracts.noteReason ?_ _
    rw [hrest]
    refine hgrown.repaired (k := k) (repairStage_effect hr) hplan fun hd hp => ?_
    exact ⟨hf.named.mpr ((hs (hf.passing hp)).2 (hf.driving.mp hd)).1, b,
      by rw [hq, GoMap.get_set, if_pos rfl], hst.trans hp⟩
  | undone a' mid m e hr hm hsettle =>
    show Contracts After' _ mid.repairPlans
    refine hgrown.repaired (k := k) (repairStage_effect hr) hplan fun hd hp => ?_
    exact (((hs (hf.passing hp)).2 (hf.driving.mp hd)).2.not_undone hf hp hr hsettle).elim

/-- Finishes that pass are sound; all other calls are free. -/
def ContractStep (plan : RequirementExecutionPlan) (p : PlanProjection) (s : Step) : Prop :=
  match s.op with
  | .finish k input => ∀ a, p.attempts[k]? = some a → a.status = .running ∨ a.status = .waiting →
      Sound plan p k a input
  | _ => True

theorem claimLease_grows (ha : p.attempts[k]? = some a) :
    Grows p.attempts (claimLease p a k owner now).attempts :=
  Grows.write ha rfl id

theorem Contracts.step (h : Contracts After p.attempts p.repairPlans) (hs : ContractStep plan p s)
    (hc : Carries After After' (next H plan p s).attempts)
    (hnew : Follows After' p.attempts (next H plan p s).attempts) :
    Contracts After' (next H plan p s).attempts (next H plan p s).repairPlans := by
  have heff := call_effect H plan p s
  unfold ContractStep at hs
  generalize s.op = op at heff hs
  generalize next H plan p s = q at heff hc hnew
  generalize (s.call H plan p).1 = res at heff
  cases heff with
  | same => exact h.grow .refl hc
  | started args now n no hf => exact h.started hf hc hnew
  | finished k input now f a res q hf hres => exact h.finished hres hf (hs a hf.stored hf.live) hc
  | retried => exact h.grow .refl hc
  | claimed k owner at₀ now a e ha => exact h.grow (claimLease_grows ha) hc
  | takenOver k owner at₀ now now' a f b res q ha hrun hown hf hres =>
    have hmid : Contracts After (claimLease p a k owner now).attempts
        (claimLease p a k owner now).repairPlans :=
      h.grow (claimLease_grows ha) fun _ _ _ hafter _ _ => hafter
    -- A takeover times the attempt out.
    exact hmid.finished hres hf (fun hev => absurd hev (by simp [takeOverInput, eventStatus])) hc

end Adro.Orchestration
