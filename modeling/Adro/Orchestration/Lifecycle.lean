import Mathlib.Data.List.Chain
import Adro.Orchestration.Contract
import Adro.Orchestration.Validate

/-!
# Contracts that validate

The rest of what `validate` asks of a contract: how it was drafted, the history
of its lifecycle, and that the attempts it waits for are running under it. A
contract keeps waiting for an attempt that was parked or failed transiently, so
the runs considered later exclude these.
-/

namespace Adro.Orchestration

open Adro.Go

/-- The history starts planned, ends in the state, and every step is allowed. -/
def HistoryOk (r : RepairPlan) : Prop :=
  r.stateHistory.head? = some .planned ∧ r.stateHistory.getLast? = some r.state ∧
    r.stateHistory.IsChain (fun s t => repairLifecycleTransitionAllowed s t = true)

theorem setRepairState_history (h : HistoryOk r) (hs : r.state ≠ .unset)
    (hr : setRepairState r s = some r') : HistoryOk r' := by
  obtain ⟨hhead, hlast, hchain⟩ := h
  have hne : r.stateHistory ≠ [] := by rintro he; rw [he] at hhead; cases hhead
  have hcur : r.currentHistory = r.stateHistory := by
    simp [RepairPlan.currentHistory, hne, hlast]
  unfold setRepairState at hr
  have hu : (r.state == .unset) = false := by simpa using hs
  rw [hu, hcur] at hr
  simp only [Bool.false_eq_true, if_false] at hr
  split at hr
  · cases hr
  · split at hr
    · cases hr
    · rename_i hallowed
      split at hr
      · cases hr
        refine ⟨by simp [hhead], by simp, List.isChain_append.mpr ⟨hchain, by simp, ?_⟩⟩
        intro t ht u hu
        rw [hlast] at ht
        cases ht
        cases hu
        simpa using hallowed
      · cases hr
        exact ⟨hhead, hlast, hchain⟩

theorem historyStepsCheck_ok (id : String)
    (h : l.IsChain (fun s t => repairLifecycleTransitionAllowed s t = true)) :
    historyStepsCheck id l = .ok () := by
  induction l with
  | nil => rfl
  | cons s l ih =>
    cases l with
    | nil => rfl
    | cons t l =>
      obtain ⟨hst, hrest⟩ := List.isChain_cons_cons.mp h
      simp only [historyStepsCheck, then_ok, ensure_ok]
      exact ⟨hst, ih hrest⟩

/-- The parts of a contract that its repair attempts write. -/
structure DraftOk (plan : RequirementExecutionPlan) (attempts : GoMap NodeAttempt) (k : String)
    (r : RepairPlan) : Prop where
  named : k ≠ ""
  owner : r.planID = plan.id
  author : r.repairNodeID ≠ "" ∧ r.repairAttemptID ≠ "" ∧ r.repairAttemptID ∈ r.repairAttemptIDs
  passed : ∃ a, attempts[r.repairAttemptID]? = some a ∧ a.nodeID = r.repairNodeID ∧
    a.status = .passed
  target : r.targetNodeID ≠ ""
  verification : r.verificationNodeIDs ≠ [] ∧ r.verificationNodeIDs.Nodup
  known : ∀ id, r.covers id → plan.graphSnapshot.known id = true
  rounds : 1 ≤ r.round ∧ r.round ≤ r.maxRounds ∧ r.maxRounds ≤ maxInt64
  state : r.state ≠ .unset
  history : HistoryOk r

variable {plan : RequirementExecutionPlan} {k : String} {attempts : GoMap NodeAttempt}
  {r : RepairPlan}

section
variable (h : DraftOk plan attempts k r)
include h

theorem DraftOk.grow (hg : Grows attempts attempts') : DraftOk plan attempts' k r :=
  { h with
    passed := by
      obtain ⟨a, ha, hn, hp⟩ := h.passed
      obtain ⟨b, hb, hn', hp'⟩ := hg _ a ha
      exact ⟨b, hb, hn'.trans hn, hp' hp⟩ }

theorem DraftOk.advance (hs : s ≠ .unset)
    (hr : setRepairState r s = some r') : DraftOk plan attempts k r' := by
  have hhist := setRepairState_history h.history h.state hr
  obtain ⟨_, rfl⟩ := setRepairState_eq hr
  exact { h with state := hs, history := hhist }

/-- So does writing which attempts the contract names and what they reported. -/
theorem DraftOk.bind (target : String) (v : GoMap String)
    (n : GoMap Bool) (patch verification : List String) :
    DraftOk plan attempts k { r with
      targetAttemptID := target, verificationAttempts := v, verifiedNodes := n
      patchArtifactIDs := patch, verificationArtifactIDs := verification } := { h with }

theorem DraftOk.reason (code : String) :
    DraftOk plan attempts k { r with lastReasonCode := code } := { h with }

theorem DraftOk.failed (hr : RoundFailed p r r' q) : DraftOk plan attempts k r' := by
  cases hr with
  | again r₁ r₂ h₁ left h₂ =>
    have hd := h.advance (by simp) h₁
    have hround : i64 (r₁.round + 1) = r₁.round + 1 := by
      have := hd.rounds
      exact i64_eq (by unfold maxInt64 at *; omega) (by omega)
    refine DraftOk.advance (r := r₁.nextRound) { hd with rounds := ?_ } (by simp) h₂
    have := hd.rounds
    simp only [RepairPlan.nextRound]
    omega
  | last r₁ r₂ h₁ left h₂ => exact (h.advance (by simp) h₁).advance (by simp) h₂

end

/-- The attempt runs under contract `k` in this repair state. -/
def RunsUnder (k : String) (s : RepairLifecycle) (a : NodeAttempt) : Prop :=
  a.status = .running ∧ a.repairPlanID = k ∧ a.repairState = s

structure PendingOk (attempts : GoMap NodeAttempt) (k : String) (r : RepairPlan) : Prop where
  dispatched : r.state = .dispatched →
    ∃ a, attempts[r.targetAttemptID]? = some a ∧ RunsUnder k .dispatched a
  verifying : r.state = .verifying → ∀ node v : String, r.verificationAttempts[node]? = some v →
    ∃ a, attempts[v]? = some a ∧ (a.status = .passed ∨ RunsUnder k .verifying a)
  nonempty : r.state = .verifying → ∃ node v : String, r.verificationAttempts[node]? = some v

/-- The contract's state waits for, or rests on, attempt `j`. -/
def Counts (r : RepairPlan) (j : String) : Prop :=
  (r.state = .dispatched ∧ r.targetAttemptID = j) ∨
    (r.state = .verifying ∧ ∃ node : String, r.verificationAttempts[node]? = some j)

theorem PendingOk.settled (h : r.state ≠ .dispatched) (h' : r.state ≠ .verifying) :
    PendingOk attempts k r :=
  ⟨fun hs => absurd hs h, fun hs => absurd hs h', fun hs => absurd hs h'⟩

section
variable (h : PendingOk attempts k r)
include h

theorem PendingOk.reason (code : String) : PendingOk attempts k { r with lastReasonCode := code } :=
  ⟨h.dispatched, h.verifying, h.nonempty⟩

theorem PendingOk.write (hj : ¬ Counts r j) : PendingOk (attempts.insert j b) k r where
  dispatched := fun hs => by
    obtain ⟨a, ha, hrun⟩ := h.dispatched hs
    have hne : j ≠ r.targetAttemptID := fun he => hj (.inl ⟨hs, he.symm⟩)
    exact ⟨a, by rw [GoMap.get_set_ne hne]; exact ha, hrun⟩
  verifying := fun hs node v hv => by
    obtain ⟨a, ha, hrun⟩ := h.verifying hs node v hv
    have hne : j ≠ v := fun he => hj (.inr ⟨hs, node, he ▸ hv⟩)
    exact ⟨a, by rw [GoMap.get_set_ne hne]; exact ha, hrun⟩
  nonempty := h.nonempty

theorem PendingOk.rewrite
    (ha : attempts[j]? = some a) (hs : b.status = a.status) (hid : b.repairPlanID = a.repairPlanID)
    (hst : b.repairState = a.repairState) : PendingOk (attempts.insert j b) k r := by
  have hget : ∀ (i : String) (c : NodeAttempt), attempts[i]? = some c →
      ∃ c', (attempts.insert j b)[i]? = some c' ∧ c'.status = c.status ∧
        ∀ s, RunsUnder k s c → RunsUnder k s c' := by
    intro i c hc
    rw [GoMap.get_set]
    split
    · rename_i hij
      rw [← hij, ha] at hc
      cases hc
      refine ⟨b, rfl, hs, fun s hrun => ?_⟩
      unfold RunsUnder
      rw [hs, hid, hst]
      exact hrun
    · exact ⟨c, hc, rfl, fun _ => id⟩
  refine ⟨fun hs => ?_, fun hs node v hv => ?_, h.nonempty⟩
  · obtain ⟨c, hc, hrun⟩ := h.dispatched hs
    obtain ⟨c', hc', -, hrun'⟩ := hget _ c hc
    exact ⟨c', hc', hrun' _ hrun⟩
  · obtain ⟨c, hc, hrun⟩ := h.verifying hs node v hv
    obtain ⟨c', hc', hcs, hrun'⟩ := hget _ c hc
    exact ⟨c', hc', hrun.imp (hcs.trans ·) (hrun' _)⟩

theorem PendingOk.counts (hj : Counts r j)
    (ha : attempts[j]? = some a) (hlive : a.status ≠ .passed) : RunsUnder k r.state a := by
  rcases hj with ⟨hs, rfl⟩ | ⟨hs, node, hv⟩
  · obtain ⟨b, hb, hrun⟩ := h.dispatched hs
    rw [ha] at hb
    cases hb
    exact hs ▸ hrun
  · obtain ⟨b, hb, hrun⟩ := h.verifying hs node j hv
    rw [ha] at hb
    cases hb
    exact hs ▸ hrun.resolve_left hlive

end

structure RepairOk (plan : RequirementExecutionPlan) (attempts : GoMap NodeAttempt) (k : String)
    (r : RepairPlan) : Prop where
  contract : ContractOk (fun _ _ => True) attempts k r
  draft : DraftOk plan attempts k r
  pending : PendingOk attempts k r

def Repairs (plan : RequirementExecutionPlan) (attempts : GoMap NodeAttempt)
    (plans : GoMap RepairPlan) : Prop :=
  ∀ (k : String) (r : RepairPlan), plans[k]? = some r → RepairOk plan attempts k r

theorem Repairs.contracts (h : Repairs plan attempts plans) :
    Contracts (fun _ _ => True) attempts plans := fun k r hr => (h k r hr).contract

theorem Repairs.noteReason (h : Repairs plan attempts p.repairPlans) (a : NodeAttempt) :
    Repairs plan attempts (noteReason a p).repairPlans :=
  forall_noteReason h (fun _ _ code hok =>
    ⟨hok.contract.reason code, hok.draft.reason code, hok.pending.reason code⟩)

theorem DraftOk.joined (h : DraftOk plan attempts k r) (hj : Joins p g r a r') :
    DraftOk plan attempts k r' := by
  cases hj with
  | planned => exact h
  | target _ _ _ hr =>
    exact (h.bind a.id r.verificationAttempts r.verifiedNodes r.patchArtifactIDs
      r.verificationArtifactIDs).advance (by simp) hr
  | verification _ _ _ hr =>
    exact (h.bind r.targetAttemptID (r.verificationAttempts.insert a.nodeID a.id) r.verifiedNodes
      r.patchArtifactIDs r.verificationArtifactIDs).advance (by simp) hr

theorem PendingOk.joined (h : PendingOk attempts k r) (hc : ContractOk After attempts k r)
    (ha : attempts[a.id]? = some a) (hrun : a.status = .running) (hk : a.repairPlanID = k)
    (hj : Joins p g r a r') : PendingOk attempts k r' := by
  cases hj with
  | planned => exact h
  | target _ hst _ hr =>
    obtain ⟨_, rfl⟩ := setRepairState_eq hr
    exact ⟨fun _ => ⟨a, ha, hrun, hk, hst⟩, by simp, by simp⟩
  | verification _ hst hsel hr =>
    obtain ⟨_, rfl⟩ := setRepairState_eq hr
    refine ⟨by simp, fun _ node v hv => ?_, fun _ => ⟨a.nodeID, a.id, by simp⟩⟩
    simp only [GoMap.get_set] at hv
    split at hv
    · cases hv
      exact ⟨a, ha, .inr ⟨hrun, hk, hst⟩⟩
    · rcases hsel.state with hs | hs
      · -- A patched contract names no verification yet.
        rw [(hc.clean (by simp [hs]) (by simp [hs])).1] at hv
        simp at hv
      · exact h.verifying hs node v hv

theorem Repairs.started (h : Repairs plan p.attempts p.repairPlans)
    (hf : StartFacts H plan p args now n no) :
    Repairs plan (started plan p args n no now).attempts
      (started plan p args n no now).repairPlans := by
  -- A fresh attempt is none that a contract counts on.
  have hnot : ∀ (j : String) (r : RepairPlan), p.repairPlans[j]? = some r →
      ¬ Counts r args.attemptID := by
    rintro j r hr (⟨hs, he⟩ | ⟨hs, node, hv⟩)
    · obtain ⟨a, ha, -⟩ := (h j r hr).pending.dispatched hs
      rw [he, hf.fresh] at ha
      cases ha
    · obtain ⟨a, ha, -⟩ := (h j r hr).pending.verifying hs node _ hv
      rw [hf.fresh] at ha
      cases ha
  have hgrown : Repairs plan (Orchestration.started plan p args n no now).attempts
      p.repairPlans := fun j r hr =>
    ⟨(h j r hr).contract.grow (.new hf.fresh) fun _ _ _ _ _ _ => trivial,
      (h j r hr).draft.grow (.new hf.fresh), (h j r hr).pending.write (hnot j r hr)⟩
  have hself : (Orchestration.started plan p args n no now).attempts[args.attemptID]? =
      some (newAttempt plan p args n no now) := by simp [Orchestration.started]
  refine started_plans hgrown fun a r r₁ ha hr hj => ?_
  have haid : a.id = args.attemptID := by rw [← ha]; rfl
  have hrun : a.status = .running := by rw [← ha]; rfl
  rw [ha, ← haid] at hself
  have hok := hgrown _ r hr
  exact ⟨((h _ r hr).contract.joined hok.contract hself
      (haid ▸ ne_empty_of_not_blank hf.attemptID) (fun _ _ _ _ => trivial) hj).reason _,
    (hok.draft.joined hj).reason _, (hok.pending.joined hok.contract hself hrun rfl hj).reason _⟩

/-- The finish of an attempt under a contract decides what the contract waits
for: it passes only when the contract counts on it, and then it is neither
parked nor failed in a way that keeps the contract for a retry. -/
def Decides (plan : RequirementExecutionPlan) (p : PlanProjection) (k : String) (a : NodeAttempt)
    (input : TransitionInput) : Prop :=
  a.driving plan → ∀ s, eventStatus input.event = some s →
    (s = .passed → Named p k a) ∧
    (Named p k a → s ≠ .waiting ∧ isRetryableRepairProviderFailure
      { a with status := s, failureReason := input.failure } = false)

/-- A passing repair attempt names distinct verification nodes and finds its
contract planned, with rounds left. -/
def Replans (plan : RequirementExecutionPlan) (p : PlanProjection) (a : NodeAttempt)
    (input : TransitionInput) : Prop :=
  (plan.graphSnapshot.node a.nodeID).kind = .repair → eventStatus input.event = some .passed →
    (repairVerificationNodes { a with result := input.result }).Nodup ∧
    ∀ (j : String) (r : RepairPlan), p.repairPlans[j]? = some r → r.openFor a.nodeID = true →
      r.state = .planned ∧ r.round ≤ intValue (input.result.fields["max_rounds"]?)

theorem RepairOk.named (h : RepairOk plan p.attempts j r) (hr : p.repairPlans[j]? = some r)
    (hc : Counts r k) (ha : p.attempts[k]? = some a) (hlive : a.status ≠ .passed) :
    Named p k a ∧ RunsUnder j r.state a := by
  have hrun := h.pending.counts hc ha hlive
  refine ⟨fun r' hr' => ?_, hrun⟩
  rw [hrun.2.1, hr] at hr'
  cases hr'
  have hst := hrun.2.2
  refine ⟨fun hd => ?_, fun hv => ?_⟩
  · rcases hc with ⟨hs, ht⟩ | ⟨hs, -⟩
    · exact ⟨hs, ht⟩
    · rw [hd, hs] at hst; cases hst
  · rcases hc with ⟨hs, -⟩ | ⟨hs, node, hnode⟩
    · rw [hv, hs] at hst; cases hst
    · obtain ⟨-, -, -, b, hb, hn⟩ := h.contract.verification
        (by simp [hs]) node k hnode
      rw [ha] at hb
      cases hb
      exact ⟨hs, hn ▸ hnode⟩

/-- What the finish knows of its attempt when every attempt is well formed. -/
structure FinishesOk (plan : RequirementExecutionPlan) (p : PlanProjection) (k : String)
    (a : NodeAttempt) : Prop where
  id : a.id = k
  named : k ≠ ""
  node : a.nodeID ≠ ""
  author : (plan.graphSnapshot.node a.nodeID).kind = .repair →
    a.repairState ≠ .dispatched ∧ a.repairState ≠ .verifying
  known : ∀ id, p.nodes.contains id = true → plan.graphSnapshot.known id = true

section

theorem Drafted.draftOk (h : Drafted p plan { f.attempt with repairState := .planned } fresh)
    (hok : FinishesOk plan p k a) (hf : FinishFacts plan p k input now f a)
    (hnodup : (repairVerificationNodes { a with result := input.result }).Nodup)
    (hb : b.nodeID = a.nodeID) (hp : b.status = .passed) :
    DraftOk plan (p.attempts.insert k b) fresh.id fresh := by
  have hid : f.attempt.id = k := by rw [hf.attempt]; exact hok.id
  have hnode : f.attempt.nodeID = a.nodeID := hf.nodeID
  obtain ⟨hauthor, hattempt, hids⟩ := h.author
  have hver : repairVerificationNodes { f.attempt with repairState := .planned } =
      repairVerificationNodes { a with result := input.result } := by
    rw [hf.attempt]; rfl
  refine ⟨?_, h.plan, ⟨?_, ?_, ?_⟩, ⟨b, ?_, ?_, hp⟩, h.target.1, ⟨h.verification.2.1, ?_⟩,
    ?_, ?_, ?_, ?_⟩
  · rw [h.id]
    intro he
    have := congrArg String.length he
    simp at this
  · rw [hauthor]; exact hnode ▸ hok.node
  · rw [hattempt]; exact hid ▸ hok.named
  · rw [hattempt, hids]; exact List.mem_singleton_self _
  · rw [hattempt]
    rw [hid, GoMap.get_set, if_pos rfl]
  · rw [hauthor]; exact hb.trans hnode.symm
  · rw [h.verification.1, hver]; exact hnodup
  · rintro id (rfl | hid)
    · exact hok.known _ h.target.2
    · exact hok.known id (h.verification.2.2 id hid)
  · obtain ⟨hround, hmin, hmax⟩ := h.rounds
    refine ⟨by omega, by omega, ?_⟩
    rw [hmax]
    exact intValue_le
  · simp [h.planned.1]
  · simp [HistoryOk, h.planned.1, h.planned.2]

theorem DraftOk.refresh (h : DraftOk plan attempts fresh.id fresh)
    (hold : DraftOk plan attempts k r) (hround : r.round ≤ fresh.maxRounds)
    (hid : fresh.repairAttemptID = attemptID) :
    DraftOk plan attempts k (r.refresh fresh k attemptID) := by
  have hne : r.stateHistory ≠ [] := by
    intro he
    have := hold.history.1
    rw [he] at this
    cases this
  have hhist : (if r.stateHistory.isEmpty then [r.state] else r.stateHistory) = r.stateHistory := by
    simp [hne]
  refine ⟨hold.named, h.owner, ⟨h.author.1, h.author.2.1, ?_⟩, h.passed, h.target, h.verification,
    h.known, ⟨hold.rounds.1, hround, h.rounds.2.2⟩, hold.state, ?_⟩
  · exact mem_appendUnique.mpr ⟨.inr (by simp [RepairPlan.refresh, hid]), h.author.2.1⟩
  · unfold HistoryOk RepairPlan.refresh
    simp only [hhist]
    exact hold.history

/-- The drafts after the repair stage; `b` is the attempt as it is committed. -/
theorem Repairs.drafts (h : Repairs plan p.attempts p.repairPlans)
    (hok : FinishesOk plan p k a) (hf : FinishFacts plan p k input now f a)
    (heff : RepairEffect plan p f.attempt a' mid) (hre : Replans plan p a input)
    (hb : b.nodeID = a.nodeID) (hst : b.status = f.attempt.status)
    (hg : Grows p.attempts (p.attempts.insert k b)) :
    ∀ (j : String) (r : RepairPlan), mid.repairPlans[j]? = some r →
      DraftOk plan (p.attempts.insert k b) j r := by
  have hgrown : ∀ (j : String) (r : RepairPlan), p.repairPlans[j]? = some r →
      DraftOk plan (p.attempts.insert k b) j r := fun j r hr => (h j r hr).draft.grow hg
  have hkey : ∀ {j : String} {r : RepairPlan}, p.repairPlans[j]? = some r → r.id = j :=
    fun hr => (h _ _ hr).contract.key
  cases heff with
  | idle => exact hgrown
  | transient r hd hr hret => exact GoMap.forall_set hgrown (hkey hr ▸ hgrown _ r hr)
  | patched r r₁ hd hs hp hr hnext =>
    have hid : r₁.id = r.id := by obtain ⟨_, rfl⟩ := setRepairState_eq hnext; rfl
    have hold : DraftOk plan (p.attempts.insert k b) r₁.id r := by
      rw [hid, hkey hr]; exact hgrown _ r hr
    exact GoMap.forall_set hgrown ((hold.advance (by simp) hnext).bind _ _ _ _ _)
  | verified r r₁ s hd hs hp hr hc hnext =>
    have hid : r₁.id = r.id := by obtain ⟨_, rfl⟩ := setRepairState_eq hnext; rfl
    refine GoMap.forall_set hgrown ?_
    rw [hid, hkey hr]
    exact ((hgrown _ r hr).bind _ _ _ _ _).advance (by rw [hc]; split <;> simp) hnext
  | failed r r₂ s q hd hu hr hround =>
    obtain ⟨hunbound, hq⟩ := hround.unbound (fun _ _ => True) (p.attempts.insert k b) (hkey hr)
    rw [hq]
    refine GoMap.forall_set hgrown ?_
    rw [hunbound.key]
    exact (hgrown _ r hr).failed hround
  | planned fresh hkind hp hc =>
    have hd := createRepairPlan_ok hc
    obtain ⟨hnodup, hopen⟩ := hre (hf.nodeID ▸ hkind) (hf.passing hp)
    have hfresh := hd.draftOk hok hf hnodup hb (hst.trans hp)
    rcases recordRepairPlan_plans p { f.attempt with repairState := .planned } fresh with
      ⟨j, existing, hj, hfor, hq⟩ | hq | hq
    · rw [hq]
      refine GoMap.forall_set hgrown (hfresh.refresh (hgrown _ existing hj) ?_ hd.author.2.1)
      have hres : f.attempt.result = input.result := by rw [hf.attempt]
      have hmax := hd.rounds.2.2
      simp only [hres] at hmax
      rw [hmax]
      exact (hopen j existing hj (by rw [← hf.nodeID]; exact hfor)).2
    · rw [hq]
      exact GoMap.forall_set hgrown hfresh
    · rw [hq]
      exact hgrown

theorem Repairs.pendings (h : Repairs plan p.attempts p.repairPlans)
    (hok : FinishesOk plan p k a) (hf : FinishFacts plan p k input now f a)
    (heff : RepairEffect plan p f.attempt a' mid) (hdec : Decides plan p k a input)
    (hre : Replans plan p a input) (hst : b.status = f.attempt.status) :
    ∀ (j : String) (r : RepairPlan), mid.repairPlans[j]? = some r →
      PendingOk (p.attempts.insert k b) j r := by
  have hlive : a.status ≠ .passed := by rcases hf.live with h | h <;> simp [h]
  -- Contracts that do not count on the attempt are not concerned.
  have hother : ∀ (j : String) (r : RepairPlan), p.repairPlans[j]? = some r → ¬ Counts r k →
      PendingOk (p.attempts.insert k b) j r := fun j r hr hn => (h j r hr).pending.write hn
  -- One that counts on it is the attempt's own, and the finish decides it.
  have hcounts : ∀ {j : String} {r : RepairPlan}, p.repairPlans[j]? = some r → Counts r k →
      a.repairPlanID = j ∧ a.driving plan ∧ Named p k a := by
    intro j r hr hc
    obtain ⟨hnamed, hrun, hid, hrs⟩ := (h j r hr).named hr hc hf.stored hlive
    have hstate : a.repairState = .dispatched ∨ a.repairState = .verifying := by
      rw [hrs]; exact hc.imp (·.1) (·.1)
    refine ⟨hid, ⟨fun hk => ?_, hid ▸ (h j r hr).draft.named, hstate⟩, hnamed⟩
    have hauthor := hok.author hk
    exact hstate.elim hauthor.1 hauthor.2
  have hevent : a.driving plan → Named p k a → f.attempt.status ≠ .waiting ∧
      isRetryableRepairProviderFailure f.attempt = false := by
    intro hd hn
    obtain ⟨hw, hret⟩ := ((hdec hd _ hf.event).2 hn)
    refine ⟨hw, ?_⟩
    rw [hf.attempt]
    exact hret
  have hkey : ∀ {j : String} {r : RepairPlan}, p.repairPlans[j]? = some r → r.id = j :=
    fun hr => (h _ _ hr).contract.key
  -- Other contracts than the attempt's own.
  have hforeign : ∀ {own : RepairPlan}, p.repairPlans[f.attempt.repairPlanID]? = some own →
      ∀ (j : String) (r : RepairPlan), p.repairPlans[j]? = some r → j ≠ own.id →
        PendingOk (p.attempts.insert k b) j r := by
    intro own hown j r hr hne
    refine hother j r hr fun hc => hne ?_
    rw [hkey hown, hf.link.1]
    exact (hcounts hr hc).1.symm
  cases heff with
  | idle s hplanning hdriving =>
    intro j r hr
    refine hother j r hr fun hc => ?_
    obtain ⟨-, hd, hn⟩ := hcounts hr hc
    obtain ⟨hnot, hsucc⟩ := hdriving (hf.driving.mpr hd)
    rcases eventStatus_cases hf.event with hp | hw | hu
    · exact hnot hp
    · exact (hevent hd hn).1 hw
    · rw [hsucc] at hu; cases hu
  | transient r hd hr hret =>
    have hall (j r) (hr : p.repairPlans[j]? = some r) := hother j r hr fun hc => by
      obtain ⟨-, hd, hn⟩ := hcounts hr hc
      rw [(hevent hd hn).2] at hret
      cases hret
    exact GoMap.forall_set hall (hkey hr ▸ hall _ r hr)
  | patched r r₁ hd hs hp hr hnext =>
    have hforeign := hforeign hr
    obtain ⟨_, rfl⟩ := setRepairState_eq hnext
    exact GoMap.forall_overwrite hforeign (.settled (by simp) (by simp))
  | verified r r₁ s hd hs hp hr hc hnext =>
    have hforeign := hforeign hr
    obtain ⟨_, rfl⟩ := setRepairState_eq hnext
    obtain ⟨hstate, hv⟩ := (((hdec (hf.driving.mp hd) _ hf.event).1 hp) r
      (hf.link.1 ▸ hr)).2 (hf.link.2 ▸ hs)
    refine GoMap.forall_overwrite hforeign ⟨fun he => ?_, fun _ node v hnode => ?_,
      fun _ => ⟨a.nodeID, k, hv⟩⟩
    · rw [show s = .dispatched from he] at hc
      split at hc <;> cases hc
    · by_cases hkv : k = v
      · exact ⟨b, by rw [hkv, GoMap.get_set, if_pos rfl], .inl (hst.trans hp)⟩
      · obtain ⟨c, hc', hrun⟩ := (h _ r hr).pending.verifying hstate node v hnode
        refine ⟨c, by rw [GoMap.get_set_ne hkv]; exact hc', ?_⟩
        rw [show r.id = _ from hkey hr]
        exact hrun
  | failed r r₂ s q hd hu hr hround =>
    obtain ⟨hunbound, hq⟩ := hround.unbound (fun _ _ => True) (p.attempts.insert k b) (hkey hr)
    rw [hq]
    refine GoMap.forall_overwrite ?_ ?_
    · rw [hunbound.key]
      exact hkey hr ▸ hforeign hr
    · cases hround with
      | again r₁ r₂ h₁ left h₂ =>
        obtain ⟨_, rfl⟩ := setRepairState_eq h₂
        exact .settled (by simp) (by simp)
      | last r₁ r₂ h₁ left h₂ =>
        obtain ⟨_, rfl⟩ := setRepairState_eq h₂
        exact .settled (by simp) (by simp)
  | planned fresh hkind hp hc =>
    have hall (j r) (hr : p.repairPlans[j]? = some r) := hother j r hr fun hc =>
      (hcounts hr hc).2.1.1 (hf.nodeID ▸ hkind)
    have hd := createRepairPlan_ok hc
    rcases recordRepairPlan_plans p { f.attempt with repairState := .planned } fresh with
      ⟨j, existing, hj, hfor, hq⟩ | hq | hq
    · rw [hq]
      have hplanned := ((hre (hf.nodeID ▸ hkind) (hf.passing hp)).2 j existing hj
        (by rw [← hf.nodeID]; exact hfor)).1
      exact GoMap.forall_set hall (.settled (by simp [RepairPlan.refresh, hplanned])
        (by simp [RepairPlan.refresh, hplanned]))
    · rw [hq]
      exact GoMap.forall_set hall (.settled (by simp [hd.planned.1]) (by simp [hd.planned.1]))
    · rw [hq]
      exact hall

end

end Adro.Orchestration
