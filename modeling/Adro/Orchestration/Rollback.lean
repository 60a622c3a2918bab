import Adro.Orchestration.Discipline

/-!
# Calls that fail

When the routing of a finished attempt succeeds, what a refused repair stage
leaves, and the takeovers whose failure has no effect.
-/

namespace Adro.Orchestration

open Adro.Go Adro.Runs

theorem i64_i64 : i64 (i64 n) = i64 n := by
  unfold i64
  omega

theorem i64_succ_ne : i64 (n + 1) ≠ n := by
  unfold i64
  omega

def CountersInRange (p : PlanProjection) : Prop :=
  i64 p.tokenUsage = p.tokenUsage ∧ i64 p.toolCalls = p.toolCalls ∧ i64 p.costCents = p.costCents

theorem commitFinish_inRange (f : Finishing) (k : String) (b : NodeAttempt)
    (mid : PlanProjection) : CountersInRange (commitFinish f k b mid) :=
  ⟨i64_i64, i64_i64, i64_i64⟩

theorem FinishResult.inRange (hres : FinishResult H plan p k input f res q)
    (h : CountersInRange p) : CountersInRange q := by
  have hrouted : ∀ b mid m, Routed (settleOpens plan b input.event) (commitFinish f k b mid) m →
      CountersInRange m := fun b mid m hm => by
    rw [hm.rest]; exact commitFinish_inRange f k b mid
  cases hres with
  | refused e q hq => rw [(repairStage_result hq).rest]; exact h
  | kept a' mid m _ hm _ => rw [noteReason_eq]; exact hrouted _ mid m hm
  | undone a' mid m e _ hm _ => exact hrouted _ mid m hm

theorem next_inRange (h : CountersInRange p) : CountersInRange (next H plan p s) := by
  have heff := call_effect H plan p s
  generalize s.op = op, next H plan p s = q, (s.call H plan p).1 = res at heff
  cases heff with
  | same => exact h
  | started => exact ⟨i64_i64, h.2⟩
  | finished k input now f a res q hf hres => exact hres.inRange h
  | retried => exact h
  | claimed => exact h
  | takenOver k owner at₀ now now' a f b res q ha hrun hown hf hres =>
    exact hres.inRange h

theorem failRepairRound_error (h : failRepairRound p r reopen = (.error e, q)) : q = p := by
  unfold failRepairRound at h
  split at h
  · cases h; rfl
  · rename_i r' hr'
    obtain ⟨history, rfl⟩ := setRepairState_eq hr'
    split at h
    · cases h
    · cases h

/-- The contract of a verification attempt accepts its result. -/
def VerificationOpen (plan : RequirementExecutionPlan) (p : PlanProjection) (a : NodeAttempt)
    (event : String) : Prop :=
  (plan.graphSnapshot.node a.nodeID).kind ≠ .repair → a.repairPlanID ≠ "" →
    a.repairState = .verifying → eventStatus event = some .passed →
    ∀ r, p.repairPlans[a.repairPlanID]? = some r → r.state = .verifying

theorem passVerification_accepts (h : r.state = .verifying) :
    passVerification p a r ≠ (.error e, q) := by
  unfold passVerification
  simp only
  intro heq
  split at heq
  · rename_i hnone
    have hallowed := setRepairState_allowed { r with
        verifiedNodes := r.verifiedNodes.insert a.nodeID true
        verificationArtifactIDs := appendUnique r.verificationArtifactIDs a.outputArtifacts }
      (if (r.verifiedNodes.insert a.nodeID true).size == r.verificationNodeIDs.length
        then .verified else .verifying) (by simp [h]) (by split <;> simp)
    obtain ⟨r', hr'⟩ := hallowed.mpr (by split <;> simp [h, repairLifecycleTransitionAllowed])
    rw [hr'] at hnone
    cases hnone
  · cases heq

theorem advanceRepairAttemptState_error
    (hopen : a.repairPlanID ≠ "" → a.repairState = .verifying → a.status = .passed →
      ∀ r, p.repairPlans[a.repairPlanID]? = some r → r.state = .verifying)
    (h : advanceRepairAttemptState p a = (.error e, q)) : q = p := by
  unfold advanceRepairAttemptState at h
  split at h
  · cases h
  · rename_i hid
    have hid : a.repairPlanID ≠ "" := by simpa using hid
    split at h
    · cases h; rfl
    · rename_i r hr
      split at h
      · cases h
      · split at h
        · split at h
          · unfold passTarget at h
            split at h
            · cases h; rfl
            · cases h
          · split at h
            · exact failRepairRound_error h
            · cases h
        · rename_i hst
          split at h
          · rename_i hp
            exact absurd h (passVerification_accepts (hopen hid hst (by simpa using hp) r hr))
          · split at h
            · exact failRepairRound_error h
            · cases h
        · cases h

theorem planRepair_error (h : planRepair plan p a = (.error e, q)) : q = p := by
  unfold planRepair at h
  simp only at h
  split at h
  · cases h; rfl
  · split at h <;> cases h
    rfl

theorem repairStage_error (hf : FinishFacts plan p k input now f a)
    (hopen : VerificationOpen plan p a input.event)
    (h : repairStage plan p f.attempt = (.error e, q)) : q = p := by
  unfold repairStage at h
  have hnode := hf.nodeID
  split at h
  · split at h
    · exact planRepair_error h
    · split at h <;> cases h
  · rename_i hkind
    have hkind : (plan.graphSnapshot.node a.nodeID).kind ≠ .repair := by
      rw [← hnode]; simpa using hkind
    split at h
    · split at h
      · rename_i e' q' hadv
        cases h
        refine advanceRepairAttemptState_error (fun hid hv hp r hr => ?_) hadv
        have hattempt := hf.attempt
        refine hopen hkind ?_ ?_ (by rw [hf.event, hp]) r ?_
        · rw [hattempt] at hid; exact hid
        · rw [hattempt] at hv; exact hv
        · rw [hattempt] at hr; exact hr
      · cases h
    · cases h

def Spare (p : PlanProjection) (e : WorkflowEdge) : Prop :=
  e.maxTraversals ≤ 0 ∨ i64 (traversalsOf p e + 1) ≤ e.maxTraversals

def Selection.Spare (p : PlanProjection) : Selection → Prop
  | .none => True
  | .single e => Orchestration.Spare p e
  | .fanOut es => (es.map (·.id)).Nodup ∧ ∀ e ∈ es, Orchestration.Spare p e

section

variable (plan : RequirementExecutionPlan) (a : NodeAttempt) (key : String)

/-- The matched edges of a passing result, whatever repair state is recorded in
it, are unambiguous and not exhausted. -/
def Routable (p : PlanProjection) (a : NodeAttempt) (input : TransitionInput) : Prop :=
  input.result.evidenceIDs ≠ [] ∧ ∀ s, ∃ selection,
    routeSelection plan (stampAttempt 0 { a with
      result := input.result, status := .passed, repairState := s }) input.event = .ok selection ∧
    selection.Spare p

theorem matchEdges_congr (hn : b.nodeID = c.nodeID)
    (hs : b.status = c.status) (hr : b.result = c.result) (es : List WorkflowEdge) :
    matchEdges b event es = matchEdges c event es := by
  induction es with
  | nil => rfl
  | cons e es ih => simp only [matchEdges, hn, hs, hr, ih]

theorem traversals_counted (h : e.maxTraversals > 0) :
    traversalsOf (countTraversal e p) e = i64 (traversalsOf p e + 1) := by
  simp [countTraversal, h, traversalsOf]

theorem followEdge_spare
    (fan : Bool) (h : Spare p e) : (followEdge plan a key fan e p).1 = .ok () := by
  unfold followEdge
  simp only
  split
  · rename_i hover
    simp only [Bool.and_eq_true, decide_eq_true_eq] at hover
    obtain ⟨hpos, hover⟩ := hover
    rw [traversals_counted hpos] at hover
    rcases h with h | h <;> omega
  · rfl

theorem traversalsOf_other (fan : Bool) (p : PlanProjection) (hne : e.id ≠ d.id) :
    traversalsOf (followEdge plan a key fan e p).2 d = traversalsOf p d := by
  have hcount : traversalsOf (countTraversal e p) d = traversalsOf p d := by
    unfold countTraversal
    split
    · simp only [traversalsOf, GoMap.get_set_ne hne]
    · rfl
  unfold followEdge
  simp only
  split
  · exact hcount
  · rw [← hcount]
    unfold recordDecision openTarget
    simp only
    split <;> split <;> rfl

theorem followAll_spare (hnodup : (es.map (·.id)).Nodup) (h : ∀ e ∈ es, Spare p e) :
    (followAll plan a key es p).1 = .ok () := by
  induction es generalizing p with
  | nil => rfl
  | cons e es ih =>
    obtain ⟨hnot, hnodup⟩ := List.nodup_cons.mp hnodup
    unfold followAll
    have hok := followEdge_spare plan a key true (h e List.mem_cons_self)
    split
    · rename_i q hq
      rw [hq] at hok
      cases hok
    · rename_i q hq
      refine ih hnodup fun d hd => ?_
      have hne : e.id ≠ d.id := fun heq => hnot (List.mem_map.mpr ⟨d, hd, heq.symm⟩)
      have hsame := traversalsOf_other plan a key true p hne
      rw [hq] at hsame
      have hspare := h d (List.mem_cons_of_mem _ hd)
      unfold Spare
      rwa [hsame]

/-- The routing of an attempt finds its way: the deadline of the plan has passed,
or the edges it selects may be followed. -/
def Carried (p : PlanProjection) (b : NodeAttempt) (event : String) : Prop :=
  deadlineTimeout b = true ∨
    ∃ selection, routeSelection plan b event = .ok selection ∧ selection.Spare p

end

theorem route_carried (hev : b.result.evidenceIDs ≠ []) (h : Carried plan p b input.event) :
    (route H plan b input now p).1 = .ok () := by
  unfold route
  split
  · rfl
  rename_i hdead
  obtain ⟨selection, hsel, hspare⟩ := h.resolve_left hdead
  rw [hsel]
  cases selection with
  | none =>
    unfold routeWithoutEdge
    have hev : b.result.evidenceIDs.isEmpty = false := by simpa using hev
    simp only [hev, Bool.false_eq_true, if_false]
    repeat' split
    all_goals rfl
  | single e => exact followEdge_spare plan b _ false hspare
  | fanOut es => exact followAll_spare plan b _ hspare.1 hspare.2

/-- Selection reads the node, the status and the result with its repair state. -/
theorem stamped_selection (hf : FinishFacts plan p k input now f a)
    (hr : repairStage plan p f.attempt = (.ok a', mid)) (event : String) :
    routeSelection plan (stampAttempt f.now a') event =
      routeSelection plan (stampAttempt 0 { a with
        result := input.result, status := f.attempt.status, repairState := a'.repairState })
        event := by
  have hres : a'.result = input.result := by rw [repairStage_attempt hr, hf.attempt]
  unfold routeSelection
  congr 1
  refine matchEdges_congr ?_ ?_ ?_ _
  · exact (stamped_nodeID hr hf : _ = a.nodeID)
  · exact stamped_status hr
  · simp [stampAttempt, hres]

theorem Carried.not_undone (h : Carried plan p (stampAttempt f.now a') input.event)
    (hf : FinishFacts plan p k input now f a) (hids : input.result.evidenceIDs ≠ [])
    (hr : repairStage plan p f.attempt = (.ok a', mid))
    (hs : settle H plan f k input (stampAttempt f.now a') mid = (.error e, q)) : False := by
  have hrest := (repairStage_result hr).rest
  have hev := (stamped_input (t := f.now) hr hf).2.1
  have hjoins := (shortCircuitJoins_reopens H plan.graphSnapshot (stampAttempt f.now a')
    (commitFinish f k (stampAttempt f.now a') mid)).rest
  have hroute : (route H plan (stampAttempt f.now a') input f.now (shortCircuitJoins H
      plan.graphSnapshot (stampAttempt f.now a')
      (commitFinish f k (stampAttempt f.now a') mid))).1 = .ok () := by
    refine route_carried (hev ▸ hids) (h.imp_right fun ⟨selection, hsel, hspare⟩ =>
      ⟨selection, hsel, ?_⟩)
    have htrav : ∀ d, traversalsOf (shortCircuitJoins H plan.graphSnapshot (stampAttempt f.now a')
        (commitFinish f k (stampAttempt f.now a') mid)) d = traversalsOf p d := fun d => by
      rw [hjoins]
      rw [hrest]
      rfl
    cases selection <;> simp only [Selection.Spare, Spare, htrav] at ⊢ <;> exact hspare
  unfold settle at hs
  simp only at hs
  split at hs
  · split at hs
    · rename_i e' m hm
      rw [hm] at hroute
      cases hroute
    · cases hs
  · cases hs

theorem Routable.not_undone (h : Routable plan p a input)
    (hf : FinishFacts plan p k input now f a) (hp : f.attempt.status = .passed)
    (hr : repairStage plan p f.attempt = (.ok a', mid))
    (hs : settle H plan f k input (stampAttempt f.now a') mid = (.error e, q)) : False := by
  obtain ⟨selection, hsel, hspare⟩ := h.2 a'.repairState
  refine Carried.not_undone (.inr ⟨selection, ?_, hspare⟩) hf h.1 hr hs
  rw [stamped_selection hf hr, hp, hsel]

/-- A takeover that fails changes nothing exactly when it stops before it
claims the lease. -/
theorem takeOver_error_iff (h : (takeOver H plan p k owner now clock).1 = .error e) :
    (takeOver H plan p k owner now clock).2 = p ↔
      ¬ ∃ a, p.attempts[k]? = some a ∧ a.status = .running ∧ owner ≠ "" := by
  constructor
  · rintro hsame ⟨a, ha, hrun, hown⟩
    -- The claimed lease is kept, with the next fencing token.
    have hnext : ∀ q, q.attempts = (claimLease p a k owner
        (if now == 0 then clock else now)).attempts → q ≠ p := by
      rintro q hq rfl
      rw [hq] at ha
      simp only [claimLease, GoMap.get_set, if_true, Option.some.injEq] at ha
      have := congrArg (fun b => b.lease.fencingToken) ha
      exact i64_succ_ne this
    unfold takeOver at h hsame
    simp only [ha, hrun, bne_self_eq_false, Bool.false_eq_true, if_false, beq_iff_eq,
      hown] at h hsame
    split at h
    · rename_i e' q hfin
      rw [hfin] at hsame
      refine hnext q ?_ hsame
      rcases finishAttempt_cases H plan (claimLease p a k owner (if now = 0 then clock else now)) k
        (takeOverInput plan k (i64 (a.lease.fencingToken + 1)) (if now = 0 then clock else now))
        clock with ⟨e'', h'⟩ | ⟨b, h', -⟩ | ⟨f, b, hf, hres⟩
      · rw [hfin] at h'; cases h'; simp
      · rw [hfin] at h'; cases h'
      · rw [hfin] at hres
        rcases hres.attempts hf with ⟨_, -, hq⟩ | ⟨_, hok, -⟩
        · simpa using hq
        · cases hok
    · cases h
  · intro hno
    unfold takeOver
    split
    · rfl
    · rename_i a ha
      split
      · rfl
      · rename_i hrun
        split
        · rfl
        · rename_i hown
          exact absurd ⟨a, ha, by simpa using hrun, by simpa using hown⟩ hno

end Adro.Orchestration
