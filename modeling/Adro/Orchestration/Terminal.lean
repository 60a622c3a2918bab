import Adro.Orchestration.Discipline

/-!
# Terminal plans

Once a plan is terminal, a start of a ready or failed node and the finish of an
attempt that was still in flight can reopen it or overwrite its outcome: neither
`startAttempt` nor `route` looks at the plan's status. In the runs of
`terminal_stays_terminal`, what is still in flight when the plan ends is parked
or follows an edge, and nothing is started.
-/

namespace Adro.Orchestration

open Adro.Go Adro.Runs

def SameEnd (p q : PlanProjection) : Prop :=
  q.status = p.status ∧ q.terminalOutcome = p.terminalOutcome

theorem SameEnd.trans (h : SameEnd p q) (h' : SameEnd q r) : SameEnd p r :=
  ⟨h'.1.trans h.1, h'.2.trans h.2⟩

theorem followEdge_sameEnd (plan : RequirementExecutionPlan) (a : NodeAttempt) (key : String)
    (fan : Bool) (e : WorkflowEdge) (p : PlanProjection) :
    SameEnd p (followEdge plan a key fan e p).2 := by
  have hcount : SameEnd p (countTraversal e p) := by
    unfold countTraversal; split <;> exact ⟨rfl, rfl⟩
  unfold followEdge
  simp only
  split
  · exact hcount
  · refine hcount.trans (.trans (q := openTarget e fan (countTraversal e p)) ?_ ?_)
    · unfold openTarget; simp only; split <;> exact ⟨rfl, rfl⟩
    · unfold recordDecision; split <;> exact ⟨rfl, rfl⟩

theorem followAll_sameEnd : SameEnd p (followAll plan a key es p).2 := by
  induction es generalizing p with
  | nil => exact ⟨rfl, rfl⟩
  | cons e es ih =>
    have hfirst := followEdge_sameEnd plan a key true e p
    unfold followAll
    split
    · rename_i h; rw [h] at hfirst; exact hfirst
    · rename_i h; rw [h] at hfirst; exact hfirst.trans ih

/-- An edge without a predicate that the result satisfies. -/
structure Takes (e : WorkflowEdge) (a : NodeAttempt) (event : String) : Prop where
  source : e.fromID = a.nodeID
  event : eventMatches e.on a.status event a.result.outcome = true
  predicate : blank e.predicate.kind = true
  evidence : ∀ r ∈ e.requiredEvidence, r ∈ a.result.evidenceIDs

theorem evaluatePredicate_blank (h : blank q.kind = true) (fields : GoMap Value) :
    evaluatePredicate q fields = .ok true := by
  cases q with
  | mk kind field op value children =>
    have hk : blank kind = true := h
    simp [evaluatePredicate, validatePredicate, Predicate.kind, hk, bind, Except.bind, pure,
      Except.pure]

theorem Takes.carried {event : String} (h : Takes e a event) : carried e a = true := by
  simpa [Orchestration.carried, evaluatePredicate_blank h.predicate] using h.evidence

theorem selectEdges_none (h : selectEdges es = .ok .none) : es = [] := by
  unfold selectEdges at h
  split at h
  · rfl
  · cases h
  · simp only at h
    split at h
    · cases h
    · split at h <;> cases h

theorem route_sameEnd (hdead : deadlineTimeout a = false) (he : e ∈ plan.graphSnapshot.edges)
    (ht : Takes e a input.event) : SameEnd p (route H plan a input now p).2 := by
  unfold route
  rw [hdead]
  simp only [Bool.false_eq_true, if_false]
  split
  · exact ⟨rfl, rfl⟩
  · rename_i hsel
    obtain ⟨es, hm, hs⟩ := bind_ok.mp hsel
    have hmem := (mem_matchEdges hm).mpr ⟨he, ht.source, ht.event, ht.carried⟩
    rw [selectEdges_none hs] at hmem
    cases hmem
  · exact followEdge_sameEnd ..
  · exact followAll_sameEnd

/-- The finish parks the attempt, or an edge without a predicate takes it. -/
def Forwards (plan : RequirementExecutionPlan) (a : NodeAttempt) (input : TransitionInput) : Prop :=
  input.event = "waiting" ∨ input.event = "approval" ∨
    (input.failure.all (fun r => r.code != "plan_deadline_exceeded") = true ∧
      ∃ e ∈ plan.graphSnapshot.edges, ∀ s, eventStatus input.event = some s →
        Takes e { a with result := input.result, status := s } input.event)

def KeepsEnd (plan : RequirementExecutionPlan) (p : PlanProjection) (s : Step) : Prop :=
  match s.op with
  | .start args => p.status = .terminal → ∀ n, p.nodes[args.nodeID]? = some n →
      n.status ≠ .ready ∧ n.status ≠ .failed ∧ n.status ≠ .timedOut
  | .finish k input => p.status = .terminal → ∀ a, p.attempts[k]? = some a →
      a.status = .running ∨ a.status = .waiting → Forwards plan a input
  | .retry _ => False
  | .takeOver k owner _ => p.status = .terminal → ∀ a, p.attempts[k]? = some a →
      a.status = .running → owner = "" ∨ Forwards plan a (takeOverInput plan k 0 0)

theorem parked_not_routed (h : event = "waiting" ∨ event = "approval")
    (hs : eventStatus event = some s) : routes s event = false := by
  rcases h with rfl | rfl <;> cases hs <;> decide

theorem settle_sameEnd (hf : FinishFacts plan p k input now f a)
    (hr : repairStage plan p f.attempt = (.ok a', mid)) (hfw : Forwards plan a input)
    (hs : settle H plan f k input (stampAttempt f.now a') mid = (res, q)) : SameEnd mid q := by
  obtain ⟨hout, hev, hfail⟩ := stamped_input hr hf
  have hst := stamped_status (t := f.now) hr
  have hnode := stamped_nodeID (t := f.now) hr hf
  generalize stampAttempt f.now a' = b at *
  have hcommit : SameEnd mid
      (shortCircuitJoins H plan.graphSnapshot b (commitFinish f k b mid)) := by
    rw [(shortCircuitJoins_reopens H plan.graphSnapshot b (commitFinish f k b mid)).rest]
    exact ⟨rfl, rfl⟩
  unfold settle at hs
  simp only at hs
  split at hs
  · rename_i hroutes
    have hroute : SameEnd mid (route H plan b input f.now
        (shortCircuitJoins H plan.graphSnapshot b (commitFinish f k b mid))).2 := by
      refine hcommit.trans ?_
      rw [hst] at hroutes
      rcases hfw with hw | hw | ⟨hdead, e, he, ht⟩
      · rw [parked_not_routed (.inl hw) hf.event] at hroutes; cases hroutes
      · rw [parked_not_routed (.inr hw) hf.event] at hroutes; cases hroutes
      · have ht := ht f.attempt.status hf.event
        refine route_sameEnd ?_ he ⟨hnode ▸ ht.source, ?_, ht.predicate, hev ▸ ht.evidence⟩
        · simp only [deadlineTimeout, hfail, Bool.and_eq_false_iff]
          right
          cases hin : input.failure with
          | none => rfl
          | some r => rw [hin] at hdead; simpa using hdead
        · rw [hst, hout]; exact ht.event
    split at hs
    · rename_i e m hm
      rw [hm] at hroute
      cases hs
      exact ⟨rfl, hroute.2⟩
    · rename_i u m hm
      rw [hm] at hroute
      cases hs
      rw [noteReason_eq]
      exact hroute
  · cases hs
    rw [noteReason_eq]
    exact hcommit

theorem FinishResult.sameEnd (h : FinishResult H plan p k input f res q)
    (hf : FinishFacts plan p k input now f a) (hfw : Forwards plan a input) : SameEnd p q := by
  have hmid : ∀ mid, Repaired (contractCovers p f.attempt) p mid → SameEnd p mid :=
    fun mid hm => by rw [hm.rest]; exact ⟨rfl, rfl⟩
  cases h with
  | refused e q hq => exact hmid q (repairStage_result hq)
  | kept a' mid m hr _ hs =>
    exact (hmid mid (repairStage_result hr)).trans (settle_sameEnd hf hr hfw hs)
  | undone a' mid m e hr _ hs =>
    exact (hmid mid (repairStage_result hr)).trans (settle_sameEnd hf hr hfw hs)

/-- The plan ended in `p`, and in `q` it is as it was and has no new attempt. -/
def EndKept (p q : PlanProjection) : Prop :=
  p.status = .terminal → SameEnd p q ∧
    ∀ (k : String) (a : NodeAttempt), q.attempts[k]? = some a → ∃ a', p.attempts[k]? = some a'

theorem AttemptsRewrite.old {k : String} (h : AttemptsRewrite attempts attempts')
    (hk : attempts'[k]? = some b) : ∃ a, attempts[k]? = some a := by
  cases h with
  | same => exact ⟨b, hk⟩
  | write j a c hj =>
    rw [GoMap.get_set] at hk
    split at hk
    · rename_i hjk; exact ⟨a, hjk ▸ hj⟩
    · exact ⟨b, hk⟩

theorem not_startable {n : NodeProjection}
    (hs : n.status ≠ .ready ∧ n.status ≠ .failed ∧ n.status ≠ .timedOut) :
    ¬ (n.status = .ready ∨ n.status = .failed ∨ n.status = .timedOut) := by
  simp [hs]

theorem next_sameEnd (hs : KeepsEnd plan p s) (hterm : p.status = .terminal) :
    SameEnd p (next H plan p s) := by
  have heff := call_effect H plan p s
  unfold KeepsEnd at hs
  generalize s.op = op at heff hs
  generalize next H plan p s = q at heff
  generalize (s.call H plan p).1 = res at heff
  cases heff with
  | same => exact ⟨rfl, rfl⟩
  | started args now n no hf =>
    exact absurd hf.startable (not_startable (hs hterm n hf.node))
  | finished k input now f a res q hf hres =>
    exact hres.sameEnd hf (hs hterm a hf.stored hf.live)
  | retried => exact absurd hs id
  | claimed => exact ⟨rfl, rfl⟩
  | takenOver k owner at₀ now now' a f b res q ha hrun hown hf hres =>
    have hb : b.nodeID = a.nodeID := by
      have := hf.stored
      simp only [claimLease, GoMap.get_set, if_true, Option.some.injEq] at this
      rw [← this]
    rcases hs hterm a ha hrun with h | h | h | ⟨hdead, e, he, ht⟩
    · exact absurd h hown
    · exact absurd (show "timeout" = "waiting" from h) (by decide)
    · exact absurd (show "timeout" = "approval" from h) (by decide)
    · have hfw : Forwards plan b (takeOverInput plan k (i64 (a.lease.fencingToken + 1)) now) := by
        refine .inr (.inr ⟨hdead, e, he, fun s hs => ?_⟩)
        have := ht s hs
        exact ⟨hb ▸ this.source, this.event, this.predicate, this.evidence⟩
      exact hres.sameEnd hf hfw

theorem next_endKept (hs : KeepsEnd plan p s) : EndKept p (next H plan p s) := by
  intro hterm
  refine ⟨next_sameEnd hs hterm, fun k a hk => ?_⟩
  rcases (call_effect H plan p s).attemptsChange with ⟨args, now, n, no, hop, hf, -⟩ | h
  · unfold KeepsEnd at hs
    rw [hop] at hs
    exact absurd hf.startable (not_startable (hs hterm n hf.node))
  · exact h.old hk

/-- In every run of starts, finishes and takeovers, from a new projection or any
other, that starts nothing in a terminal plan and parks or forwards what is
still in flight there: once the plan is terminal, its status and outcome never
change and no attempt is created. -/
theorem terminal_stays_terminal (H : Host) (plan : RequirementExecutionPlan) (p₀ : PlanProjection)
    (run more : List Step)
    (hrun : Meets (next H plan) (KeepsEnd plan) p₀ (run ++ more))
    (hterm : (after H plan p₀ run).status = .terminal) :
    (after H plan p₀ (run ++ more)).status = .terminal ∧
    (after H plan p₀ (run ++ more)).terminalOutcome = (after H plan p₀ run).terminalOutcome ∧
    ∀ (k : String) (a : NodeAttempt), (after H plan p₀ (run ++ more)).attempts[k]? = some a →
      ∃ a', (after H plan p₀ run).attempts[k]? = some a' := by
  have hkept : EndKept (after H plan p₀ run) (after H plan p₀ (run ++ more)) := by
    unfold after
    rw [exec_append]
    refine related (I := fun _ => True) ?_ ?_ trivial (fun _ _ _ _ => trivial)
      (fun p s _ hs => next_endKept hs) (meets_append.mp hrun).2
    · exact fun p _ => ⟨⟨rfl, rfl⟩, fun k a hk => ⟨a, hk⟩⟩
    · intro p q r hpq hqr hp
      obtain ⟨hend, hold⟩ := hpq hp
      obtain ⟨hend', hold'⟩ := hqr (hend.1.trans hp)
      refine ⟨hend.trans hend', fun k a hk => ?_⟩
      obtain ⟨a', ha'⟩ := hold' k a hk
      exact hold k a' ha'
  obtain ⟨hend, hold⟩ := hkept hterm
  exact ⟨hend.1.trans hterm, hend.2, hold⟩

def twoExitPlan : RequirementExecutionPlan :=
  samplePlan { id := "g", version := 1, entryNodeIDs := ["a", "b"], exitNodeIDs := ["a", "b"]
               nodes := [agentNode "a", agentNode "b"] }

theorem terminal_stays_terminal_parked :
    (sampleRun twoExitPlan [startCall "a" "a1", startCall "b" "b1",
      finishCall "a1" "success" {}]).status = .terminal ∧
    (after sampleHost twoExitPlan (sampleRun twoExitPlan []) ([startCall "a" "a1",
      startCall "b" "b1", finishCall "a1" "success" {}] ++
        [finishCall "b1" "waiting" {}])).terminalOutcome =
      (after sampleHost twoExitPlan (sampleRun twoExitPlan []) [startCall "a" "a1",
        startCall "b" "b1", finishCall "a1" "success" {}]).terminalOutcome := by
  refine ⟨by decide +kernel, ?_⟩
  refine (terminal_stays_terminal sampleHost twoExitPlan (sampleRun twoExitPlan [])
    [startCall "a" "a1", startCall "b" "b1", finishCall "a1" "success" {}]
    [finishCall "b1" "waiting" {}]
    ⟨fun h => ?_, fun h => ?_, fun h => ?_, fun _ a _ _ => .inl rfl, trivial⟩
    (by decide +kernel)).2.1
  · exact absurd h (by decide +kernel)
  · exact absurd h (by decide +kernel)
  · exact absurd h (by decide +kernel)

/-- The first exit ends the plan as succeeded. The failure of the attempt still
running then ends it as failed, and starting a failed node makes it run again. -/
theorem terminal_outcome_overwritten :
    let ended := [startCall "a" "a1", startCall "b" "b1", finishCall "a1" "success" {}]
    let p := sampleRun twoExitPlan ended
    let q := sampleRun twoExitPlan (ended ++ [finishCall "b1" "failure" {}])
    let r := sampleRun twoExitPlan (ended ++ [finishCall "b1" "failure" {}, startCall "b" "b2"])
    (p.status = .terminal ∧ p.terminalOutcome = "succeeded") ∧
      (q.status = .terminal ∧ q.terminalOutcome = "failed") ∧
      (r.status = .running ∧ r.attempts["b2"]?.isSome = true) := by
  decide +kernel

end Adro.Orchestration
