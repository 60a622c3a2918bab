import Adro.Orchestration.Runs

/-!
# Attempt discipline

An attempt in flight is the current attempt of its node, and the node has its
status. Running attempts keep this through every call, because no stage of a
finish reopens a running node. A waiting node can be reopened by an edge, a
short-circuited join or a new repair round, which orphans its attempt; the runs
of `attempt_discipline` never do that.
-/

namespace Adro.Orchestration

open Adro.Go Adro.Runs

def NodeAttempt.live (a : NodeAttempt) : Prop := a.status = .running ∨ a.status = .waiting

def AttemptStatus.closed : AttemptStatus → Prop
  | .passed | .failed | .timedOut | .cancelled => True
  | _ => False

/-- Every attempt in flight is its node's current one, with the node's status. -/
def Disciplined (attempts : GoMap NodeAttempt) (nodes : GoMap NodeProjection) : Prop :=
  ∀ (k : String) (a : NodeAttempt), attempts[k]? = some a → a.live →
    ∃ n, nodes[a.nodeID]? = some n ∧ n.currentAttempt = k ∧ n.status = a.status

def NoneWaiting (S : String → Prop) (nodes : GoMap NodeProjection) : Prop :=
  ∀ (j : String) (n : NodeProjection), S j → nodes[j]? = some n → n.status ≠ .waiting

variable {attempts : GoMap NodeAttempt} {nodes : GoMap NodeProjection} {k k' : String}
  {a a' : NodeAttempt}

section
variable (h : Disciplined attempts nodes)
include h

theorem Disciplined.reopened (hr : Reopened S nodes nodes')
    (hw : NoneWaiting S nodes) : Disciplined attempts nodes' := by
  intro k a ha hl
  obtain ⟨n, hn, hc, hs⟩ := h k a ha hl
  rcases hr a.nodeID with e | ⟨hS, n', -, hre⟩
  · exact ⟨n, e ▸ hn, hc, hs⟩
  · -- A reopened node neither ran nor waited, so no attempt of it is in flight.
    rw [hn] at hre
    rcases hl with hl | hl
    · exact absurd (hs.trans hl) hre.idle
    · exact absurd (hs.trans hl) (hw _ n hS hn)

theorem Disciplined.unique (ha : attempts[k]? = some a)
    (hl : a.live) (ha' : attempts[k']? = some a') (hl' : a'.live) (hn : a.nodeID = a'.nodeID) :
    k = k' := by
  obtain ⟨n, hget, hc, -⟩ := h k a ha hl
  obtain ⟨n', hget', hc', -⟩ := h k' a' ha' hl'
  rw [hn, hget'] at hget
  cases hget
  exact hc.symm.trans hc'

/-- Writing an attempt together with its node, whose current attempt it is. -/
theorem Disciplined.write (hb : b.nodeID = node)
    (hcur : n.currentAttempt = k) (hs : b.live → n.status = b.status)
    (hown : ∀ (j : String) (a : NodeAttempt), attempts[j]? = some a → a.live → a.nodeID = node →
      j = k) :
    Disciplined (attempts.insert k b) (nodes.insert node n) := by
  intro j a ha hl
  rw [GoMap.get_set] at ha
  split at ha
  · rename_i hj
    cases ha
    exact ⟨n, by simp [hb], hj ▸ hcur, hs hl⟩
  · rename_i hj
    obtain ⟨m, hm, hc, hst⟩ := h j a ha hl
    have hne : node ≠ a.nodeID := fun heq => hj (hown j a ha hl heq.symm).symm
    exact ⟨m, by rw [GoMap.get_set_ne hne]; exact hm, hc, hst⟩

end

/-- Finishing attempt `k` reaches no waiting node: not by an edge, not by a self
edge on an approval that leaves the attempt waiting, not through its contract. -/
def Shielded (plan : RequirementExecutionPlan) (p : PlanProjection) (k event : String) : Prop :=
  ∀ a, p.attempts[k]? = some a →
    NoneWaiting (fun j => plan.graphSnapshot.feeds a.nodeID j ∧ j ≠ a.nodeID) p.nodes ∧
    (plan.graphSnapshot.feeds a.nodeID a.nodeID → event ≠ "approved") ∧
    NoneWaiting (contractCovers p a) p.nodes

def WaitingShielded (plan : RequirementExecutionPlan) (p : PlanProjection) (s : Step) : Prop :=
  match s.op with
  | .start _ => True
  | .finish k input => Shielded plan p k input.event
  | .retry nodeID => trimSpace nodeID = nodeID
  | .takeOver k _ _ => Shielded plan p k "timeout"

theorem routed_waiting (h : eventStatus event = some .waiting)
    (hr : routes .waiting event = true) : event = "approved" := by
  simp only [routes, AttemptStatus.unsuccessful] at hr
  simp only [eventStatus] at h
  repeat' split at h
  all_goals simp_all

theorem Disciplined.started (h : Disciplined p.attempts p.nodes)
    (hf : StartFacts H plan p args now n no) :
    Disciplined (started plan p args n no now).attempts (started plan p args n no now).nodes := by
  refine h.write rfl rfl (fun _ => rfl) ?_
  -- The node was ready, failed or timed out: nothing of it is in flight.
  intro j a ha hl hn
  obtain ⟨m, hm, -, hs⟩ := h j a ha hl
  rw [hn, hf.node] at hm
  cases hm
  have hst := hf.startable
  rcases hl with hl | hl <;> rw [hs, hl] at hst <;> simp at hst

theorem Disciplined.finished (h : Disciplined p.attempts p.nodes)
    (hf : FinishFacts plan p k input now f a) (hsh : Shielded plan p k input.event)
    (hres : FinishResult H plan p k input f res q) : Disciplined q.attempts q.nodes := by
  obtain ⟨hfeeds, hself, hcover⟩ := hsh a hf.stored
  have hcovers : NoneWaiting (contractCovers p f.attempt) p.nodes := by
    rw [hf.attempt]; exact hcover
  -- After the repair stage; its nodes are as before or ready or pending.
  have hmid : ∀ mid, Repaired (contractCovers p f.attempt) p mid →
      Disciplined p.attempts mid.nodes := fun mid hm => h.reopened hm.nodes hcovers
  have hown : ∀ (j : String) (b : NodeAttempt), p.attempts[j]? = some b → b.live →
      b.nodeID = a.nodeID → j = k := fun j b hb hl hn =>
    h.unique hb hl hf.stored hf.live hn
  have hsettle : ∀ b mid m, Repaired (contractCovers p f.attempt) p mid →
      b.nodeID = a.nodeID → b.status = f.attempt.status →
      Routed (settleOpens plan b input.event) (commitFinish f k b mid) m →
      Disciplined (p.attempts.insert k b) m.nodes := by
    intro b mid m hm hb hst hroute
    have hcommit : Disciplined (p.attempts.insert k b) (commitFinish f k b mid).nodes :=
      (hmid mid hm).write rfl hf.current (fun _ => rfl)
        (by rw [hb]; exact hown)
    refine hcommit.reopened hroute.nodes ?_
    rintro j n ⟨hr, ho⟩ hj hwait
    simp only [commitFinish, GoMap.get_set] at hj
    split at hj
    · -- The own node waits only when the attempt does.
      rename_i hjb
      cases hj
      have hbw : b.status = .waiting := hwait
      rcases ho with hfeed | ⟨hu, -⟩
      · refine hself (by rw [← hjb, hb] at hfeed; exact hfeed) ?_
        exact routed_waiting (by rw [hf.event, ← hst, hbw]) (hbw ▸ hr)
      · simp [hbw, AttemptStatus.unsuccessful] at hu
    · rename_i hne
      have hfeed : plan.graphSnapshot.feeds a.nodeID j := by
        rcases ho with hfeed | ⟨-, rfl⟩
        · rwa [hb] at hfeed
        · exact absurd rfl hne
      rcases hm.nodes j with e | ⟨-, n', e, hre⟩
      · exact hfeeds j n ⟨hfeed, by rintro rfl; exact hne hb⟩ (e ▸ hj) hwait
      · rw [hj] at e
        cases e
        rcases hre.status with hs | hs <;> rw [hs] at hwait <;> cases hwait
  cases hres with
  | refused e q hq =>
    rw [(repairStage_result hq).attempts]
    exact hmid q (repairStage_result hq)
  | kept a' mid m hr hroute =>
    have hrep := repairStage_result hr
    have := hsettle _ mid m hrep (stamped_nodeID hr hf) (stamped_status hr) hroute
    rw [noteReason_eq]
    rw [hroute.attempts]
    show Disciplined (mid.attempts.insert k _) m.nodes
    rw [hrep.attempts]
    exact this
  | undone a' mid m e hr hroute =>
    have hrep := repairStage_result hr
    have hb := stamped_nodeID (t := f.now) hr hf
    have hd := hsettle _ mid m hrep hb (stamped_status hr) hroute
    rw [rollback_attempts hf.stored hrep hroute]
    -- Other attempts as after routing, the restored one as after the repair stage.
    intro j c hc hl
    show ∃ n, (m.nodes.insert _ ((mid.nodes[_]?).getD default))[c.nodeID]? = some n ∧ _
    rw [hb, GoMap.get_set]
    split
    · rename_i heq
      obtain ⟨n, hn, hcur, hs⟩ := hmid mid hrep j c hc hl
      rw [heq, hn]
      exact ⟨n, rfl, hcur, hs⟩
    · rename_i hne
      have hjk : k ≠ j := by
        rintro rfl
        rw [hf.stored] at hc
        cases hc
        exact hne rfl
      exact hd j c (by rw [GoMap.get_set_ne hjk]; exact hc) hl

theorem Disciplined.rewrite (h : Disciplined attempts nodes) (ha : attempts[k]? = some a)
    (hn : b.nodeID = a.nodeID) (hs : b.status = a.status) :
    Disciplined (attempts.insert k b) nodes := by
  intro j c hc hl
  rw [GoMap.get_set] at hc
  split at hc
  · rename_i hj
    cases hc
    have := h k a ha (by simpa [NodeAttempt.live, hs] using hl)
    rw [hn, hs, ← hj]
    exact this
  · exact h j c hc hl

theorem Shielded.claimed (h : Shielded plan p k event) (ha : p.attempts[k]? = some a) :
    Shielded plan (claimLease p a k owner now) k event := by
  intro b hb
  simp only [claimLease, GoMap.get_set, if_true, Option.some.injEq] at hb
  subst hb
  exact h a ha

theorem Disciplined.next (h : Disciplined p.attempts p.nodes) (hs : WaitingShielded plan p s) :
    Disciplined (next H plan p s).attempts (next H plan p s).nodes := by
  have heff := call_effect H plan p s
  unfold WaitingShielded at hs
  generalize s.op = op at heff hs
  generalize hq : Orchestration.next H plan p s = q at heff
  generalize (s.call H plan p).1 = res at heff
  cases heff with
  | same => exact h
  | started args now n no hf => exact h.started hf
  | finished k input now f a res q hf hres => exact h.finished hf hs hres
  | retried nodeID n hn hclosed =>
    -- The node is failed or timed out, so no attempt of it is in flight.
    simp only at hs
    rw [hs] at hn
    intro j c hc hl
    obtain ⟨m, hm, hcur, hst⟩ := h j c hc hl
    refine ⟨m, ?_, hcur, hst⟩
    rw [GoMap.get_set_ne ?_]
    · exact hm
    · rintro rfl
      rw [hn] at hm
      cases hm
      rcases hl with hl | hl <;> rw [hl] at hst <;> rw [hst] at hclosed <;> simp at hclosed
  | claimed k owner at₀ now a e ha hrun hown => exact h.rewrite ha rfl rfl
  | takenOver k owner at₀ now now' a f b res q ha hrun hown hf hres =>
    have hclaim : Disciplined (claimLease p a k owner now).attempts p.nodes := h.rewrite ha rfl rfl
    exact Disciplined.finished hclaim hf
      (Shielded.claimed hs ha) hres

/-- Rewriting at most one attempt, which is in flight and is not started by it. -/
inductive AttemptsRewrite (attempts : GoMap NodeAttempt) : GoMap NodeAttempt → Prop
  | same : AttemptsRewrite attempts attempts
  | write (k : String) (a b : NodeAttempt) (h : attempts[k]? = some a) (live : a.live)
    (status : b.status = .running → a.status = .running) :
    AttemptsRewrite attempts (attempts.insert k b)

theorem Effect.attemptsChange (h : Effect H plan p op res q) :
    (∃ args now n no, op = .start args ∧ StartFacts H plan p args now n no ∧
        q = Orchestration.started plan p args n no now) ∨
      AttemptsRewrite p.attempts q.attempts := by
  cases h with
  | same => exact .inr .same
  | started args now n no hf => exact .inl ⟨args, now, n, no, rfl, hf, rfl⟩
  | finished k input now f a res q hf hres =>
    right
    rcases hres.attempts hf with ⟨e, -, hq⟩ | ⟨b, -, hq, -, hs⟩
    · rw [hq]; exact .same
    · rw [hq]
      refine .write k a b hf.stored hf.live fun hr => ?_
      exact absurd (hs.symm.trans hr) (eventStatus_settled hf.event)
  | retried => exact .inr .same
  | claimed k owner at₀ now a e ha hrun hown =>
    exact .inr (.write k a _ ha (.inl hrun) fun _ => hrun)
  | takenOver k owner at₀ now now' a f b res q ha hrun hown hf hres =>
    right
    rcases hres.attempts hf with ⟨e, -, hq⟩ | ⟨c, -, hq, -, hs⟩
    · rw [hq]; exact .write k a _ ha (.inl hrun) fun _ => hrun
    · rw [hq]
      simp only [claimLease, GoMap.set_set]
      exact .write k a _ ha (.inl hrun) fun _ => hrun

/-- Closed attempts of `p` are in `q` as they were. -/
def ClosedKept (p q : PlanProjection) : Prop :=
  ∀ (k : String) (a : NodeAttempt), p.attempts[k]? = some a → a.status.closed →
    q.attempts[k]? = some a

theorem Effect.closedKept (h : Effect H plan p op res q) : ClosedKept p q := by
  intro k a ha hc
  rcases h.attemptsChange with ⟨args, now, n, no, -, hf, rfl⟩ | h
  · show (p.attempts.insert args.attemptID _)[k]? = some a
    rw [GoMap.get_set_ne (by rintro rfl; rw [hf.fresh] at ha; cases ha)]
    exact ha
  · generalize q.attempts = attempts' at h
    cases h with
    | same => exact ha
    | write j c b hj hl =>
      rw [GoMap.get_set_ne ?_]
      · exact ha
      · rintro rfl
        rw [hj] at ha
        cases ha
        rcases hl with hl | hl <;> simp [hl, AttemptStatus.closed] at hc

/-- The running attempts are within the plan's budget. -/
def WithinCapacity (plan : RequirementExecutionPlan) (p : PlanProjection) : Prop :=
  0 < plan.policyBudget.concurrent → (runningCount p : Int) ≤ plan.policyBudget.concurrent

theorem AttemptsRewrite.running_le (h : AttemptsRewrite p.attempts q.attempts) :
    runningCount q ≤ runningCount p := by
  unfold runningCount
  generalize q.attempts = attempts' at h
  cases h with
  | same => exact Nat.le_refl _
  | write k a b hk _ hs =>
    rw [GoMap.count_set, GoMap.count_get hk]
    refine Nat.add_le_add_left ?_ _
    by_cases hb : b.status = .running
    · rw [hb, hs hb]
    · rw [beq_false_of_ne hb]
      exact Nat.zero_le _

theorem Effect.withinCapacity (h : Effect H plan p op res q) (hp : WithinCapacity plan p) :
    WithinCapacity plan q := by
  intro hpos
  rcases h.attemptsChange with ⟨args, now, n, no, -, hf, rfl⟩ | h
  · have hcount : runningCount (Orchestration.started plan p args n no now) = runningCount p + 1 :=
      GoMap.count_set_new hf.fresh
    have := hf.capacity hpos
    omega
  · have := h.running_le
    have := hp hpos
    omega

/-- In every run that shields its waiting nodes: an attempt in flight is the
current attempt of its node and gives the node its status, it is the only one
there, the running attempts stay within the plan's budget, and an attempt that
was closed is never changed again. -/
theorem attempt_discipline (H : Host) (plan : RequirementExecutionPlan) (p₀ : PlanProjection)
    (hnew : newProjection plan = .ok p₀) (run more : List Step)
    (hrun : Meets (next H plan) (WaitingShielded plan) p₀ (run ++ more)) :
    let p := after H plan p₀ run
    (∀ (k : String) (a : NodeAttempt), p.attempts[k]? = some a →
      a.status = .running ∨ a.status = .waiting →
      ∃ n, p.nodes[a.nodeID]? = some n ∧ n.currentAttempt = k ∧ n.status = a.status) ∧
    (∀ (k k' : String) (a a' : NodeAttempt), p.attempts[k]? = some a → p.attempts[k']? = some a' →
      a.status = .running ∨ a.status = .waiting → a'.status = .running ∨ a'.status = .waiting →
      a.nodeID = a'.nodeID → k = k') ∧
    (0 < plan.policyBudget.concurrent → (runningCount p : Int) ≤ plan.policyBudget.concurrent) ∧
    (∀ (k : String) (a : NodeAttempt), p.attempts[k]? = some a → a.status.closed →
      (after H plan p₀ (run ++ more)).attempts[k]? = some a) := by
  obtain ⟨hrun, hmore⟩ := meets_append.mp hrun
  have hempty := newProjection_attempts hnew
  have hd : Disciplined (after H plan p₀ run).attempts (after H plan p₀ run).nodes :=
    invariant (I := fun p => Disciplined p.attempts p.nodes)
      (fun k a ha => by simp [hempty] at ha) (fun p s h hs => h.next hs) hrun
  have hcap : WithinCapacity plan (after H plan p₀ run) :=
    invariant
      (fun hpos => by rw [runningCount, hempty, GoMap.count_empty]; omega)
      (fun p s h _ => (call_effect H plan p s).withinCapacity h) hrun
  have hkept : ClosedKept (after H plan p₀ run) (after H plan p₀ (run ++ more)) := by
    unfold after
    rw [exec_append]
    exact related (I := fun _ => True) (fun p k a ha _ => ha)
      (fun p q r h h' k a ha hc => h' k a (h k a ha hc) hc) trivial (fun _ _ _ _ => trivial)
      (fun p s _ _ => (call_effect H plan p s).closedKept) hmore
  exact ⟨hd, fun k k' a a' ha ha' hl hl' hn => hd.unique ha hl ha' hl' hn, hcap, hkept⟩

/-- An agent whose success leads to a human decision that is also an entry. -/
def orphanPlan : RequirementExecutionPlan :=
  samplePlan { id := "g", version := 1, entryNodeIDs := ["a", "h"], exitNodeIDs := ["h"]
               nodes := [agentNode "a", { id := "h", kind := .human }]
               edges := [{ id := "e", fromID := "a", toID := "h", on := .success }] }

/-- Without contracts only the edges of the attempt's node are to be looked at. -/
theorem Shielded.of_edges (hr : p.repairPlans.isEmpty = true)
    (he : ∀ e ∈ plan.graphSnapshot.edges, p.attempts[k]?.map (·.nodeID) = some e.fromID →
      e.toID ≠ e.fromID ∧ p.nodes[e.toID]?.map (·.status) ≠ some .waiting) :
    Shielded plan p k event := by
  intro a ha
  have hnode : p.attempts[k]?.map (·.nodeID) = some a.nodeID := by simp [ha]
  refine ⟨?_, ?_, ?_⟩
  · rintro j n ⟨⟨e, hmem, hsrc, rfl⟩, -⟩ hn hwait
    exact (he e hmem (hsrc ▸ hnode)).2 (by simp [hn, hwait])
  · rintro ⟨e, hmem, hsrc, hself⟩
    exact absurd (hself.trans hsrc.symm) (he e hmem (hsrc ▸ hnode)).1
  · rintro j n ⟨r, hcontract, -⟩
    simp [Std.ExtTreeMap.isEmpty_iff.mp hr] at hcontract

/-- The agent is done before the decision starts: the attempt that waits is the
current one of its node, and the agent's attempt outlasts the decision. -/
theorem attempt_discipline_decision :
    let run := [startCall "a" "a1", finishCall "a1" "success" {}, startCall "h" "h1",
      finishCall "h1" "waiting" {}]
    let p := sampleRun orphanPlan run
    p.attempts["h1"]?.map (·.status) = some .waiting ∧
      (∀ a, p.attempts["h1"]? = some a →
        ∃ n, p.nodes[a.nodeID]? = some n ∧ n.currentAttempt = "h1" ∧ n.status = a.status) ∧
      ∀ a, p.attempts["a1"]? = some a →
        (sampleRun orphanPlan (run ++ [finishCall "h1" "approved" {}])).attempts["a1"]? =
          some a := by
  intro run p
  have hrun : Meets (next sampleHost orphanPlan) (WaitingShielded orphanPlan)
      (sampleRun orphanPlan []) (run ++ [finishCall "h1" "approved" {}]) := by
    refine ⟨trivial, ?_, trivial, ?_, ?_, trivial⟩
    all_goals exact Shielded.of_edges (by decide +kernel) (by decide +kernel)
  obtain ⟨hlive, -, -, hclosed⟩ := attempt_discipline sampleHost orphanPlan
    (sampleRun orphanPlan []) (sampleRun_new (by decide +kernel)) run _ hrun
  have hwait : p.attempts["h1"]?.map (·.status) = some .waiting := by decide +kernel
  have hpassed : p.attempts["a1"]?.map (·.status) = some .passed := by decide +kernel
  refine ⟨hwait, fun a ha => hlive _ a ha (.inr ?_), fun a ha => hclosed _ a ha ?_⟩
  · rw [ha] at hwait
    exact Option.some.inj hwait
  · rw [ha] at hpassed
    rw [show a.status = .passed from Option.some.inj hpassed]
    trivial

/-- The success of `a` reopens `h` while its attempt waits: the attempt stays
waiting, the node is ready and starts another one. -/
theorem waiting_attempt_orphaned :
    let wait := [startCall "h" "h1", finishCall "h1" "waiting" {}]
    let p := sampleRun orphanPlan (wait ++ [startCall "a" "a1", finishCall "a1" "success" {}])
    let q := sampleRun orphanPlan (wait ++
      [startCall "a" "a1", finishCall "a1" "success" {}, startCall "h" "h2"])
    p.attempts["h1"]?.map (·.status) = some .waiting ∧
      p.nodes["h"]?.map (·.status) = some .ready ∧
      q.attempts["h1"]?.map (·.status) = some .waiting ∧
      q.nodes["h"]?.map (·.currentAttempt) = some "h2" := by
  decide +kernel

end Adro.Orchestration
