import Adro.Orchestration.Rollback

/-!
# The usage counters

Every call adds what it reports to the plan's counters, or nothing. The check
of a limit and the addition use the same wrapping sum, so a counter stays within
its limit as long as no sum wraps. The counters are the sums over the attempts
as long as every reported usage stays in a stored result: a parked attempt that
has reported usage loses it with its next result, and a routing error takes the
result back but not its usage.
-/

namespace Adro.Orchestration

open Adro.Go Adro.Runs

def Op.charge : Op → Usage
  | .start args => { tokens := args.envelope.manifest.tokenEstimate }
  | .finish _ input => resultUsage input.result
  | .retry _ | .takeOver .. => {}

/-- A counter is as it was, or the charge was added and the sum compared with
the limit. -/
def Booked (limit count charge count' : Int) : Prop :=
  count' = count ∨ (count' = i64 (count + charge) ∧ 0 ≤ charge ∧ (0 < limit → count' ≤ limit))

structure Books (b : Budget) (u : Usage) (p q : PlanProjection) : Prop where
  tokens : Booked b.tokens p.tokenUsage u.tokens q.tokenUsage
  tools : Booked b.toolCalls p.toolCalls u.tools q.toolCalls
  cost : Booked b.costCents p.costCents u.cost q.costCents

theorem Books.same (h : q.tokenUsage = p.tokenUsage) (h' : q.toolCalls = p.toolCalls)
    (h'' : q.costCents = p.costCents) : Books b u p q := ⟨.inl h, .inl h', .inl h''⟩

/-- What a finish does to the counters: nothing when it stops before the commit. -/
theorem FinishResult.counters (h : FinishResult H plan p k input f res q) :
    (q.tokenUsage = p.tokenUsage ∧ q.toolCalls = p.toolCalls ∧ q.costCents = p.costCents) ∨
      (q.tokenUsage = i64 (p.tokenUsage + f.usage.tokens) ∧
        q.toolCalls = i64 (p.toolCalls + f.usage.tools) ∧
        q.costCents = i64 (p.costCents + f.usage.cost)) := by
  cases h with
  | refused e q hq => exact .inl (by rw [(repairStage_result hq).rest]; exact ⟨rfl, rfl, rfl⟩)
  | kept a' mid m hr hm =>
    refine .inr ?_
    rw [noteReason_eq, hm.rest, (repairStage_result hr).rest]
    exact ⟨rfl, rfl, rfl⟩
  | undone a' mid m e hr hm =>
    refine .inr ?_
    rw [hm.rest, (repairStage_result hr).rest]
    exact ⟨rfl, rfl, rfl⟩

theorem FinishResult.books (h : FinishResult H plan p k input f res q)
    (hf : FinishFacts plan p k input now f a) :
    Books plan.policyBudget (resultUsage input.result) p q := by
  have hbudget := hf.budget
  simp only [planBudgetCheck, then_ok, ensure_ok, Bool.not_eq_true', Bool.and_eq_false_imp,
    decide_eq_true_eq, decide_eq_false_iff_not, Int.not_lt] at hbudget
  rcases h.counters with ⟨ht, hc, hm⟩ | ⟨ht, hc, hm⟩
  · exact .same ht hc hm
  · rw [hf.usage] at ht hc hm
    exact ⟨.inr ⟨ht, usageInt64_nonneg .., fun hpos => ht ▸ hbudget.1 hpos⟩,
      .inr ⟨hc, usageInt64_nonneg .., fun hpos => hc ▸ hbudget.2.1 hpos⟩,
      .inr ⟨hm, usageInt64_nonneg .., fun hpos => hm ▸ hbudget.2.2 hpos⟩⟩

theorem resultUsage_empty (h : r.fields = ∅) : resultUsage r = {} := by
  simp [resultUsage, usageInt64, h]

theorem takeOverInput_usage : resultUsage (takeOverInput plan k token now).result = {} :=
  resultUsage_empty rfl

theorem call_books (plan : RequirementExecutionPlan) :
    Books plan.policyBudget s.op.charge p (next H plan p s) := by
  have heff := call_effect H plan p s
  generalize s.op = op, next H plan p s = q, (s.call H plan p).1 = res at heff
  cases heff with
  | same | retried | claimed => exact .same rfl rfl rfl
  | started args now n no hf =>
    exact ⟨.inr ⟨rfl, hf.estimate, hf.tokens⟩, .inl rfl, .inl rfl⟩
  | finished k input now f a res q hf hres => exact hres.books hf
  | takenOver k owner at₀ now now' a f b res q ha hrun hown hf hres =>
    have hbooks := hres.books hf
    exact ⟨hbooks.tokens, hbooks.tools, hbooks.cost⟩

def Within (limit count : Int) : Prop := 0 < limit → 0 ≤ count ∧ count ≤ limit

structure WithinBudget (b : Budget) (p : PlanProjection) : Prop where
  tokens : Within b.tokens p.tokenUsage
  tools : Within b.toolCalls p.toolCalls
  cost : Within b.costCents p.costCents

/-- The sum of a counter that has a limit and the charge fits in 64 bits. -/
def SumFits (limit count charge : Int) : Prop := 0 < limit → count + charge ≤ maxInt64

instance : Decidable (SumFits limit count charge) := inferInstanceAs (Decidable (_ → _))

def FitsBudget (b : Budget) (u : Usage) (p : PlanProjection) : Prop :=
  SumFits b.tokens p.tokenUsage u.tokens ∧ SumFits b.toolCalls p.toolCalls u.tools ∧
    SumFits b.costCents p.costCents u.cost

instance : Decidable (FitsBudget b u p) := inferInstanceAs (Decidable (_ ∧ _))

theorem Booked.within (h : Booked limit count charge count') (hin : Within limit count)
    (hfits : SumFits limit count charge) : Within limit count' := by
  intro hpos
  rcases h with rfl | ⟨rfl, hcharge, hle⟩
  · exact hin hpos
  · obtain ⟨hnonneg, -⟩ := hin hpos
    have hsum : i64 (count + charge) = count + charge := i64_eq (by omega) (hfits hpos)
    exact ⟨by omega, hle hpos⟩

theorem Books.within (h : Books b u p q) (hin : WithinBudget b p) (hfits : FitsBudget b u p) :
    WithinBudget b q :=
  ⟨h.tokens.within hin.tokens hfits.1, h.tools.within hin.tools hfits.2.1,
    h.cost.within hin.cost hfits.2.2⟩

theorem newProjection_counters (h : newProjection plan = .ok p) :
    p.attempts = ∅ ∧ p.tokenUsage = 0 ∧ p.toolCalls = 0 ∧ p.costCents = 0 := by
  simp only [newProjection, then_ok, pure_ok] at h
  rw [← h.2.2.2]
  exact ⟨rfl, rfl, rfl, rfl⟩

/-- In every run in which no counter with a limit wraps, every limit of the
plan that is set bounds its counter. -/
theorem budget_bounds_counters (H : Host) (plan : RequirementExecutionPlan) (p₀ : PlanProjection)
    (hnew : newProjection plan = .ok p₀) (run : List Step)
    (hrun : Meets (next H plan) (fun p s => FitsBudget plan.policyBudget s.op.charge p) p₀ run) :
    WithinBudget plan.policyBudget (after H plan p₀ run) := by
  refine invariant ?_
    (fun p s hin hfits => (call_books plan).within hin hfits) hrun
  obtain ⟨-, ht, hc, hm⟩ := newProjection_counters hnew
  refine ⟨fun hpos => ?_, fun hpos => ?_, fun hpos => ?_⟩
  · rw [ht]; exact ⟨le_rfl, hpos.le⟩
  · rw [hc]; exact ⟨le_rfl, hpos.le⟩
  · rw [hm]; exact ⟨le_rfl, hpos.le⟩

def limitedPlan : RequirementExecutionPlan :=
  { samplePlan {
      id := "g", version := 1, nodes := [agentNode "x"], entryNodeIDs := ["x"]
      exitNodeIDs := ["x"] } with
    policyBudget := { tokens := 10 } }

/-- A start that is estimated at the given number of tokens. -/
def estimatedStart (nodeID attemptID : String) (estimate : Int) : Step where
  op := .start {
    nodeID, attemptID, lease := { expiresAt := 1000 }
    envelope := { sampleEnvelope with
      manifest := { sampleEnvelope.manifest with tokenEstimate := estimate } } }
  clock := 1

def tokenResult (n : Int) : StructuredResult :=
  { fields := (∅ : GoMap Value).insert "tokens" (.int .int64 n) }

/-- The sum of one token and of the largest number of tokens that a result can
report is negative, so the limit does not refuse it. -/
theorem wrapped_sum_passes_limit :
    let run := [estimatedStart "x" "a" 1, finishCall "a" "success" (tokenResult maxInt64)]
    limitedPlan.policyBudget.tokens = 10 ∧ succeeds limitedPlan (sampleRun limitedPlan []) run ∧
      (sampleRun limitedPlan run).tokenUsage = -2 ^ 63 := by
  decide +kernel

theorem budget_bounds_counters_limited :
    WithinBudget limitedPlan.policyBudget (after sampleHost limitedPlan (sampleRun limitedPlan [])
      [estimatedStart "x" "a" 1, finishCall "a" "success" (tokenResult 9)]) :=
  budget_bounds_counters sampleHost limitedPlan _ (sampleRun_new (by decide +kernel)) _
    (by decide +kernel)

def NodeAttempt.tokens (a : NodeAttempt) : Int :=
  a.inputManifest.manifest.tokenEstimate + (resultUsage a.result).tokens

def NodeAttempt.tools (a : NodeAttempt) : Int := (resultUsage a.result).tools

def NodeAttempt.cost (a : NodeAttempt) : Int := (resultUsage a.result).cost

/-- The counters are the sums over the attempts, in 64 bits. -/
structure Conserved (p : PlanProjection) : Prop where
  tokens : p.tokenUsage = i64 (p.attempts.sum NodeAttempt.tokens)
  tools : p.toolCalls = i64 (p.attempts.sum NodeAttempt.tools)
  cost : p.costCents = i64 (p.attempts.sum NodeAttempt.cost)

def Unreported (p : PlanProjection) : Prop :=
  ∀ (k : String) (a : NodeAttempt), p.attempts[k]? = some a → a.status = .running →
    resultUsage a.result = {}

/-- The usage of the result stays in the attempt: what the attempt has reported
is nothing, and the result reports nothing, or parks the attempt, or finds its
way whatever repair state is recorded in it. -/
structure Accounted (plan : RequirementExecutionPlan) (p : PlanProjection) (a : NodeAttempt)
    (input : TransitionInput) : Prop where
  first : a.status = .waiting → resultUsage a.result = {}
  kept : resultUsage input.result = {} ∨ input.event = "waiting" ∨ input.event = "approval" ∨
    ∀ status state, eventStatus input.event = some status →
      Carried plan p (stampAttempt 0 { a with
        result := input.result, failureReason := input.failure, status := status
        repairState := state }) input.event

/-- Every finish that passes its checks is accounted for. -/
def Op.Accounted (H : Host) (plan : RequirementExecutionPlan) (p : PlanProjection)
    (clock : Time) : Op → Prop
  | .finish k input => ∀ f a, finishCheck H plan p k input (input.at clock) = .ok (.fresh f) →
      p.attempts[k]? = some a → Orchestration.Accounted plan p a input
  | _ => True

theorem i64_add : i64 (i64 m + n) = i64 (m + n) := by
  unfold i64
  omega

/-- A finish with evidence that does not park the attempt has evidence. -/
theorem FinishFacts.evidence_ne (hf : FinishFacts plan p k input now f a)
    (hw : input.event ≠ "waiting") (ha : input.event ≠ "approval") :
    input.result.evidenceIDs ≠ [] := by
  have h := hf.evidence
  unfold evidenceCheck at h
  rw [if_neg (by simp [hw, ha])] at h
  simp only [then_ok, ensure_ok] at h
  simpa using h.1

theorem settle_parked (hparks : input.event = "waiting" ∨ input.event = "approval")
    (hs : settle H plan f k input b mid = (.error e, q))
    (hb : eventStatus input.event = some b.status) : False := by
  have hwaits : eventStatus input.event = some .waiting := by
    rcases hparks with h | h <;> rw [h] <;> decide
  have hstatus : b.status = .waiting := Option.some.inj (hb.symm.trans hwaits)
  have hroutes : routes .waiting input.event = false := by
    rcases hparks with h | h <;> rw [h] <;> decide
  unfold settle at hs
  simp only [hstatus, hroutes] at hs
  cases hs

theorem Accounted.undone_empty (h : Accounted plan p a input)
    (hf : FinishFacts plan p k input now f a)
    (hr : repairStage plan p f.attempt = (.ok a', mid))
    (hs : settle H plan f k input (stampAttempt f.now a') mid = (.error e, q)) :
    resultUsage input.result = {} := by
  rcases h.kept with hu | hrest
  · exact hu
  · exfalso
    have hst : (stampAttempt f.now a').status = f.attempt.status := stamped_status hr
    by_cases hparks : input.event = "waiting" ∨ input.event = "approval"
    · exact settle_parked hparks hs (hst ▸ hf.event)
    · have hcarried := hrest.resolve_left (fun h => hparks (.inl h))
        |>.resolve_left (fun h => hparks (.inr h))
      rw [not_or] at hparks
      refine Carried.not_undone (?_ : Carried plan p (stampAttempt f.now a') input.event) hf
        (hf.evidence_ne hparks.1 hparks.2) hr hs
      rcases hcarried f.attempt.status a'.repairState hf.event with hdead | ⟨selection, hsel, hsp⟩
      · left
        have hfail : (stampAttempt f.now a').failureReason = input.failure :=
          (stamped_input hr hf).2.2
        unfold deadlineTimeout
        rw [hst, hfail]
        exact hdead
      · right
        refine ⟨selection, ?_, hsp⟩
        rw [stamped_selection hf hr, ← hsel]
        unfold routeSelection
        congr 1
        refine matchEdges_congr ?_ ?_ ?_ _ <;> rfl

theorem FinishResult.conserved (hres : FinishResult H plan p k input f res q)
    (hf : FinishFacts plan p k input now f a) (hacc : Accounted plan p a input)
    (hc : Conserved p) (hu : Unreported p) : Conserved q := by
  have hunspent : resultUsage a.result = {} :=
    hf.live.elim (hu k a hf.stored) hacc.first
  rcases hres with ⟨e, q, hq⟩ | ⟨a', mid, m, hr, hm, hs⟩ | ⟨a', mid, m, e, hr, hm, hs⟩
  · rw [(repairStage_result hq).rest]
    exact ⟨hc.tokens, hc.tools, hc.cost⟩
  · have hw := FinishResult.writes (.kept a' mid m hr hm hs) hf
    generalize noteReason (stampAttempt f.now a') m = q at hw
    generalize stampAttempt f.now a' = b at hw
    have hb : resultUsage b.result = resultUsage input.result := by
      rw [hw.result, resultUsage_stamp]
    have hsum : ∀ g : NodeAttempt → Int,
        q.attempts.sum g = p.attempts.sum g + (g b - g a) := fun g => by
      rw [hw.attempts, GoMap.sum_replace hf.stored]
    refine ⟨?_, ?_, ?_⟩
    · rw [hw.tokens, hc.tokens, hsum, i64_add, hf.usage, NodeAttempt.tokens, NodeAttempt.tokens,
        hb, hunspent, hw.manifest]
      congr 1
      show _ + _ = _ + (_ + _ - (_ + 0))
      omega
    · rw [hw.tools, hc.tools, hsum, i64_add, hf.usage, NodeAttempt.tools, NodeAttempt.tools,
        hb, hunspent]
      exact congrArg (fun n => i64 (_ + n)) (Int.sub_zero _).symm
    · rw [hw.cost, hc.cost, hsum, i64_add, hf.usage, NodeAttempt.cost, NodeAttempt.cost,
        hb, hunspent]
      exact congrArg (fun n => i64 (_ + n)) (Int.sub_zero _).symm
  · have hzero : f.usage = {} := hf.usage.trans (hacc.undone_empty hf hr hs)
    have hattempts := rollback_attempts (v := (stampAttempt f.now a').nodeID) hf.stored
      (repairStage_result hr) hm
    have hcounters : (rollback f k (stampAttempt f.now a').nodeID mid m).tokenUsage =
          i64 p.tokenUsage ∧
        (rollback f k (stampAttempt f.now a').nodeID mid m).toolCalls = i64 p.toolCalls ∧
        (rollback f k (stampAttempt f.now a').nodeID mid m).costCents = i64 p.costCents := by
      unfold rollback
      rw [hm.rest, (repairStage_result hr).rest]
      simp [commitFinish, hzero]
    refine ⟨?_, ?_, ?_⟩
    · rw [hcounters.1, hattempts, hc.tokens, i64_i64]
    · rw [hcounters.2.1, hattempts, hc.tools, i64_i64]
    · rw [hcounters.2.2, hattempts, hc.cost, i64_i64]

theorem FinishResult.unreported (hres : FinishResult H plan p k input f res q)
    (hf : FinishFacts plan p k input now f a) (hu : Unreported p) : Unreported q := by
  rcases hres.attempts hf with ⟨e, -, hq⟩ | ⟨b, -, hq, -, hb⟩
  · unfold Unreported
    rw [hq]
    exact hu
  · unfold Unreported
    rw [hq]
    refine GoMap.forall_set hu fun hrun => ?_
    exact absurd (hb.symm.trans hrun) (eventStatus_settled hf.event)

theorem claimLease_conserved (ha : p.attempts[k]? = some a) (hc : Conserved p) :
    Conserved (claimLease p a k owner now) := by
  have hsum : ∀ g : NodeAttempt → Int, (∀ lease, g { a with lease := lease } = g a) →
      (claimLease p a k owner now).attempts.sum g = p.attempts.sum g := fun g hg => by
    unfold claimLease
    rw [GoMap.sum_replace ha, hg, Int.sub_self, Int.add_zero]
  refine ⟨?_, ?_, ?_⟩
  · rw [hsum _ fun _ => rfl]; exact hc.tokens
  · rw [hsum _ fun _ => rfl]; exact hc.tools
  · rw [hsum _ fun _ => rfl]; exact hc.cost

theorem claimLease_unreported (ha : p.attempts[k]? = some a) (hu : Unreported p) :
    Unreported (claimLease p a k owner now) :=
  GoMap.forall_set hu fun hrun => hu k a ha hrun

theorem started_conserved (hf : StartFacts H plan p args now n no) (hc : Conserved p) :
    Conserved (started plan p args n no now) := by
  have hsum : ∀ g : NodeAttempt → Int, (started plan p args n no now).attempts.sum g =
      p.attempts.sum g + g (newAttempt plan p args n no now) := fun g => by
    unfold started
    rw [GoMap.sum_set, GoMap.erase_of_none hf.fresh]
  have hnone : resultUsage (newAttempt plan p args n no now).result = {} :=
    resultUsage_empty rfl
  refine ⟨?_, ?_, ?_⟩
  · rw [hsum]
    show i64 (p.tokenUsage + args.envelope.manifest.tokenEstimate) = _
    rw [hc.tokens, i64_add]
    congr 2
    exact (Int.add_zero _).symm
  · rw [hsum, NodeAttempt.tools, hnone]
    exact hc.tools.trans (by rw [Int.add_zero])
  · rw [hsum, NodeAttempt.cost, hnone]
    exact hc.cost.trans (by rw [Int.add_zero])

theorem takeOver_accounted (hrun : a.status = .running) :
    Accounted plan p a (takeOverInput plan k token now) :=
  ⟨fun h => (nomatch hrun.symm.trans h), .inl takeOverInput_usage⟩

theorem finish_accounted (h : Op.Accounted H plan p clock (.finish k input))
    (hconv : Conserved p) (hu : Unreported p) :
    Conserved (finishAttempt H plan p k input clock).2 ∧
      Unreported (finishAttempt H plan p k input clock).2 := by
  cases hcheck : finishCheck H plan p k input (input.at clock) with
  | error e => simp [finishAttempt, hcheck, hconv, hu]
  | ok admission =>
    cases admission with
    | replay a => simp [finishAttempt, hcheck, hconv, hu]
    | fresh f =>
      obtain ⟨a, hf, hres⟩ := finishAttempt_fresh hcheck
      exact ⟨hres.conserved hf (h f a hcheck hf.stored) hconv hu, hres.unreported hf hu⟩

theorem next_conserved (h : s.op.Accounted H plan p s.clock) (hc : Conserved p)
    (hu : Unreported p) : Conserved (next H plan p s) ∧ Unreported (next H plan p s) := by
  obtain ⟨op, clock⟩ := s
  by_cases hfinish : ∃ k input, op = .finish k input
  · obtain ⟨k, input, rfl⟩ := hfinish
    exact finish_accounted h hc hu
  · have heff := call_effect H plan p ⟨op, clock⟩
    generalize next H plan p ⟨op, clock⟩ = q, (Step.call H plan ⟨op, clock⟩ p).1 = res at heff
    cases heff with
    | same => exact ⟨hc, hu⟩
    | started args now n no hf =>
      exact ⟨started_conserved hf hc, GoMap.forall_set hu fun _ => resultUsage_empty rfl⟩
    | finished k input => exact absurd ⟨k, input, rfl⟩ hfinish
    | retried => exact ⟨⟨hc.tokens, hc.tools, hc.cost⟩, hu⟩
    | claimed k owner at₀ now a e ha =>
      exact ⟨claimLease_conserved ha hc, claimLease_unreported ha hu⟩
    | takenOver k owner at₀ now now' a f b res q ha hrun hown hf hres =>
      have hb : b.status = .running := by
        have hstored := hf.stored
        simp only [claimLease, GoMap.get_set, if_true, Option.some.injEq] at hstored
        rw [← hstored]
        exact hrun
      exact ⟨hres.conserved hf (takeOver_accounted hb) (claimLease_conserved ha hc)
          (claimLease_unreported ha hu),
        hres.unreported hf (claimLease_unreported ha hu)⟩

/-- The nodes of a list have all the attempts, once each. -/
structure Covers (ids : List String) (p : PlanProjection) : Prop where
  nodup : ids.Nodup
  all : ∀ (k : String) (a : NodeAttempt), p.attempts[k]? = some a → a.nodeID ∈ ids

theorem sum_single {ids : List String} {k : String} (hnodup : ids.Nodup) (h : k ∈ ids) (n : Int) :
    (ids.map fun j => if k == j then n else 0).sum = n := by
  rw [List.sum_map_eq_nsmul_single k _ fun j hj _ => by simp [hj.symm],
    List.count_eq_one_of_mem hnodup h]
  simp

theorem Covers.sum (h : Covers ids p) (g : NodeAttempt → Int) :
    p.attempts.sum g = (ids.map fun id => nodeSum p id g).sum := by
  have hmem : ∀ e ∈ p.attempts.toList, e.2.nodeID ∈ ids := fun e he =>
    h.all e.1 e.2 (GoMap.mem_entries.mp he)
  unfold nodeSum GoMap.sum
  generalize p.attempts.toList = l at hmem
  induction l with
  | nil => simp
  | cons e l ih =>
    have hone := sum_single h.nodup (hmem e List.mem_cons_self) (g e.2)
    simp only [List.map_cons, List.sum_cons, List.sum_map_add, hone]
    rw [ih fun e he => hmem e (List.mem_cons_of_mem _ he)]

/-- The counters are the totals that a finish computes for each node, added up. -/
structure ByNode (ids : List String) (p : PlanProjection) : Prop where
  tokens : p.tokenUsage = i64 (ids.map fun id => nodeSum p id NodeAttempt.tokens).sum
  tools : p.toolCalls = i64 (ids.map fun id => nodeSum p id NodeAttempt.tools).sum
  cost : p.costCents = i64 (ids.map fun id => nodeSum p id NodeAttempt.cost).sum

theorem Conserved.byNode (h : Conserved p) (hids : Covers ids p) : ByNode ids p :=
  ⟨hids.sum _ ▸ h.tokens, hids.sum _ ▸ h.tools, hids.sum _ ▸ h.cost⟩

/-- In every run whose finishes are accounted for, the counters are the sums over
the attempts, and so the sums of the totals of the nodes that have attempts. -/
theorem counters_conserved (H : Host) (plan : RequirementExecutionPlan) (p₀ : PlanProjection)
    (hnew : newProjection plan = .ok p₀) (run : List Step)
    (hrun : Meets (next H plan) (fun p s => s.op.Accounted H plan p s.clock) p₀ run) :
    Conserved (after H plan p₀ run) ∧
      ∀ ids, Covers ids (after H plan p₀ run) → ByNode ids (after H plan p₀ run) := by
  have hend : Conserved (after H plan p₀ run) ∧ Unreported (after H plan p₀ run) := by
    refine invariant (I := fun p => Conserved p ∧ Unreported p) ?_
      (fun p s h hacc => next_conserved hacc h.1 h.2) hrun
    obtain ⟨ha, ht, hc, hm⟩ := newProjection_counters hnew
    refine ⟨⟨?_, ?_, ?_⟩, ?_⟩
    · rw [ht, ha]; rfl
    · rw [hc, ha]; rfl
    · rw [hm, ha]; rfl
    · intro k a hk
      rw [show p₀.attempts = ∅ from ha] at hk
      simp at hk
  exact ⟨hend.1, fun ids hids => hend.1.byNode hids⟩

/-- What a parked attempt has reported stays in the counter when its next result
replaces the one that reported it. -/
theorem replaced_usage_stays_booked :
    let run := [estimatedStart "x" "a" 1, finishCall "a" "waiting" (tokenResult 5),
      finishCall "a" "success" {}]
    succeeds limitedPlan (sampleRun limitedPlan []) run ∧
      (sampleRun limitedPlan run).tokenUsage = 6 ∧
      (sampleRun limitedPlan run).attempts.sum NodeAttempt.tokens = 1 := by
  decide +kernel

theorem counters_conserved_limited :
    Conserved (after sampleHost limitedPlan (sampleRun limitedPlan [])
      [estimatedStart "x" "a" 1, finishCall "a" "success" (tokenResult 5)]) := by
  refine (counters_conserved sampleHost limitedPlan _ (sampleRun_new (by decide +kernel))
    [estimatedStart "x" "a" 1, finishCall "a" "success" (tokenResult 5)]
    ⟨trivial, fun f a _ ha => ⟨fun hw => ?_, .inr (.inr (.inr ?_))⟩, trivial⟩).1
  · have hstatus : ((next sampleHost limitedPlan (sampleRun limitedPlan [])
        (estimatedStart "x" "a" 1)).attempts["a"]?).map NodeAttempt.status = some .running := by
      decide +kernel
    rw [ha, Option.map_some, hw] at hstatus
    cases hstatus
  · -- No edge leaves the node.
    exact fun _ _ _ => .inr ⟨.none, rfl, trivial⟩

end Adro.Orchestration
