import Adro.Orchestration.Runs

/-!
# Retry back-off

The back-off doubles with every recorded retry and stops at a day. The sum is
formed below half a day only, so it never leaves 64 bits. Until the back-off
has passed, a start of the node changes nothing: it fails, or repeats the answer
that is recorded under its key.
-/

namespace Adro.Orchestration

open Adro.Go

variable {b : Int}

/-- The sum is formed up to half a day only, where it does not wrap. -/
theorem backoffAfter_succ : backoffAfter (n + 1) b =
    if 0 < b ∧ b < 24 * hour then if b > 12 * hour then 24 * hour else backoffAfter n (b + b)
    else b := by
  have hlimit : (24 : Int) * hour ≤ maxInt64 := by decide
  rw [backoffAfter]
  by_cases hpos : 0 < b
  · by_cases hhalf : b > 12 * hour
    · simp [hhalf]
    · rw [i64_eq (n := b + b) (by omega) (by omega)]
      simp
  · simp [hpos]

theorem backoffAfter_eq (hpos : 0 < b) (hday : b ≤ 24 * hour) (n : Nat) :
    backoffAfter n b = min (24 * hour) (b * 2 ^ n) := by
  induction n generalizing b with
  | zero => simp [backoffAfter, hday]
  | succ n ih =>
    have hdouble : b * 2 ^ (n + 1) = (b + b) * 2 ^ n := by
      rw [Int.pow_succ, ← Int.mul_assoc, Int.mul_right_comm, mul_two]
    have hgrows : (b + b) * 1 ≤ (b + b) * 2 ^ n :=
      Int.mul_le_mul_of_nonneg_left (Int.pow_pos (by decide)) (by omega)
    rw [hdouble, backoffAfter_succ]
    change @Eq Int _ _
    split
    · split
      · omega
      · exact ih (by omega) (by omega)
    · omega

/-- A start that leaves the projection as it is: it fails, or it repeats the
answer recorded under its key. -/
def Refused (H : Host) (plan : RequirementExecutionPlan) (p : PlanProjection) (args : StartArgs)
    (clock : Time) : Prop :=
  (startAttempt H plan p args clock).2 = p ∧ ∀ a, (startAttempt H plan p args clock).1 = .ok a →
    startReplay p args.input = .ok (some a)

theorem startAttempt_backoff (hnode : p.nodes[args.nodeID]? = some n) (hdue : n.retryAt = some due)
    (hearly : args.input.at clock < due) : Refused H plan p args clock := by
  have hcheck : ∀ adm, startCheck H plan p args (args.input.at clock) = .ok adm →
      ∃ a, adm = .replay a ∧ startReplay p args.input = .ok (some a) := by
    intro adm h
    simp only [startCheck, bind_ok] at h
    obtain ⟨-, -, replay, hreplay, h⟩ := h
    cases replay with
    | some a => cases h; exact ⟨a, rfl, hreplay⟩
    | none =>
      obtain ⟨m, hm, -⟩ := bind_ok.mp h
      simp [startNodeCheck, hnode, hdue, hearly, then_ok, ensure_ok] at hm
  unfold Refused startAttempt
  simp only
  cases h : startCheck H plan p args (args.input.at clock) with
  | error e => exact ⟨rfl, fun a h => nomatch h⟩
  | ok adm =>
    obtain ⟨a, rfl, hreplay⟩ := hcheck adm h
    refine ⟨rfl, fun b hb => ?_⟩
    cases hb
    exact hreplay

theorem scheduleRetry_node (node : WorkflowNode) (a : NodeAttempt) (now : Time)
    (p : PlanProjection) (n : Nat)
    (hcount : i64 (((p.nodes[a.nodeID]?).getD default).retryCount + 1) = n) :
    (scheduleRetry node a now p).nodes[a.nodeID]? = some { (p.nodes[a.nodeID]?).getD default with
      retryCount := n
      retryAt := some (now + backoffAfter (n - 1) node.retryPolicy.backoff)
      status := .ready } := by
  have hloops : ((n : Int) - 1).toNat = n - 1 := by omega
  simp only [scheduleRetry, hcount, GoMap.get_set, if_true, hloops]

/-- The retry that is the `n`-th to be recorded is due after the back-off, doubled
`n - 1` times and at most a day, and the node is not started before. -/
theorem retry_due (H : Host) (plan : RequirementExecutionPlan) (a : NodeAttempt)
    (input : TransitionInput) (now : Time) (p : PlanProjection) (n : Nat)
    (hcount : i64 (((p.nodes[a.nodeID]?).getD default).retryCount + 1) = n)
    (hdeadline : deadlineTimeout a = false)
    (hnone : routeSelection plan a input.event = .ok .none)
    (hmay : mayRetry H (plan.graphSnapshot.node a.nodeID) a input.event = true)
    (hpos : 0 < (plan.graphSnapshot.node a.nodeID).retryPolicy.backoff)
    (hday : (plan.graphSnapshot.node a.nodeID).retryPolicy.backoff ≤ 24 * hour) :
    let b := (plan.graphSnapshot.node a.nodeID).retryPolicy.backoff
    let due := now + min (24 * hour) (b * 2 ^ (n - 1))
    backoffAfter (n - 1) b = min (24 * hour) (b * 2 ^ (n - 1)) ∧
    ∃ q m, route H plan a input now p = (.ok (), q) ∧ q.nodes[a.nodeID]? = some m ∧
      m.retryCount = n ∧ m.retryAt = some due ∧
      ∀ later args clock, later.nodes[a.nodeID]? = some m → args.nodeID = a.nodeID →
        args.input.at clock < due → Refused H plan later args clock := by
  intro b due
  have hclosed := backoffAfter_eq hpos hday (n - 1)
  have hroute : route H plan a input now p =
      (.ok (), scheduleRetry (plan.graphSnapshot.node a.nodeID) a now p) := by
    simp [route, hdeadline, hnone, routeWithoutEdge, hmay]
  have hnode := scheduleRetry_node (plan.graphSnapshot.node a.nodeID) a now p n hcount
  rw [hclosed] at hnode
  exact ⟨hclosed, _, _, hroute, hnode, rfl, rfl,
    fun later args clock hlater hid hearly =>
      startAttempt_backoff (by rw [hid]; exact hlater) rfl hearly⟩

def backoffPlan : RequirementExecutionPlan :=
  samplePlan
    { nodes := [{ agentNode "x" with retryPolicy := { maxAttempts := 4, backoff := hour } }] }

def failedAttempt : NodeAttempt :=
  { nodeID := "x", attemptNo := 3, status := .failed, failureReason := some { retryable := true } }

/-- A projection in which the node has been retried twice. -/
def retriedTwice : PlanProjection :=
  { nodes := (∅ : GoMap NodeProjection).insert "x"
      { nodeID := "x", status := .failed, retryCount := 2 } }

/-- The third retry is due after four hours; a start one tick earlier fails. -/
theorem third_retry_due : ∃ q,
    route sampleHost backoffPlan failedAttempt { event := "failure" } 1 retriedTwice = (.ok (), q) ∧
      q.nodes["x"]?.map (·.retryAt) = some (some (1 + 4 * hour)) ∧
      Refused sampleHost backoffPlan q { nodeID := "x", attemptID := "x4" } (4 * hour) := by
  obtain ⟨-, q, m, hroute, hnode, -, hdue, hearly⟩ := retry_due sampleHost backoffPlan
    failedAttempt { event := "failure" } 1 retriedTwice 3 (by decide +kernel) (by decide) rfl
    (by decide) (by decide) (by decide)
  refine ⟨q, hroute, ?_, hearly q _ _ hnode rfl (by decide)⟩
  rw [show q.nodes["x"]? = some m from hnode, Option.map_some, hdue]
  rfl

end Adro.Orchestration
