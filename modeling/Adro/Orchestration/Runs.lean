import Adro.Lib.Runs
import Adro.Orchestration.FinishLaws

/-!
# Runs of the reducer

The projection after a sequence of calls, successful or not, and what each of
the four calls can do to it: `call_effect` is the step inversion every invariant
of runs uses. The fixtures at the end are the host, envelope and calls of the
concrete runs.
-/

namespace Adro.Orchestration

open Adro.Go Adro.Runs

def next (H : Host) (plan : RequirementExecutionPlan) (p : PlanProjection) (s : Step) :
    PlanProjection := (s.call H plan p).2

def after (H : Host) (plan : RequirementExecutionPlan) (p : PlanProjection) (run : List Step) :
    PlanProjection := exec (next H plan) p run

inductive Effect (H : Host) (plan : RequirementExecutionPlan) (p : PlanProjection) :
    Op → Except Err Unit → PlanProjection → Prop
  | same (op : Op) (res : Except Err Unit) : Effect H plan p op res p
  | started (args : StartArgs) (now : Time) (n : NodeProjection) (no : Int)
    (facts : StartFacts H plan p args now n no) :
    Effect H plan p (.start args) (.ok ()) (started plan p args n no now)
  | finished (k : String) (input : TransitionInput) (now : Time) (f : Finishing) (a : NodeAttempt)
    (res : Except Err NodeAttempt) (q : PlanProjection)
    (facts : FinishFacts plan p k input now f a) (result : FinishResult H plan p k input f res q) :
    Effect H plan p (.finish k input) (res.map fun _ => ()) q
  | retried (nodeID : String) (n : NodeProjection) (node : p.nodes[trimSpace nodeID]? = some n)
    (closed : n.status = .failed ∨ n.status = .timedOut) :
    Effect H plan p (.retry nodeID) (.ok ()) { p with
      nodes := p.nodes.insert nodeID { n with status := .ready }
      status := if p.status == .terminal then .running else p.status }
  | claimed (k owner : String) (at₀ now : Time) (a : NodeAttempt) (e : Err)
    (stored : p.attempts[k]? = some a) (running : a.status = .running) (named : owner ≠ "") :
    Effect H plan p (.takeOver k owner at₀) (.error e) (claimLease p a k owner now)
  | takenOver (k owner : String) (at₀ now now' : Time) (a : NodeAttempt) (f : Finishing)
    (b : NodeAttempt) (res : Except Err NodeAttempt) (q : PlanProjection)
    (stored : p.attempts[k]? = some a) (running : a.status = .running) (named : owner ≠ "")
    (facts : FinishFacts plan (claimLease p a k owner now) k
      (takeOverInput plan k (i64 (a.lease.fencingToken + 1)) now) now' f b)
    (result : FinishResult H plan (claimLease p a k owner now) k
      (takeOverInput plan k (i64 (a.lease.fencingToken + 1)) now) f res q) :
    Effect H plan p (.takeOver k owner at₀) (res.map fun _ => ()) q

theorem takeOver_effect (plan : RequirementExecutionPlan) (k owner : String) :
    Effect H plan p (.takeOver k owner at₀) (takeOver H plan p k owner at₀ clock).1
      (takeOver H plan p k owner at₀ clock).2 := by
  unfold takeOver
  split
  · exact .same ..
  · rename_i a ha
    split
    · exact .same ..
    · rename_i hr
      have hrun : a.status = .running := by simpa using hr
      split
      · exact .same ..
      · rename_i ho
        have howner : owner ≠ "" := by simpa using ho
        simp only
        generalize (if at₀ == 0 then clock else at₀) = now
        rcases finishAttempt_cases H plan (claimLease p a k owner now) k
          (takeOverInput plan k (i64 (a.lease.fencingToken + 1)) now) clock with
          ⟨e, h⟩ | ⟨b, -, hkey⟩ | ⟨f, b, hf, hres⟩
        · rw [h]; exact .claimed k owner at₀ now a e ha hrun howner
        · exact absurd (.inl (show trimSpace "" = "" by decide)) hkey
        · have hcall := Effect.takenOver k owner at₀ now _ a f b _ _ ha hrun howner hf hres
          split <;> (rename_i h; rw [h] at hcall; exact hcall)

theorem call_effect (H : Host) (plan : RequirementExecutionPlan) (p : PlanProjection) (s : Step) :
    Effect H plan p s.op (s.call H plan p).1 (next H plan p s) := by
  obtain ⟨op, clock⟩ := s
  unfold next Step.call
  cases op with
  | start args =>
    rcases startAttempt_cases H plan p args clock with h | ⟨n, no, hf, h⟩
    · simp only [h]; exact .same ..
    · simp only [h]; exact .started args _ n no hf
  | finish k input =>
    rcases finishAttempt_cases H plan p k input clock with ⟨e, h⟩ | ⟨a, h, -⟩ | ⟨f, a, hf, hres⟩
    · simp only [h]; exact .same ..
    · simp only [h]; exact .same ..
    · exact .finished k input _ f a _ _ hf hres
  | retry nodeID =>
    show Effect H plan p (.retry nodeID) (retry p nodeID).1 (retry p nodeID).2
    unfold retry
    split
    · exact .same ..
    · rename_i n hn
      split
      · exact .same ..
      · rename_i hs
        simp only [Bool.and_eq_true, bne_iff_ne, not_and, not_not] at hs
        exact .retried nodeID n hn (Classical.or_iff_not_imp_left.mpr hs)
  | takeOver k owner at₀ => exact takeOver_effect plan k owner

def sampleHost : Host where
  fold := id
  manifestBody := fun _ => none
  selectionDigest := fun _ => "selection"
  transitionDigest := fun event _ _ => event

def sampleEnvelope : ContextEnvelope where
  manifest := { sessionID := "s", version := 1, tokenBudget := 10, digest := "d" }
  selectionDigest := "selection"
  replayKey := "s:1:selection"

def agentNode (k : String) : WorkflowNode :=
  { id := k, kind := .agent, agentRef := some { id := "agent", revision := 1 } }

def repairNode (k target : String) (verification : List String) : WorkflowNode :=
  { agentNode k with
    kind := .repair
    repairPolicy :=
      { targetNodeID := target, verificationNodeIDs := verification, maxRounds := 1 } }

def successEdge (k fromID toID : String) : WorkflowEdge := { id := k, fromID, toID, on := .success }

def repairResult (target : String) (verification : List String) (rounds : Int) :
    StructuredResult where
  fields := ((((∅ : GoMap Value).insert "target_node_id" (.str target)).insert
    "verification_node_ids" (.strs verification)).insert "max_rounds" (.int .int rounds))

def samplePlan (g : WorkflowGraph) : RequirementExecutionPlan :=
  { id := "plan", planHash := "hash", revision := 1, status := .ready, graphSnapshot := g }

def startCall (nodeID attemptID : String) : Step where
  op := .start { nodeID, attemptID, lease := { expiresAt := 1000 }, envelope := sampleEnvelope }
  clock := 1

def finishCall (attemptID event : String) (result : StructuredResult) : Step where
  op := .finish attemptID { event, result := { result with evidenceIDs := ["evidence"] } }
  clock := 2

/-- The run from a plan's first projection; empty when there is none. -/
def sampleRun (plan : RequirementExecutionPlan) (run : List Step) : PlanProjection :=
  match newProjection plan with
  | .ok p => after sampleHost plan p run
  | .error _ => {}

def succeeds (plan : RequirementExecutionPlan) : PlanProjection → List Step → Bool
  | _, [] => true
  | p, s :: run =>
    (s.call sampleHost plan p).1.toBool && succeeds plan (next sampleHost plan p s) run

theorem sampleRun_new (h : (newProjection plan).toBool = true) :
    newProjection plan = .ok (sampleRun plan []) := by
  unfold sampleRun
  cases hn : newProjection plan with
  | ok p => rfl
  | error e => rw [hn] at h; cases h

end Adro.Orchestration
