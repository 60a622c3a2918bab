import Adro.Pipeline.Evidence
import Mathlib.Data.List.Sort

/-!
# Runs with a workflow of their own

A workflow selects stages and gives each an agent and a retry limit. `Apply` then
routes by a second table. A run without a workflow goes through the default one,
routed by the first table; the two tables differ in one edge.
-/

namespace Adro.Pipeline

open Adro.Go Adro.Runs

def Stage.number : Stage → Int
  | .design => 1
  | .development => 2
  | .unitTest => 3
  | .integration => 4
  | .arbitration => 5
  | .revalidation => 6
  | .report => 7
  | .other n => n

/-- `domain.WorkflowStep`, without the fields that no function here reads. -/
structure WorkflowStep where
  id : String := ""
  stage : Stage := .other 0
  agentID : String := ""
  retryLimit : Int := 0

def WorkflowStep.validate (s : WorkflowStep) : Except Error Unit := do
  ensure (!blank s.id) (failure "workflow step id is required")
  ensure s.stage.valid (failure ("workflow step " ++ quote s.id ++ " has invalid stage"))
  ensure (!blank s.agentID) (failure ("workflow step " ++ quote s.id ++ " has no agent_id"))
  ensure (0 ≤ s.retryLimit)
    (failure ("workflow step " ++ quote s.id ++ " retry_limit cannot be negative"))

def defaultWorkflow (roles : Roles) : List WorkflowStep :=
  [⟨"design", .design, roles.designer, 0⟩,
    ⟨"development", .development, roles.developer, 0⟩,
    ⟨"unit_test", .unitTest, roles.tester, 0⟩,
    ⟨"integration_test", .integration, roles.tester, 0⟩,
    ⟨"arbitration", .arbitration, roles.arbitrator, 0⟩,
    ⟨"revalidation", .revalidation, roles.tester, 0⟩,
    ⟨"report", .report, roles.tester, 0⟩]

def normalizeWorkflow (steps : List WorkflowStep) : List WorkflowStep :=
  steps.insertionSort fun a b => a.stage.number ≤ b.stage.number

/-- The checks of `Validate` on the steps, with the stages seen so far. -/
def checkSteps : List WorkflowStep → List Stage → Except Error Unit
  | [], seen => ensure (seen.contains .report) (failure "workflow must include the report stage")
  | step :: rest, seen => do
    step.validate
    ensure (!seen.contains step.stage)
      (failure ("workflow stage " ++ toString step.stage.number ++ " is duplicated"))
    checkSteps rest (step.stage :: seen)

structure WorkflowRun extends Run where
  workflow : List WorkflowStep := []

/-- The stage of the step behind that of the given one. -/
def nextSelected (stage : Stage) : List WorkflowStep → Stage
  | [] => stage
  | step :: rest =>
    if step.stage != stage then nextSelected stage rest
    else (rest.head?.map (·.stage)).getD stage

namespace WorkflowRun

variable (run : WorkflowRun)

def steps : List WorkflowStep :=
  if run.workflow.isEmpty then defaultWorkflow run.roles else normalizeWorkflow run.workflow

def stepFor (stage : Stage) : WorkflowStep := (run.steps.find? (·.stage == stage)).getD {}

def agentFor (stage : Stage) : String :=
  if (run.stepFor stage).agentID != "" then (run.stepFor stage).agentID
  else run.roles.agentFor stage

def hasStage (stage : Stage) : Bool := (run.stepFor stage).stage == stage

def nextSelectedStage (stage : Stage) : Stage := nextSelected stage run.steps

def retryLimit (stage : Stage) : Int :=
  if 0 < (run.stepFor stage).retryLimit then (run.stepFor stage).retryLimit else run.maxRetries

def validateSteps : Except Error Unit :=
  if run.workflow.isEmpty then run.roles.validate else checkSteps run.workflow []

def validate : Except Error Unit := do
  ensure (!blank run.workspaceID && !blank run.requirementID)
    (failure "workspace_id and requirement_id are required")
  ensure (!blank run.sessionID) (failure "session_id is required")
  ensure run.stage.valid (failure "pipeline_stage must be between 1 and 7")
  run.validateSteps
  ensure (1 ≤ run.maxRetries) (failure "max_retries must be at least 1")
  ensure (!run.coverageThreshold.le (.finite 0) && !(F64.finite 100).lt run.coverageThreshold)
    (failure "coverage_threshold must be in (0,100]")

def completed (newID newSession : String) : WorkflowRun :=
  let workflow := normalizeWorkflow run.workflow
  ⟨{ run.toRun.completed newID newSession with
    stage := if run.stage == .other 0 then (workflow.head?.map (·.stage)).getD .design
      else run.stage }, workflow⟩

def createPipeline (pipelines : List WorkflowRun) (newID newSession : String) (now : Time) :
    Except Error WorkflowRun := do
  let run := run.completed newID newSession
  run.validate
  ensure (!pipelines.any fun existing => existing.requirementID == run.requirementID &&
      existing.status != .completed && existing.status != .failed)
    (failure ("an active pipeline already exists for requirement " ++ run.requirementID))
  ensure (!pipelines.any (·.id == run.id)) ⟨some .conflict, "conflict"⟩
  .ok ⟨{ run.toRun with version := 1, updatedAt := now, activeAgentID := run.agentFor run.stage },
    run.workflow⟩

variable (result : Result)

/-- Without arbitration a failed integration counts as a repair at once. -/
def unarbitrated : Bool :=
  run.stage == .integration && result.outcome == "fail" && !run.workflow.isEmpty &&
    !run.hasStage .arbitration

def counted : WorkflowRun :=
  let counted := run.toRun.counted result
  ⟨{ counted with
    retryCount := if run.unarbitrated result then i64 (counted.retryCount + 1)
      else counted.retryCount }, run.workflow⟩

def onwards : Stage × Status × String :=
  let next := run.nextSelectedStage run.stage
  if next == run.stage && run.stage != .report then
    (run.stage, .suspended, "workflow has no subsequent stage")
  else (next, .running, "")

def nextCustomStage : Except Error (Stage × Status × String) :=
  let pass := result.outcome == "pass"
  match run.stage with
  | .design =>
    if !pass then .ok (.design, .suspended, "design generation failed")
    else if blank result.designDoc then .error (failure "design stage requires design_doc")
    else if run.workflowMode == "design_approval" && run.designApprovalStatus != "approved" then
      .ok (.design, .waitingApproval, "design approval required")
    else .ok run.onwards
  | .development =>
    if !pass then
      if run.retryLimit .development ≤ run.retryCount then
        .ok (.development, .suspended, "development retry limit reached")
      else .ok (.development, .running, "")
    else if blank result.codeVersion then .error (failure "development stage requires code_version")
    else .ok run.onwards
  | .unitTest =>
    if !pass || result.coverage.lt run.coverageThreshold then
      if run.retryLimit .unitTest ≤ run.unitRetryCount then
        .ok (.unitTest, .suspended, "unit-test or coverage retry limit reached")
      else .ok (.unitTest, .running, "")
    else .ok run.onwards
  | .report =>
    if !pass then .ok (.report, .suspended, "report generation failed")
    else if blank result.report then .error (failure "report stage requires report")
    else .ok (.report, .completed, "")
  | .integration =>
    if pass then .ok run.onwards
    else if run.hasStage .arbitration then .ok (.arbitration, .running, "")
    else if run.hasStage .development && run.retryCount < run.retryLimit .development then
      .ok (.development, .running, "")
    else .ok (.integration, .suspended, "integration failed and no repair stage is configured")
  | .arbitration =>
    if !pass then .ok (.arbitration, .suspended, "arbitrator rejected automatic repair")
    else if run.retryLimit .arbitration < run.retryCount then
      .ok (.arbitration, .suspended, "repair retry limit reached")
    else if run.hasStage .development then .ok (.development, .running, "")
    else .ok run.onwards
  | .revalidation =>
    if pass then .ok run.onwards
    else if run.hasStage .arbitration then .ok (.arbitration, .running, "")
    else .ok (.revalidation, .suspended,
      "revalidation failed and no arbitration stage is configured")
  | .other _ => .ok run.onwards

def nextStage : Except Error (Stage × Status × String) :=
  if run.workflow.isEmpty then run.toRun.nextStage result else run.nextCustomStage result

/-- The run in its next stage, once the result is counted. -/
def routed (now : Time) : Except Error WorkflowRun := do
  let (next, status, reason) ← run.nextStage result
  .ok ⟨{ run.advanced result next status reason now with
    activeAgentID := if status == .completed then "" else run.agentFor next }, run.workflow⟩

/-- `Engine.Apply`. -/
def apply (now : Time) : Except Error WorkflowRun := do
  ensure (run.status != .completed && run.status != .suspended && run.status != .failed)
    (failure ("pipeline is terminal: " ++ run.status.text))
  ensure (result.stage == run.stage) ⟨some .staleStage, "pipeline result is for a stale stage"⟩
  ensure (!blank result.agentID && result.agentID == run.agentFor run.stage)
    ⟨some .wrongAgent, "pipeline result is from the wrong role agent"⟩
  ensure (result.outcome == "pass" || result.outcome == "fail")
    (failure "outcome must be pass or fail")
  let pinned ← Run.pinned { run.toRun with context := run.context.merged result } result
  (counted ⟨pinned, run.workflow⟩ result).routed result now

/-- A refused result leaves the run as it was. -/
def submit (x : Result × Time) : WorkflowRun :=
  match run.apply x.1 x.2 with
  | .ok next => next
  | .error _ => run

/-- What `Apply` answers to the results, one after the other. -/
def answers (run : WorkflowRun) : List (Result × Time) → List (Except Error WorkflowRun)
  | [] => []
  | x :: xs => run.apply x.1 x.2 :: answers (run.submit x) xs

variable {run next : WorkflowRun} {x : Result} {now : Time}

/-- `Apply` in its parts. -/
theorem apply_ok (h : run.apply x now = .ok next) :
    (run.status ≠ .completed ∧ run.status ≠ .suspended ∧ run.status ≠ .failed) ∧
      (x.outcome = "pass" ∨ x.outcome = "fail") ∧ ∃ session dir stage status reason,
      (if run.stage = .development then session = x.providerSessionID ∧ dir = x.providerWorkDir
        else session = run.parentSessionID ∧ dir = run.providerWorkDir) ∧
      (run.counted x).nextStage x = .ok (stage, status, reason) ∧
      next = ⟨{ (run.counted x).advanced x stage status reason now with
        context := run.context.merged x
        parentSessionID := session
        providerWorkDir := dir
        activeAgentID := if status == .completed then "" else run.agentFor stage },
        run.workflow⟩ := by
  obtain ⟨hopen, -, h⟩ := then_ok.mp h |>.imp ensure_ok.mp then_ok.mp
  obtain ⟨-, houtcome, h⟩ := then_ok.mp h |>.imp id then_ok.mp
  obtain ⟨p, hp, h⟩ := bind_ok.mp h
  have hpins := pinned_ok hp
  obtain ⟨session, dir, rfl⟩ : ∃ session dir, p = { run.toRun with
      context := run.context.merged x, parentSessionID := session, providerWorkDir := dir } :=
    ⟨_, _, hpins.rest⟩
  obtain ⟨⟨stage, status, reason⟩, hnext, h⟩ := bind_ok.mp h
  refine ⟨by simpa [and_assoc] using hopen, by simpa [ensure_ok] using houtcome, session, dir,
    stage, status, reason, ?_, hnext, (Except.ok.inj h).symm⟩
  split
  · rename_i hdev
    exact (hpins.made hdev).2.imp Eq.symm Eq.symm
  · rename_i hdev
    exact hpins.kept (.inr hdev)

theorem ensure_map (h : c = true → k () = (k' ()).map f) :
    (ensure c e >>= k) = (ensure c e >>= k').map f := by
  cases c with
  | false => rfl
  | true => exact h rfl

section
variable (run : Run)

theorem agentFor_plain (stage : Stage) : agentFor ⟨run, []⟩ stage = run.roles.agentFor stage := by
  unfold agentFor
  split
  · cases stage <;> rfl
  · rfl

theorem validate_plain : validate ⟨run, []⟩ = run.validate := by
  simp only [validate, validateSteps, Run.validate, List.isEmpty_nil, if_true]

theorem completed_plain :
    completed ⟨run, []⟩ newID newSession = ⟨run.completed newID newSession, []⟩ := rfl

/-- Without a workflow a run is created as in the default pipeline. -/
theorem createPipeline_plain (pipelines : List WorkflowRun) :
    createPipeline ⟨run, []⟩ pipelines newID newSession now =
      (Pipeline.createPipeline (pipelines.map (·.toRun)) newID newSession now run).map
      (⟨·, []⟩) := by
  simp only [createPipeline, Pipeline.createPipeline, completed_plain, validate_plain,
    agentFor_plain,
    List.any_map]
  generalize run.completed newID newSession = run
  cases run.validate with
  | error e => rfl
  | ok _ => exact ensure_map fun _ => ensure_map fun _ => rfl

/-- Without a workflow a result is applied as in the default pipeline. -/
theorem apply_plain : apply ⟨run, []⟩ x now = (run.apply x now).map (⟨·, []⟩) := by
  simp only [apply, Run.apply, agentFor_plain]
  refine ensure_map fun _ => ensure_map fun _ => ensure_map fun _ => ensure_map fun _ => ?_
  cases Run.pinned { run with context := run.context.merged x } x with
  | error e => rfl
  | ok p =>
    have hcounted : counted ⟨p, []⟩ x = ⟨p.counted x, []⟩ := by simp [counted, unarbitrated]
    show routed (counted ⟨p, []⟩ x) x now = _
    rw [hcounted]
    simp only [routed, nextStage, agentFor_plain, List.isEmpty_nil, if_true]
    show _ = ((p.counted x).nextStage x >>= _).map _
    cases (p.counted x).nextStage x <;> rfl

/-- A run without a workflow is a run of the default pipeline, whatever results it gets. -/
theorem exec_plain (seen : List Result) (results : List (Result × Time)) :
    exec submit ⟨run, []⟩ results = ⟨(exec Pipeline.submit (run, seen) results).1, []⟩ := by
  induction results generalizing run seen with
  | nil => rfl
  | cons x results ih =>
    simp only [exec_cons, submit, Pipeline.submit, apply_plain]
    cases run.apply x.1 x.2 with
    | error e => exact ih run seen
    | ok next => exact ih next (seen ++ [x.1])

end

def explicit (run : WorkflowRun) : WorkflowRun := ⟨run.toRun, defaultWorkflow run.roles⟩

section
variable (h : run.workflow = [])
include h

theorem steps_explicit : run.explicit.steps = run.steps := by
  simp only [steps, h]
  rfl

theorem stepFor_explicit (stage : Stage) : run.explicit.stepFor stage = run.stepFor stage := by
  rw [stepFor, steps_explicit h, stepFor]

theorem agentFor_explicit (stage : Stage) : run.explicit.agentFor stage = run.agentFor stage := by
  simp only [agentFor, stepFor_explicit h]
  rfl

theorem hasStage_explicit (stage : Stage) (hstage : stage.valid = true) :
    run.explicit.hasStage stage = true := by
  rw [hasStage, stepFor_explicit h]
  cases stage <;> simp [stepFor, steps, h, defaultWorkflow, Stage.valid] at hstage ⊢

theorem counted_explicit : run.explicit.counted x = (run.counted x).explicit := by
  have hsame : run.explicit.unarbitrated x = run.unarbitrated x := by
    simp [unarbitrated, hasStage_explicit h .arbitration rfl, h]
  rw [counted, hsame]
  rfl

theorem nextStage_explicit (hvalid : run.stage.valid = true)
    (hx : run.stage = .integration → x.outcome ≠ "pass") :
    run.explicit.nextStage x = run.nextStage x := by
  have hstage : run.explicit.stage = run.stage := rfl
  have hnext : run.explicit.nextSelectedStage run.stage =
      nextSelected run.stage (defaultWorkflow run.roles) := by
    rfl
  have harb := hasStage_explicit h .arbitration rfl
  simp only [nextStage, nextCustomStage, Run.nextStage, onwards, hstage, harb, h]
  cases hs : run.stage with
  | integration =>
    have hfail : (x.outcome == "pass") = false := by simpa using hx hs
    simp [hfail]
  | arbitration => rfl
  | revalidation => cases hpass : (x.outcome == "pass") <;> rfl
  | other n => simp [hs, Stage.valid] at hvalid
  | _ => rfl

theorem routed_explicit (hvalid : run.stage.valid = true)
    (hx : run.stage = .integration → x.outcome ≠ "pass") :
    run.explicit.routed x now = (run.routed x now).map explicit := by
  rw [routed, routed, nextStage_explicit h hvalid hx]
  cases run.nextStage x with
  | error e => rfl
  | ok route =>
    simp only [agentFor_explicit h]
    rfl

theorem apply_explicit (hx : run.stage = .integration → x.outcome ≠ "pass") :
    run.explicit.apply x now = (run.apply x now).map explicit := by
  have hnone : run.stage.valid = false → run.agentFor run.stage = "" := by
    cases hs : run.stage <;>
      simp [agentFor, stepFor, steps, h, defaultWorkflow, Stage.valid, Roles.agentFor]
  have hagent : run.explicit.agentFor run.explicit.stage = run.agentFor run.stage :=
    agentFor_explicit h run.stage
  rw [apply, hagent]
  refine ensure_map fun _ => ensure_map fun _ => ensure_map fun hgiven => ensure_map fun _ => ?_
  have hvalid : run.stage.valid = true := by
    by_contra hvalid
    have hempty := hnone (by simpa using hvalid)
    simp [hempty] at hgiven
    simp [hgiven.2] at hgiven
  show Run.pinned { run.toRun with context := run.context.merged x } x >>= _ = _
  cases hp : Run.pinned { run.toRun with context := run.context.merged x } x with
  | error e => rfl
  | ok p =>
    have hroles : p.roles = run.roles := by rw [(pinned_ok hp).rest]
    have hstage : p.stage = run.stage := by rw [(pinned_ok hp).rest]
    show (counted ⟨p, defaultWorkflow run.roles⟩ x).routed x now =
      ((counted ⟨p, run.workflow⟩ x).routed x now).map explicit
    have hrouted := @routed_explicit (counted ⟨p, run.workflow⟩ x) x now h
      (show p.stage.valid = true from hstage ▸ hvalid) (show p.stage = _ → _ from hstage ▸ hx)
    rw [← hroles, ← hrouted, ← @counted_explicit ⟨p, run.workflow⟩ x h]
    rfl

end

theorem apply_workflow (h : run.apply x now = .ok next) : next.workflow = run.workflow := by
  obtain ⟨-, -, session, dir, stage, status, reason, -, -, rfl⟩ := apply_ok h
  rfl

theorem submit_workflow (x : Result × Time) : (run.submit x).workflow = run.workflow := by
  unfold submit
  split
  · exact apply_workflow ‹_›
  · rfl

theorem submit_explicit (h : run.workflow = []) {x : Result × Time}
    (hx : run.stage = .integration → x.1.outcome ≠ "pass") :
    run.explicit.submit x = (run.submit x).explicit := by
  unfold submit
  rw [apply_explicit h hx]
  cases run.apply x.1 x.2 <;> rfl

theorem answers_explicit (h : run.workflow = [])
    (hmeets : Meets submit (fun run x => run.stage = .integration → x.1.outcome ≠ "pass")
      run results) :
    run.explicit.answers results = (run.answers results).map (Except.map explicit) := by
  induction results generalizing run with
  | nil => rfl
  | cons x results ih =>
    rw [answers, apply_explicit h hmeets.1, submit_explicit h hmeets.1,
      ih ((submit_workflow x).trans h) hmeets.2]
    rfl

variable {given created created' : WorkflowRun} {pipelines : List WorkflowRun}
  {newID newSession : String}

theorem create_ok (h : given.createPipeline pipelines newID newSession now = .ok created) :
    let run := given.completed newID newSession
    run.validate = .ok () ∧ created = ⟨{ run.toRun with
      version := 1, updatedAt := now, activeAgentID := run.agentFor run.stage }, run.workflow⟩ := by
  obtain ⟨hvalid, -, h⟩ := then_ok.mp h |>.imp id then_ok.mp
  obtain ⟨-, h⟩ := then_ok.mp h
  exact ⟨hvalid, (Except.ok.inj h).symm⟩

theorem create_explicit (h : given.workflow = [])
    (hcreated : given.createPipeline pipelines newID newSession now = .ok created)
    (hcreated' : given.explicit.createPipeline pipelines newID newSession now = .ok created') :
    created.workflow = [] ∧ created' = created.explicit := by
  obtain ⟨-, rfl⟩ := create_ok hcreated
  obtain ⟨-, rfl⟩ := create_ok hcreated'
  have hempty : (given.completed newID newSession).workflow = [] := by
    rw [completed, h]
    rfl
  have hsame :
      given.explicit.completed newID newSession = (given.completed newID newSession).explicit := by
    rw [completed, completed, h]
    rfl
  refine ⟨hempty, ?_⟩
  rw [hsame, agentFor_explicit hempty]
  rfl

/-- A run with the default workflow written out goes the way of one without a
workflow, as long as no integration passes. -/
theorem explicit_default_agrees (results : List (Result × Time)) (h : given.workflow = [])
    (hcreated : given.createPipeline pipelines newID newSession now = .ok created)
    (hcreated' : given.explicit.createPipeline pipelines newID newSession now = .ok created')
    (hmeets : Meets submit (fun run x => run.stage = .integration → x.1.outcome ≠ "pass")
      created results) :
    created'.toRun = created.toRun ∧
      (created'.answers results).map (Except.map (·.toRun)) =
        (created.answers results).map (Except.map (·.toRun)) := by
  obtain ⟨hempty, rfl⟩ := create_explicit h hcreated hcreated'
  refine ⟨rfl, ?_⟩
  rw [answers_explicit hempty hmeets, List.map_map]
  congr 1
  funext answer
  cases answer <;> rfl

theorem explicit_default_until_tests :
    ∃ created created', createPipeline ⟨sampleRun, []⟩ [] "p" "s" 0 = .ok created ∧
      (explicit ⟨sampleRun, []⟩).createPipeline [] "p" "s" 0 = .ok created' ∧
      (created'.answers (sampleResults.take 4)).map (Except.map (·.toRun)) =
        (created.answers (sampleResults.take 4)).map (Except.map (·.toRun)) := by
  refine ⟨_, _, rfl, rfl, ?_⟩
  have hcreated : createPipeline ⟨sampleRun, []⟩ [] "p" "s" 0 = .ok _ := rfl
  have hcreated' : (explicit ⟨sampleRun, []⟩).createPipeline [] "p" "s" 0 = .ok _ := rfl
  exact (explicit_default_agrees _ rfl hcreated hcreated' (by decide +kernel)).2

/-- With the workflow written out, arbitration is the step behind integration, and a
passing integration leads there; without, it leads to the report. -/
theorem explicit_default_arbitrates :
    ∃ created created', createPipeline ⟨sampleRun, []⟩ [] "p" "s" 0 = .ok created ∧
      (explicit ⟨sampleRun, []⟩).createPipeline [] "p" "s" 0 = .ok created' ∧
      let results := (sampleResults.eraseIdx 1).take 4
      (exec submit created results).stage = .report ∧
        (exec submit created' results).stage = .arbitration :=
  ⟨_, _, rfl, rfl, by decide +kernel⟩

end WorkflowRun

end Adro.Pipeline
