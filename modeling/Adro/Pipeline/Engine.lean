import Adro.Go.Value
import Adro.Lib.Runs

/-!
# The delivery pipeline

`internal/pipeline`, the run it works on and `CreatePipeline`, for runs without a
workflow of their own, which go through the seven default stages. Ids and the
clock are handed in. Fields that only adapters read are left out.
-/

namespace Adro.Pipeline

open Adro.Go Adro.Runs

/-- `domain.PipelineStage`, a number from 1 to 7 or one that is no stage. -/
inductive Stage
  | design
  | development
  | unitTest
  | integration
  | arbitration
  | revalidation
  | report
  | other (n : Int)
  deriving DecidableEq, Repr

def Stage.valid : Stage → Bool
  | .other _ => false
  | _ => true

inductive Status
  | running
  | waitingProvider
  | waitingApproval
  | suspended
  | completed
  | failed
  | other (name : String)
  deriving DecidableEq, Repr

def Status.text : Status → String
  | .running => "running"
  | .waitingProvider => "waiting_provider"
  | .waitingApproval => "waiting_approval"
  | .suspended => "suspended"
  | .completed => "completed"
  | .failed => "failed"
  | .other name => name

inductive Sentinel
  | staleStage
  | wrongAgent
  | sessionContinuity
  | conflict
  deriving DecidableEq, Repr

abbrev Error := GoError Sentinel

def failure (text : String) : Error := ⟨none, text⟩

structure Roles where
  designer : String
  developer : String
  tester : String
  arbitrator : String
  deriving DecidableEq, Repr

namespace Roles

variable (r : Roles)

def missing : List String :=
  (if blank r.designer then ["designer_agent_id"] else []) ++
    (if blank r.developer then ["developer_agent_id"] else []) ++
    (if blank r.tester then ["tester_agent_id"] else []) ++
    (if blank r.arbitrator then ["arbitrator_agent_id"] else [])

def validate : Except Error Unit :=
  ensure r.missing.isEmpty (failure ("missing pipeline agents: " ++ ", ".intercalate r.missing))

/-- `PipelineRun.AgentFor` on the default workflow, whose steps have these agents. -/
def agentFor : Stage → String
  | .design => r.designer
  | .development => r.developer
  | .unitTest | .integration | .revalidation | .report => r.tester
  | .arbitration => r.arbitrator
  | .other _ => ""

end Roles

structure Context where
  designDoc : String := ""
  baselineCommit : String := ""
  currentCommit : String := ""
  passedTests : List String := []
  failedTests : List String := []
  errorLogs : List String := []
  repairNotes : List String := []
  coverage : F64 := .finite 0

structure Result where
  stage : Stage
  agentID : String
  outcome : String
  summary : String := ""
  designDoc : String := ""
  codeVersion : String := ""
  coverage : F64 := .finite 0
  passedTests : List String := []
  failedTests : List String := []
  errorLog : String := ""
  repairNote : String := ""
  report : String := ""
  providerIssueID : String := ""
  providerTaskID : String := ""
  providerSessionID : String := ""
  providerWorkDir : String := ""

structure Transition where
  sequence : Nat
  fromStage : Stage
  toStage : Stage
  outcome : String
  agentID : String
  providerIssueID : String
  providerTaskID : String
  providerSessionID : String
  providerWorkDir : String
  summary : String
  createdAt : Time

structure Run where
  id : String := ""
  workspaceID : String
  requirementID : String
  sessionID : String := ""
  parentSessionID : String := ""
  providerWorkDir : String := ""
  stage : Stage := .other 0
  status : Status := .other ""
  roles : Roles
  workflowMode : String := ""
  designApprovalStatus : String := ""
  context : Context := {}
  maxRetries : Int := 0
  retryCount : Int := 0
  unitRetryCount : Int := 0
  coverageThreshold : F64 := .finite 0
  activeProviderIssueID : String := ""
  activeProviderTaskID : String := ""
  activeAgentID : String := ""
  finalReport : String := ""
  suspendReason : String := ""
  version : Int := 0
  history : List Transition := []
  updatedAt : Time := 0

def Run.validate (run : Run) : Except Error Unit := do
  ensure (!blank run.workspaceID && !blank run.requirementID)
    (failure "workspace_id and requirement_id are required")
  ensure (!blank run.sessionID) (failure "session_id is required")
  ensure run.stage.valid (failure "pipeline_stage must be between 1 and 7")
  run.roles.validate
  ensure (1 ≤ run.maxRetries) (failure "max_retries must be at least 1")
  ensure (!run.coverageThreshold.le (.finite 0) && !(F64.finite 100).lt run.coverageThreshold)
    (failure "coverage_threshold must be in (0,100]")

def Run.completed (run : Run) (newID newSession : String) : Run :=
  { run with
    id := if run.id == "" then newID else run.id
    sessionID := if run.sessionID == "" then newSession else run.sessionID
    stage := if run.stage == .other 0 then .design else run.stage
    status := if run.status == .other "" then .running else run.status
    maxRetries := if run.maxRetries == 0 then 3 else run.maxRetries
    coverageThreshold :=
      if run.coverageThreshold == .finite 0 then .finite 80 else run.coverageThreshold }

def createPipeline (pipelines : List Run) (newID newSession : String) (now : Time) (run : Run) :
    Except Error Run := do
  let run := run.completed newID newSession
  run.validate
  ensure (!pipelines.any fun existing => existing.requirementID == run.requirementID &&
      existing.status != .completed && existing.status != .failed)
    (failure ("an active pipeline already exists for requirement " ++ run.requirementID))
  ensure (!pipelines.any (·.id == run.id)) ⟨some .conflict, "conflict"⟩
  .ok { run with version := 1, updatedAt := now, activeAgentID := run.roles.agentFor run.stage }

def appendUnique (existing values : List String) : List String :=
  values.foldl (fun known item =>
    if trimSpace item == "" || known.contains (trimSpace item) then known
    else known ++ [trimSpace item]) existing

def Context.merged (c : Context) (result : Result) : Context where
  designDoc := if result.designDoc != "" then result.designDoc else c.designDoc
  baselineCommit := if c.baselineCommit == "" then result.codeVersion else c.baselineCommit
  currentCommit := if result.codeVersion != "" then result.codeVersion else c.currentCommit
  passedTests := appendUnique c.passedTests result.passedTests
  failedTests := appendUnique c.failedTests result.failedTests
  errorLogs := c.errorLogs ++ if blank result.errorLog then [] else [result.errorLog]
  repairNotes := c.repairNotes ++ if blank result.repairNote then [] else [result.repairNote]
  coverage := if (F64.finite 0).lt result.coverage then result.coverage else c.coverage

namespace Run

variable (run : Run) (result : Result)

/-- The first development result fixes the provider's session and directory. -/
def pinned : Except Error Run :=
  if run.stage == .development then do
    ensure (!blank result.providerSessionID)
      (failure "development result requires provider_session_id")
    ensure (!blank result.providerWorkDir) (failure "development result requires provider_work_dir")
    if run.parentSessionID == "" then
      .ok { run with
        parentSessionID := result.providerSessionID, providerWorkDir := result.providerWorkDir }
    else do
      ensure (result.providerSessionID == run.parentSessionID &&
        result.providerWorkDir == run.providerWorkDir) ⟨some .sessionContinuity,
          "development repair did not reuse the original provider session"⟩
      .ok run
  else .ok run

def counted : Run :=
  { run with
    retryCount :=
      if run.stage == .development && result.outcome == "fail" ||
        run.stage == .arbitration && result.outcome == "pass" then i64 (run.retryCount + 1)
      else run.retryCount
    unitRetryCount :=
      if run.stage == .unitTest &&
        (result.outcome == "fail" || result.coverage.lt run.coverageThreshold) then
        i64 (run.unitRetryCount + 1)
      else run.unitRetryCount }

def nextStage : Except Error (Stage × Status × String) :=
  let pass := result.outcome == "pass"
  match run.stage with
  | .design =>
    if !pass then .ok (.design, .suspended, "design generation failed")
    else if blank result.designDoc then .error (failure "design stage requires design_doc")
    else if run.workflowMode == "design_approval" && run.designApprovalStatus != "approved" then
      .ok (.design, .waitingApproval, "design approval required")
    else .ok (.development, .running, "")
  | .development =>
    if !pass then
      if run.maxRetries ≤ run.retryCount then
        .ok (.development, .suspended, "development retry limit reached")
      else .ok (.development, .running, "")
    else if blank result.codeVersion then .error (failure "development stage requires code_version")
    else .ok (.unitTest, .running, "")
  | .unitTest =>
    if !pass || result.coverage.lt run.coverageThreshold then
      if run.maxRetries ≤ run.unitRetryCount then
        .ok (.unitTest, .suspended, "unit-test or coverage retry limit reached")
      else .ok (.unitTest, .running, "")
    else .ok (.integration, .running, "")
  | .integration =>
    if !pass then .ok (.arbitration, .running, "")
    else if 0 < run.retryCount then .ok (.revalidation, .running, "")
    else .ok (.report, .running, "")
  | .arbitration =>
    if !pass then .ok (.arbitration, .suspended, "arbitrator rejected automatic repair")
    else if run.maxRetries < run.retryCount then
      .ok (.arbitration, .suspended, "repair retry limit reached")
    else .ok (.development, .running, "")
  | .revalidation =>
    if !pass then .ok (.arbitration, .running, "") else .ok (.report, .running, "")
  | .report =>
    if !pass then .ok (.report, .suspended, "report generation failed")
    else if blank result.report then .error (failure "report stage requires report")
    else .ok (.report, .completed, "")
  | .other _ => .error (failure "invalid pipeline stage")

def advanced (next : Stage) (status : Status) (reason : String) (now : Time) : Run :=
  { run with
    stage := next
    status := status
    suspendReason := reason
    activeProviderIssueID := result.providerIssueID
    activeProviderTaskID := if status == .completed then "" else result.providerTaskID
    activeAgentID := if status == .completed then "" else run.roles.agentFor next
    finalReport := if status == .completed || next == .report &&
    result.report != "" then result.report
      else run.finalReport
    history := run.history ++
      [⟨run.history.length + 1, run.stage, next, result.outcome, result.agentID,
      result.providerIssueID, result.providerTaskID, result.providerSessionID,
      result.providerWorkDir,
      result.summary, now⟩]
    version := i64 (run.version + 1)
    updatedAt := now }

/-- `Engine.Apply`. -/
def apply (now : Time) : Except Error Run := do
  ensure (run.status != .completed && run.status != .suspended && run.status != .failed)
    (failure ("pipeline is terminal: " ++ run.status.text))
  ensure (result.stage == run.stage) ⟨some .staleStage, "pipeline result is for a stale stage"⟩
  ensure (!blank result.agentID && result.agentID == run.roles.agentFor run.stage)
    ⟨some .wrongAgent, "pipeline result is from the wrong role agent"⟩
  ensure (result.outcome == "pass" || result.outcome == "fail")
    (failure "outcome must be pass or fail")
  let pinned ← pinned { run with context := run.context.merged result } result
  let (next, status, reason) ← (pinned.counted result).nextStage result
  .ok ((pinned.counted result).advanced result next status reason now)

end Run

end Adro.Pipeline
