import Adro.Orchestration.Replay
import Adro.Orchestration.Stall

/-!
# A scheduler's tick

`tick` closes the plan once its deadline has passed, and else advances the
structural nodes and dispatches agents within the limits. The attempts that are
running at the deadline are closed by the reducer, each with an event, and the
first of them ends the plan. When none is running the terminal status is written
into the projection and no event records it, so the log replays to a plan that
is still live.
-/

namespace Adro.Orchestration

open Adro.Go Adro.Runs

structure SchedulerConfig where
  maxConcurrent : Int := 0
  leaseTTL : Duration := 0

structure ScheduleReport where
  started : List NodeAttempt := []
  advanced : List NodeAttempt := []
  waiting : List String := []
  blocked : GoMap String := ∅
  terminal : Bool := false

/-- `ErrDeadlineExceeded` as the tick itself returns it, or the error of a callee. -/
inductive TickError
  | deadlineExceeded
  | failed (err : Err)

/-- What a tick takes from outside: the envelope, the clock at each reading, the
writes that close attempts, the fault of the direct save, and the work of its nodes. -/
structure TickArgs where
  envelope : ContextEnvelope
  checkedAt : Time
  now : Time
  closed : String → Write
  closedAt : String → Time := fun _ => 0
  saved : Option Err := none
  readyAt : Time := 0
  structuralAt : Time := 0
  queuedAt : Time := 0
  dispatchedAt : Time := 0
  structural : String → StructuralWork
  dispatch : String → DispatchWork

structure Ticked where
  report : ScheduleReport
  error : Option TickError := none
  progress : Progress

variable (E : EventHost) (plan : RequirementExecutionPlan) (x : Executor) (cfg : SchedulerConfig)
  (t : TickArgs)

def runningIDs (p : PlanProjection) : List String :=
  (p.attempts.toList.filter fun e => e.2.status == .running).map (·.1)

def deadlineInput (attemptID : String) (a : NodeAttempt) (now : Time) : TransitionInput where
  planRevision := plan.revision
  attemptID := attemptID
  leaseToken := a.lease.fencingToken
  event := "timeout"
  result := {
    outcome := "timeout", summary := "plan deadline exceeded"
    evidenceIDs := ["deadline:" ++ plan.id ++ ":" ++ attemptID] }
  failure := some { code := "plan_deadline_exceeded", message := "plan deadline exceeded" }
  now := now

/-- The running attempts in turn, until one cannot be closed. -/
def closeAttempts : List String → Progress → Turn
  | [], g => (none, g)
  | id :: rest, g =>
    let a := (g.session.projection.attempts[id]?).getD {}
    let input := deadlineInput plan id a t.now
    let commits := g.commits ++ finishCommits E plan g.session id input
      (t.closedAt id) (t.closed id)
    match Executor.finishAttempt E plan g.session id input (t.closedAt id) (t.closed id) with
    | (.error err, s) => (some err, { g with session := s, commits })
    | (.ok b, s) => closeAttempts rest { session := s, attempts := g.attempts ++ [b], commits }

def expirePlan (s : Session) : Ticked :=
  let report : ScheduleReport := { blocked := (∅ : GoMap String).insert "plan" "deadline_exceeded" }
  match closeAttempts E plan t (runningIDs s.projection) { session := s } with
  | (some err, g) => {
      report := { report with advanced := g.attempts }, error := some (.failed err), progress := g }
  | (none, g) =>
    if g.session.projection.status == .terminal then {
      report := { report with advanced := g.attempts, terminal := true }
      error := some .deadlineExceeded, progress := g }
    else
      let p := terminate "timed_out" g.session.projection
      match g.session.repo.saveProjection p t.saved with
      | (.error err, r) => {
          report := { report with advanced := g.attempts }
          error := some (.failed err), progress := { g with session := ⟨p, r⟩ } }
      | (.ok _, r) => {
          report := { report with advanced := g.attempts, terminal := true }
          error := some .deadlineExceeded, progress := { g with session := ⟨p, r⟩ } }

def limitForStructural (configured : Int) : Int :=
  let limit := if configured ≤ 0 then (plan.graphSnapshot.nodes.length : Int) else configured
  if plan.policyBudget.concurrent > 0 && plan.policyBudget.concurrent < limit then
    plan.policyBudget.concurrent
  else limit

def availableLimit (p : PlanProjection) (ready : Nat) : Int :=
  let limit := if cfg.maxConcurrent ≤ 0 then (ready : Int) else cfg.maxConcurrent
  let limit := if plan.policyBudget.concurrent > 0 && limit > plan.policyBudget.concurrent then
    plan.policyBudget.concurrent else limit
  max 0 (min limit (limit - runningCount p))

def blockedNodes (nodes : List WorkflowNode) : GoMap String :=
  nodes.foldl (fun blocked n => blocked.insert n.id "concurrency_limit") ∅

/-- The rest of a tick once the structural nodes have been advanced. A limit of
zero would mean no limit to the dispatch, so it is not called. -/
def dispatchTick (report : ScheduleReport) (g : Progress) : Ticked :=
  let p := g.session.projection
  let ready := readyNodesAt E.toHost plan p t.queuedAt
  let limit := availableLimit plan cfg p ready.length
  let report := { report with waiting := (ready.filter fun n => !n.external).map (·.id) }
  if limit == 0 then {
    report := { report with
      blocked := blockedNodes (ready.filter WorkflowNode.external)
      terminal := p.status == .terminal }
    progress := g }
  else
    match dispatchReady E plan { x with leaseTTL := cfg.leaseTTL } g.session t.envelope limit
      t.dispatchedAt t.dispatch with
    | (some err, d) => {
        report, error := some (.failed err), progress :=
          { d with commits := g.commits ++ d.commits } }
    | (none, d) => {
        report := { report with
          started := d.attempts
          blocked := blockedNodes ((ready.filter WorkflowNode.external).filter fun n =>
            !(d.attempts.any fun a => a.nodeID == n.id))
          terminal := d.session.projection.status == .terminal }
        progress := { d with commits := g.commits ++ d.commits } }

def tick (s : Session) : Ticked :=
  if plan.deadline != 0 && plan.deadline ≤ t.checkedAt then expirePlan E plan t s
  else if (readyNodesAt E.toHost plan s.projection t.readyAt).isEmpty then {
    report := { terminal := s.projection.status == .terminal }, progress := { session := s } }
  else
    match advanceStructural E plan x s t.envelope (limitForStructural plan cfg.maxConcurrent)
      t.structuralAt t.structural with
    | (some err, g) => { report := {}, error := some (.failed err), progress := g }
    | (none, g) => dispatchTick E plan x cfg t { advanced := g.attempts } g

variable {E plan x cfg t} {clock : Time} {g : Progress} {k : String} {s : Session}

theorem closeAttempt_ok
    (h : Executor.finishAttempt E plan s k (deadlineInput plan k a now) at₀ w = (.ok b, s')) :
    s'.projection.status = .terminal ∧ b.status = .timedOut ∧
      s'.projection.attempts = s.projection.attempts.insert k b := by
  unfold Executor.finishAttempt at h
  generalize hi : ({ deadlineInput plan k a now with
    now := (deadlineInput plan k a now).at at₀ } : TransitionInput) = i at h
  have hevent : i.event = "timeout" := by rw [← hi]; rfl
  have hfailure : i.failure = (deadlineInput plan k a now).failure := by rw [← hi]
  have hkey : i.idempotencyKey = "" := by rw [← hi]; rfl
  simp only at h
  split at h
  · cases h
  · rename_i c p hfin
    split at h
    · cases h
    · cases h
      rcases finishAttempt_cases E.toHost plan s.projection k i at₀ with
        ⟨e, he⟩ | ⟨c, -, hne⟩ | ⟨f, c, hf, hres⟩
      · rw [hfin] at he; cases he
      · exact absurd (.inl (by rw [hkey]; decide)) hne
      · rw [hfin] at hres
        have hwrites := hres.writes hf
        cases hres with
        | kept a' mid m hr hm hs =>
          have hstatus : (stampAttempt f.now a').status = .timedOut := by
            have hsettled := hf.event
            rw [hevent, ← stamped_status hr] at hsettled
            exact (Option.some.inj hsettled).symm
          have hdeadline : deadlineTimeout (stampAttempt f.now a') = true := by
            rw [deadlineTimeout, hstatus, (stamped_input hr hf).2.2, hfailure]
            rfl
          exact ⟨settle_closes hs hdeadline, hstatus, hwrites.attempts⟩

/-- Attempts that have been closed end the plan, and none of them runs. -/
theorem closeAttempts_ends (h : closeAttempts E plan t ids g = (none, g')) :
    (ids ≠ [] ∨ g.session.projection.status = .terminal →
      g'.session.projection.status = .terminal) ∧
    ∀ (k : String) (a : NodeAttempt), g'.session.projection.attempts[k]? = some a →
      a.status = .running → k ∉ ids ∧ g.session.projection.attempts[k]? = some a := by
  induction ids generalizing g with
  | nil =>
    cases h
    exact ⟨fun h => h.resolve_left fun hne => hne rfl, fun k a ha _ => ⟨by simp, ha⟩⟩
  | cons id rest ih =>
    unfold closeAttempts at h
    simp only at h
    split at h
    · cases h
    · rename_i b s hs
      obtain ⟨hend, hb, hattempts⟩ := closeAttempt_ok hs
      obtain ⟨hstatus, hrun⟩ := ih h
      refine ⟨fun _ => hstatus (.inr hend), fun k a ha hr => ?_⟩
      obtain ⟨hrest, hbefore⟩ := hrun k a ha hr
      -- The attempt just closed does not run, so it is another one.
      rw [show s.projection.attempts = _ from hattempts, GoMap.get_set] at hbefore
      split at hbefore
      · cases hbefore
        rw [hb] at hr
        cases hr
      · rename_i hne
        refine ⟨?_, hbefore⟩
        rw [List.mem_cons, not_or]
        exact ⟨fun heq => hne heq.symm, hrest⟩

theorem closeAttempts_kept (ids : List String) (g : Progress) :
    Kept E plan clock (Current E plan clock g.session) g (closeAttempts E plan t ids g) := by
  induction ids generalizing g with
  | nil => exact ⟨[], by simp [closeAttempts], fun hcur _ => ⟨⟨_, hcur⟩, fun _ => hcur⟩⟩
  | cons id rest ih =>
    unfold closeAttempts
    simp only
    split
    · rename_i err s hs
      refine ⟨_, rfl, fun hcur hok => ⟨?_, nofun⟩⟩
      have := (finish_current hcur hok).1
      rwa [hs] at this
    · rename_i b s hs
      obtain ⟨more, hmore, hgo⟩ := ih { session := s, attempts := g.attempts ++ [b], commits := _ }
      refine ⟨_, hmore.trans (List.append_assoc _ _ _), fun hcur hok => hgo ?_ fun c hc =>
        hok c (List.mem_append_right _ hc)⟩
      exact (finish_current hcur fun c hc => hok c (List.mem_append_left _ hc)).2 b s hs

theorem mem_runningIDs :
    k ∈ runningIDs p ↔ ∃ a, p.attempts[k]? = some a ∧ a.status = .running := by
  simp only [runningIDs, List.mem_map, List.mem_filter, beq_iff_eq, GoMap.mem_entries]
  constructor
  · rintro ⟨e, ⟨he, hs⟩, rfl⟩
    exact ⟨e.2, he, hs⟩
  · rintro ⟨a, ha, hs⟩
    exact ⟨(k, a), ⟨ha, hs⟩, rfl⟩

/-- Once every running attempt has been closed the plan has ended, if there was one. -/
theorem expirePlan_closes (hbusy : s.projection.status = .terminal ∨
      ∃ (k : String) (a : NodeAttempt), s.projection.attempts[k]? = some a ∧ a.status = .running)
    (h : (expirePlan E plan t s).error = some .deadlineExceeded) :
    ∃ g, closeAttempts E plan t (runningIDs s.projection) { session := s } = (none, g) ∧
      (expirePlan E plan t s).progress = g ∧ g.session.projection.status = .terminal ∧
      ∀ (k : String) (a : NodeAttempt), g.session.projection.attempts[k]? = some a →
        a.status ≠ .running := by
  unfold expirePlan at h ⊢
  cases hclose : closeAttempts E plan t (runningIDs s.projection) { session := s } with
  | mk err g =>
    rw [hclose] at h
    cases err with
    | some err => cases h
    | none =>
      obtain ⟨hend, hrun⟩ := closeAttempts_ends hclose
      have hstatus : g.session.projection.status = .terminal := by
        refine hend (hbusy.elim .inr fun ⟨k, a, ha, hr⟩ => .inl ?_)
        exact List.ne_nil_of_mem (mem_runningIDs.2 ⟨a, ha, hr⟩)
      refine ⟨g, rfl, ?_, hstatus, fun k a ha hr => ?_⟩
      · simp only [hstatus, beq_self_eq_true, if_true]
      obtain ⟨hnot, hbefore⟩ := hrun k a ha hr
      exact hnot (mem_runningIDs.2 ⟨a, hbefore, hr⟩)

/-- A tick on the projection the repository has; without one there is no tick. -/
def tickOn (E : EventHost) (plan : RequirementExecutionPlan) (x : Executor) (cfg : SchedulerConfig)
    (t : TickArgs) (r : MemoryRepository) : Ticked :=
  match r.getProjection plan.id with
  | .error err => { report := {}, error := some (.failed err), progress := { session := ⟨{}, r⟩ } }
  | .ok p => tick E plan x cfg t ⟨p, r⟩

def deadlinePlan : RequirementExecutionPlan := { singlePlan with deadline := 5 }

def deadlineRepo : MemoryRepository :=
  (MemoryRepository.createPlan sampleLog {} deadlinePlan none).2

def noWrite : Write := { origin := { id := "" } }

def lateTick : TickArgs where
  envelope := sampleEnvelope
  checkedAt := 5
  now := 5
  closed := fun id => { origin := { id := "closed " ++ id } }
  structural := fun _ => {
    attemptID := "", now := 0, started := noWrite, finished := noWrite
    decision := .error (errorNew "") }
  dispatch := fun _ => {
    prepared := .error (errorNew ""), attemptID := "", now := 0, run := .error ⟨"", ""⟩
    started := noWrite, failed := noWrite, bound := noWrite }

def Ticked.expired (r : Ticked) : Bool :=
  match r.error with
  | some .deadlineExceeded => true
  | _ => false

theorem deadlineRepo_published : Published sampleLog deadlinePlan deadlineRepo where
  stored := ⟨_, rfl, rfl⟩
  chain := by decide +kernel
  lifecycle := by
    rw [show deadlineRepo.log deadlinePlan.id = [] by decide +kernel]
    simp

def dispatchedDeadline : MemoryRepository :=
  callStep sampleLog deadlinePlan {} deadlineRepo (dispatchCall "dir")

theorem Ticked.error_of_expired {r : Ticked} (h : r.expired = true) :
    r.error = some .deadlineExceeded := by
  unfold Ticked.expired at h
  split at h
  · assumption
  · cases h

end Adro.Orchestration
