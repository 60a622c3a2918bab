import Adro.Orchestration.Executor
import Adro.Orchestration.Provider
import Adro.Orchestration.Workers

/-!
# Reconciling attempts with their providers

`reconcile` observes the provider of every running attempt and finishes the
attempts whose run has ended. What it observes of one attempt is an
`Observation`; nested plans, the outbox and the provider are outside. The
attempts come in the order in which the map of the projection is ranged over.
-/

namespace Adro.Orchestration

open Adro.Go

/-- What happens outside while one attempt is reconciled: the nested plan's
status and outcome after its worker ran, the start of a run that was reserved
and not bound with the acknowledgement of its intent, and the run's snapshot. -/
structure Observation where
  child : MemoryRepository → Except Err (PlanStatus × String) × MemoryRepository
  intent : Except Err (Option Binding)
  bound : Write
  ack : Option Err
  snapshot : String → Except Err RunSnapshot
  finish : Write
  clock : Time

variable (W : WorkerHost) (plan : RequirementExecutionPlan) (now : Time) {r : Report}
  {p q : PlanProjection} {reason : Prop}

section

variable (s : Session) (a : NodeAttempt) (o : Observation)

/-- A binding stays in the projection when its event is not committed. -/
def recoverUnboundAttempt : Except Err (Option NodeAttempt) × Session :=
  if a.id == "" || a.idempotencyKey == "" then (.ok none, s)
  else
    match o.intent with
    | .error err => (.error err, s)
    | .ok none => (.ok none, s)
    | .ok (some b) =>
      if blank b.id || blank b.sessionID || blank b.workDir then
        (.error (errorNew "provider returned incomplete binding during recovery"), s)
      else
        let a := { a with runID := b.id, sessionID := b.sessionID, workDir := b.workDir }
        let p := { s.projection with attempts := s.projection.attempts.insert a.id a }
        let d : Draft := {
          origin := o.bound.origin, type := "attempt.bound", key := a.idempotencyKey ++ ":bound"
          payload := {
            attemptID := a.id, runID := a.runID, sessionID := a.sessionID, workDir := a.workDir }
          nodeID := a.nodeID, attemptID := a.id, fencingToken := a.lease.fencingToken }
        match commitDraft W.toEventHost plan d o.bound.fault p s.repo with
        | (.error err, r) => (.error (wrapErr "persist recovered provider binding" err), ⟨p, r⟩)
        | (.ok _, r) =>
          match o.ack with
          | some err => (.error (wrapErr "ack recovered provider outbox" err), ⟨p, r⟩)
          | none => (.ok (some a), ⟨p, r⟩)

/-- The transition of an attempt that is not its own to decide. -/
def closingInput (r : Report) (artifacts : List String) : TransitionInput :=
  { planRevision := plan.revision, attemptID := a.id, leaseToken := a.lease.fencingToken
    event := r.event, result := r.result, failure := r.failure, outputArtifacts := artifacts
    now := now }

def closeAttempt (r : Report) (artifacts : List String)
    (o : Observation) : Except Err (Option NodeAttempt) × Session :=
  let (res, s) := Executor.finishAttempt W.toEventHost plan s a.id
    (closingInput plan now a r artifacts)
    o.clock o.finish
  (res.map some, s)

def childReport (childPlanID outcome : String) : Report :=
  let failed := outcome != "succeeded"
  { event := if failed then "failure" else "success"
    result := {
      outcome := if failed then "failure" else "pass", summary := "nested squad plan completed"
      evidenceIDs := ["child-plan:" ++ childPlanID] }
    failure := if failed then retryableFailure "nested_squad_failed" outcome else none }

def leaseExpiredReport : Report where
  event := "timeout"
  result := {
    outcome := "timeout", summary := "provider lease expired"
    evidenceIDs := ["lease-expired:" ++ a.id] }
  failure := retryableFailure "lease_expired" "provider lease expired"

def observeRun : Except Err (Option NodeAttempt) × Session :=
  let runID := trimSpace a.runID
  match o.snapshot runID with
  | .error err => (.error err, s)
  | .ok snapshot =>
    match snapshot.report W runID with
    | none => (.ok none, s)
    | some r => closeAttempt W plan now s a r (snapshot.marker W).evidence o

/-- One attempt: the attempt that was finished, if one was. -/
def reconcileAttempt : Except Err (Option NodeAttempt) × Session :=
  if a.status != .running then (.ok none, s)
  else if a.childPlanID != "" then
    match o.child s.repo with
    | (.error err, r) => (.error err, { s with repo := r })
    | (.ok (status, outcome), r) =>
      if status == .terminal then
        closeAttempt W plan now { s with repo := r } a (childReport a.childPlanID outcome) [] o
      else (.ok none, { s with repo := r })
  else if a.lease.expiresAt != 0 && a.lease.expiresAt ≤ now then
    closeAttempt W plan now s a (leaseExpiredReport a) [] o
  else if trimSpace a.runID == "" then
    match recoverUnboundAttempt W plan s a o with
    | (.error err, s) => (.error err, s)
    | (.ok none, s) => (.ok none, s)
    | (.ok (some a), s) => observeRun W plan now s a o
  else observeRun W plan now s a o

end

/-- The attempts in the order given, up to the first error. -/
def reconcile (obs : String → Observation) :
    List NodeAttempt → Session → List NodeAttempt × Option Err × Session
  | [], s => ([], none, s)
  | a :: rest, s =>
    match reconcileAttempt W plan now s a (obs a.id) with
    | (.error err, s) => ([], some err, s)
    | (.ok finished, s) =>
      let (more, err, s) := reconcile obs rest s
      (finished.toList ++ more, err, s)

variable {W plan now} {s : Session} {a b : NodeAttempt} {o : Observation} {snapshot : RunSnapshot}
  {runID k : String}

theorem normalizeProviderOutcome_mem (value : String) :
    normalizeProviderOutcome W value ∈ ["bug", "failure", "pass", "timeout", "cancelled", ""] := by
  unfold normalizeProviderOutcome
  simp only
  repeat' split
  all_goals simp

theorem providerOutcome_mem (W : WorkerHost) (output : String) :
    (providerOutcome W output).1 ∈ ["bug", "failure", "pass", "timeout", "cancelled", ""] := by
  unfold providerOutcome
  cases h : (candidateTexts W output).reverse.findSome? (markerOutcome W) with
  | none => simp
  | some found =>
    obtain ⟨text, -, htext⟩ := List.exists_of_findSome?_eq_some h
    unfold markerOutcome at htext
    split at htext
    · cases htext
    · rename_i payload _
      simp only at htext
      split at htext
      · cases htext
      · have hfirst : found.1 = normalizeProviderOutcome W (firstOutcome payload) := by
          rw [← Option.some.inj htext]
        rw [Option.getD_some, hfirst]
        exact normalizeProviderOutcome_mem _

/-- The statuses under which a run counts as completed. -/
def RunSnapshot.completed (W : WorkerHost) (s : RunSnapshot) : Bool :=
  completedStatuses.contains (s.normalStatus W)

theorem completedReport_event {failure : Option FailureReason} :
    (completedReport snapshot runID m usage failure).event = "success" ↔
      m.outcome ≠ "bug" ∧ m.outcome ≠ "failure" := by
  unfold completedReport
  split
  · rename_i h; simp [reported, eq_of_beq h]
  · rename_i hbug
    split
    · rename_i h; simp [reported, eq_of_beq h]
    · rename_i hfailure
      simp only [beq_iff_eq] at hbug hfailure
      exact ⟨fun _ => ⟨hbug, hfailure⟩, fun _ => rfl⟩

theorem report_event_mem (h : snapshot.report W runID = some r) :
    r.event ∈ ["success", "bug", "failure", "timeout", "cancel"] := by
  unfold RunSnapshot.report reportCompleted completedReport at h
  simp only at h
  repeat' split at h
  all_goals cases h
  all_goals simp [reported, missingEvidenceReport]

/-- The missing result does not stop a completed run from being a success. -/
theorem report_success :
    (∃ r, snapshot.report W runID = some r ∧ r.event = "success") ↔
      snapshot.completed W = true ∧ ((providerOutcome W snapshot.output).1 = "" ∨
        hasProviderToolEvidence W snapshot = true ∧
          (providerOutcome W snapshot.output).1 ≠ "bug" ∧
          (providerOutcome W snapshot.output).1 ≠ "failure") := by
  have hmarker : (snapshot.marker W).outcome = (providerOutcome W snapshot.output).1 := rfl
  unfold RunSnapshot.report RunSnapshot.completed
  simp only
  generalize completedStatuses.contains (snapshot.normalStatus W) = completed
  cases completed with
  | true =>
    simp only [if_true]
    unfold reportCompleted
    rw [hmarker]
    split
    · rename_i h
      have hempty := eq_of_beq h
      simp [completedReport_event, hmarker, hempty]
    · rename_i h
      have hsome : (providerOutcome W snapshot.output).1 ≠ "" := by simpa using h
      split
      · rename_i he
        simp only [Bool.not_eq_true'] at he
        simp [missingEvidenceReport, he, hsome]
      · rename_i he
        simp only [Bool.not_eq_true'] at he
        simp [completedReport_event, hmarker, he, hsome]
  | false =>
    simp only [Bool.false_eq_true, if_false, false_and, iff_false]
    rintro ⟨r, hr, hs⟩
    repeat' split at hr
    all_goals cases hr
    all_goals simp [reported] at hs

/-- The run of an attempt, or the one that is started for it. -/
def Observation.runOf (o : Observation) (a : NodeAttempt) : String :=
  if trimSpace a.runID == "" then
    match o.intent with
    | .ok (some b) => trimSpace b.id
    | _ => ""
  else trimSpace a.runID

def ReportsSuccess (W : WorkerHost) (o : Observation) (runID : String) : Prop :=
  ∃ snapshot r, o.snapshot runID = .ok snapshot ∧ snapshot.report W runID = some r ∧
    r.event = "success"

/-- What moves an attempt to passed: its nested plan, or its run's snapshot. -/
def PassedBy (W : WorkerHost) (a : NodeAttempt) (o : Observation) : Prop :=
  a.childPlanID ≠ "" ∨ ReportsSuccess W o (o.runOf a)

/-- Every passed attempt of the second projection was one of the first, or is
the attempt with the key `k`, for the reason given. -/
def OnlyPasses (p q : PlanProjection) (k : String) (reason : Prop) : Prop :=
  ∀ (k' : String) (b : NodeAttempt), q.attempts[k']? = some b → b.status = .passed →
    p.attempts[k']? = some b ∨ k' = k ∧ reason

theorem OnlyPasses.refl : OnlyPasses p p k reason :=
  fun _ _ hb _ => .inl hb

theorem OnlyPasses.insert (h : q.attempts = p.attempts.insert k b)
    (hb : b.status = .passed → reason) : OnlyPasses p q k reason := by
  intro k' c hc hpass
  rw [h, GoMap.get_set] at hc
  split at hc
  · rename_i hk
    obtain rfl := Option.some.inj hc
    exact .inr ⟨hk.symm, hb hpass⟩
  · exact .inl hc

theorem OnlyPasses.mono (h : OnlyPasses p q k reason) (himp : reason → reason') :
    OnlyPasses p q k reason' :=
  fun k' b hb hpass => (h k' b hb hpass).imp_right fun ⟨hk, hr⟩ => ⟨hk, himp hr⟩

theorem closeAttempt_passes (hreason : eventStatus r.event = some .passed → reason) :
    OnlyPasses s.projection (closeAttempt W plan now s a r artifacts o).2.projection
      a.id reason := by
  rcases Executor.finishAttempt_attempts W.toEventHost plan s a.id
    (closingInput plan now a r artifacts) o.clock o.finish rfl with h | ⟨b, h, hstatus⟩
  · intro k' c hc _
    exact .inl (by rw [← h]; exact hc)
  · exact OnlyPasses.insert h fun hb => hreason (hb ▸ hstatus)

theorem observeRun_passes :
    OnlyPasses s.projection (observeRun W plan now s a o).2.projection a.id
      (ReportsSuccess W o (trimSpace a.runID)) := by
  unfold observeRun
  simp only
  split
  · exact .refl
  · rename_i snapshot hsnap
    split
    · exact .refl
    · rename_i r hr
      refine closeAttempt_passes fun hpassed => ⟨snapshot, r, hsnap, hr, ?_⟩
      have hmem := report_event_mem hr
      simp only [List.mem_cons, List.not_mem_nil, or_false] at hmem
      rcases hmem with h | h | h | h | h
      · exact h
      all_goals rw [h] at hpassed; simp [eventStatus] at hpassed

theorem recoverUnboundAttempt_passes (W : WorkerHost) (plan : RequirementExecutionPlan)
    (s : Session) (o : Observation) (reason : Prop) (hrun : a.status = .running)
    (hunbound : (trimSpace a.runID == "") = true) :
    OnlyPasses s.projection (recoverUnboundAttempt W plan s a o).2.projection a.id reason ∧
      ∀ b, (recoverUnboundAttempt W plan s a o).1 = .ok (some b) →
        b.id = a.id ∧ trimSpace b.runID = o.runOf a := by
  unfold recoverUnboundAttempt
  split
  · exact ⟨.refl, by simp⟩
  · split
    · exact ⟨.refl, by simp⟩
    · exact ⟨.refl, by simp⟩
    · split
      · exact ⟨.refl, by simp⟩
      · rename_i binding hintent _
        have hbound (q : PlanProjection) (h : q.attempts = s.projection.attempts.insert a.id
            { a with
              runID := binding.id, sessionID := binding.sessionID, workDir := binding.workDir }) :
            OnlyPasses s.projection q a.id reason :=
          OnlyPasses.insert h fun hpass => by simp [hrun] at hpass
        simp only
        split
        · exact ⟨hbound _ rfl, by simp⟩
        · split
          · exact ⟨hbound _ rfl, by simp⟩
          · refine ⟨hbound _ rfl, fun b hb => ?_⟩
            cases hb
            refine ⟨rfl, ?_⟩
            rw [Observation.runOf, if_pos hunbound, hintent]

theorem OnlyPasses.trans {r : PlanProjection} (h : OnlyPasses p q k reason)
    (h' : OnlyPasses q r k reason) : OnlyPasses p r k reason := by
  intro k' b hb hpass
  rcases h' k' b hb hpass with hq | hk
  · exact h k' b hq hpass
  · exact .inr hk

theorem reconcileAttempt_passes (W : WorkerHost) (plan : RequirementExecutionPlan) (now : Time)
    (s : Session) (a : NodeAttempt) (o : Observation) :
    OnlyPasses s.projection (reconcileAttempt W plan now s a o).2.projection a.id
      (PassedBy W a o) := by
  unfold reconcileAttempt
  split
  · exact .refl
  · rename_i hrun
    have hrunning : a.status = .running := by simpa using hrun
    split
    · rename_i hchild
      have hnested : PassedBy W a o := .inl (by simpa using hchild)
      split
      · exact .refl
      · split
        · exact closeAttempt_passes fun _ => hnested
        · exact .refl
    · split
      · refine closeAttempt_passes fun hpassed => ?_
        simp [leaseExpiredReport, eventStatus] at hpassed
      · split
        · rename_i hunbound
          obtain ⟨hrec, hsame⟩ :=
            recoverUnboundAttempt_passes W plan s o (PassedBy W a o) hrunning hunbound
          generalize recoverUnboundAttempt W plan s a o = reply at hrec hsame
          obtain ⟨res, s'⟩ := reply
          split
          · rename_i h; cases h; exact hrec
          · rename_i h; cases h; exact hrec
          · rename_i b _ h
            cases h
            obtain ⟨hid, hrunID⟩ := hsame b rfl
            refine hrec.trans ?_
            rw [← hid]
            exact observeRun_passes.mono fun h => .inr (hrunID ▸ h)
        · rename_i hbound
          refine observeRun_passes.mono fun h => .inr ?_
          rw [Observation.runOf, if_neg hbound]
          exact h

/-- A whole pass moves an attempt only for the reason one of its steps has. -/
theorem reconcile_passes (obs : String → Observation) (order : List NodeAttempt) (s : Session)
    (k : String) (b : NodeAttempt)
    (hb : (reconcile W plan now obs order s).2.2.projection.attempts[k]? = some b)
    (hpass : b.status = .passed) :
    s.projection.attempts[k]? = some b ∨ ∃ a ∈ order, a.id = k ∧ PassedBy W a (obs a.id) := by
  induction order generalizing s with
  | nil => exact .inl hb
  | cons a rest ih =>
    have hstep := reconcileAttempt_passes W plan now s a (obs a.id)
    simp only [reconcile] at hb
    generalize reconcileAttempt W plan now s a (obs a.id) = reply at hstep hb
    obtain ⟨res, s'⟩ := reply
    have hhead : s'.projection.attempts[k]? = some b →
        s.projection.attempts[k]? = some b ∨ ∃ c ∈ a :: rest, c.id = k ∧
        PassedBy W c (obs c.id) := by
      intro h
      rcases hstep k b h hpass with hkept | ⟨rfl, hreason⟩
      · exact .inl hkept
      · exact .inr ⟨a, List.mem_cons_self, rfl, hreason⟩
    cases res with
    | error err => exact hhead hb
    | ok finished =>
      rcases ih s' hb with h | ⟨c, hc, hid, hreason⟩
      · exact hhead h
      · exact .inr ⟨c, List.mem_cons_of_mem _ hc, hid, hreason⟩

/-- When a pass moves a running attempt without a nested plan to passed, its run
had completed; and it had reported a pass and shown its tool calls exactly when
the outcome of its output is not missing, a timeout or a cancellation. -/
theorem provider_success_gate (W : WorkerHost) (plan : RequirementExecutionPlan) (now : Time)
    (obs : String → Observation) (order : List NodeAttempt) (s : Session) (k : String)
    (a b : NodeAttempt)
    (hkeyed : ∀ (k : String) (c : NodeAttempt), s.projection.attempts[k]? = some c → c.id = k)
    (horder : order.Perm (s.projection.attempts.toList.map Prod.snd))
    (hstored : s.projection.attempts[k]? = some a) (hrun : a.status = .running)
    (hchild : a.childPlanID = "")
    (hafter : (reconcile W plan now obs order s).2.2.projection.attempts[k]? = some b)
    (hpassed : b.status = .passed) :
    ∃ snapshot, (obs k).snapshot ((obs k).runOf a) = .ok snapshot ∧
      snapshot.completed W = true ∧
      ((providerOutcome W snapshot.output).1 = "pass" ∧ hasProviderToolEvidence W snapshot = true ↔
        (providerOutcome W snapshot.output).1 ∉ ["", "timeout", "cancelled"]) := by
  rcases reconcile_passes obs order s k b hafter hpassed with h | ⟨c, hc, hid, hreason⟩
  · rw [hstored] at h
    rw [← Option.some.inj h, hrun] at hpassed
    cases hpassed
  · -- The attempt the pass looked at one, because keys are ids.
    obtain ⟨e, he, rfl⟩ := List.mem_map.mp (horder.subset hc)
    have hentry := GoMap.mem_entries.mp he
    rw [← hkeyed e.1 e.2 hentry, hid, hstored] at hentry
    obtain rfl := Option.some.inj hentry
    rw [hid] at hreason
    rcases hreason with hnested | ⟨snapshot, r, hsnap, hr, hevent⟩
    · exact absurd hchild hnested
    · obtain ⟨hcompleted, hsuccess⟩ := report_success.mp ⟨r, hr, hevent⟩
      refine ⟨snapshot, hsnap, hcompleted, ?_⟩
      have hmem := providerOutcome_mem W snapshot.output
      generalize (providerOutcome W snapshot.output).1 = outcome at hsuccess hmem
      simp only [List.mem_cons, List.not_mem_nil, or_false] at hmem
      rcases hmem with rfl | rfl | rfl | rfl | rfl | rfl <;> simp_all

def sampleWorker : WorkerHost where
  toEventHost := sampleLog
  lower := Char.toLower

def singlePlan : RequirementExecutionPlan :=
  { samplePlan {
      id := "graph", version := 1, nodes := [agentNode "x"], entryNodeIDs := ["x"]
      exitNodeIDs := ["x"] } with
    workspaceID := "workspace", requirementID := "requirement" }

def boundSession : Session :=
  let p := sampleRun singlePlan [startCall "x" "a"]
  let a := { (p.attempts["a"]?).getD {} with runID := "run" }
  { projection := { p with attempts := p.attempts.insert "a" a }
    repo := (MemoryRepository.createPlan sampleLog {} singlePlan none).2 }

def observes (snapshot : RunSnapshot) : Observation where
  child := fun r => (.error (errorNew "no child"), r)
  intent := .ok none
  bound := { origin := { id := "bound" } }
  ack := none
  snapshot := fun _ => .ok snapshot
  finish := { origin := { id := "finish" } }
  clock := 5

def attemptAfter (snapshot : RunSnapshot) : Option NodeAttempt :=
  (reconcile sampleWorker singlePlan 5 (fun _ => observes snapshot)
    (boundSession.projection.attempts.toList.map Prod.snd)
    boundSession).2.2.projection.attempts["a"]?

/-- A completed run without output and without tool calls passes its attempt. -/
theorem empty_output_passes :
    boundSession.projection.attempts["a"]?.map (fun a => (a.status, a.childPlanID)) =
      some (.running, "") ∧
    (attemptAfter { status := "completed" }).map NodeAttempt.status = some .passed ∧
    (providerOutcome sampleWorker "").1 = "" ∧
    hasProviderToolEvidence sampleWorker { status := "completed" } = false := by
  decide +kernel

def provenSnapshot : RunSnapshot where
  status := "completed"
  output := "ADRO_RESULT_JSON=\x7b\"outcome\":\"pass\"\x7d"
  toolEvents := [{ callID := "1", phase := "before" }, { callID := "1", phase := "after" }]

theorem provider_success_gate_proven :
    ∃ a b, boundSession.projection.attempts["a"]? = some a ∧
      attemptAfter provenSnapshot = some b ∧ b.status = .passed ∧
      ∃ snapshot, (observes provenSnapshot).snapshot ((observes provenSnapshot).runOf a) =
          .ok snapshot ∧
        snapshot.completed sampleWorker = true ∧
        ((providerOutcome sampleWorker snapshot.output).1 = "pass" ∧
            hasProviderToolEvidence sampleWorker snapshot = true ↔
          (providerOutcome sampleWorker snapshot.output).1 ∉ ["", "timeout", "cancelled"]) := by
  obtain ⟨a, ha, hshape⟩ := Option.map_eq_some_iff.mp (show
    boundSession.projection.attempts["a"]?.map (fun a => (a.status, a.childPlanID)) =
      some (.running, "") by decide +kernel)
  obtain ⟨hrun, hchild⟩ := Prod.mk.inj hshape
  obtain ⟨b, hb, hpassed⟩ := Option.map_eq_some_iff.mp (show
    (attemptAfter provenSnapshot).map NodeAttempt.status = some .passed by decide +kernel)
  have hkeyed : boundSession.projection.attempts.all (fun k c => c.id == k) = true := by
    decide +kernel
  exact ⟨a, b, ha, hb, hpassed, provider_success_gate sampleWorker singlePlan 5
    (fun _ => observes provenSnapshot) _ boundSession "a" a b
    (fun k c hc => by simpa using GoMap.all_iff.mp hkeyed k c hc)
      (.refl _) ha hrun hchild hb hpassed⟩

end Adro.Orchestration
