import Adro.Pipeline.Engine

/-!
# What a completed run has been through

The results that `Apply` has accepted, beside the run. A run completes only on
evidence gathered after the development result it is based on: the stages have to
be passed one after the other, and every way back leads through development.
-/

namespace Adro.Pipeline

open Adro.Go Adro.Runs

/-- Results that pass the tests, one behind the other. -/
def Trail : List (Result → Prop) → List Result → Prop
  | [], _ => True
  | q :: qs, results => ∃ pre x post, results = pre ++ x :: post ∧ q x ∧ Trail qs post

def Result.passes (stage : Stage) (x : Result) : Prop := x.stage = stage ∧ x.outcome = "pass"

def Result.tested (threshold : F64) (x : Result) : Prop :=
  x.passes .unitTest ∧ threshold.le x.coverage = true

def Result.reported (x : Result) : Prop := x.passes .report ∧ blank x.report = false

/-- The trail begins after the last development result that passed. -/
def Fresh (qs : List (Result → Prop)) (results : List Result) : Prop :=
  ∃ pre dev post, results = pre ++ dev :: post ∧ dev.passes .development ∧
    (∀ x ∈ post, ¬ x.passes .development) ∧ Trail qs post

/-- What a run has been through when it is in a stage. -/
def Run.required (run : Run) : Stage → List (Result → Prop)
  | .integration => [Result.tested run.coverageThreshold]
  | .revalidation => [Result.tested run.coverageThreshold, Result.passes .integration]
  | .report => [Result.tested run.coverageThreshold, Result.passes .integration] ++
    if 0 < run.retryCount then [Result.passes .revalidation] else []
  | _ => []

variable {q : Result → Prop} {results : List Result} {x : Result} {run : Run} {now : Time}

theorem Trail.append (h : Trail qs results) (more : List Result) : Trail qs (results ++ more) := by
  induction qs generalizing results with
  | nil => trivial
  | cons q qs ih =>
    obtain ⟨pre, y, post, rfl, hq, hrest⟩ := h
    exact ⟨pre, y, post ++ more, by simp, hq, ih hrest⟩

theorem Trail.step (h : Trail qs results) (hq : q x) : Trail (qs ++ [q]) (results ++ [x]) := by
  induction qs generalizing results with
  | nil => exact ⟨results, x, [], rfl, hq, trivial⟩
  | cons q qs ih =>
    obtain ⟨pre, y, post, rfl, hy, hrest⟩ := h
    exact ⟨pre, y, post ++ [x], by simp, hy, ih hrest⟩

theorem Fresh.keep (h : Fresh qs results) (hx : x.stage ≠ .development) :
    Fresh qs (results ++ [x]) := by
  obtain ⟨pre, dev, post, rfl, hdev, hlast, htrail⟩ := h
  refine ⟨pre, dev, post ++ [x], by simp, hdev, ?_, htrail.append [x]⟩
  simpa [or_imp, forall_and, Result.passes, hx] using hlast

theorem Fresh.step (h : Fresh qs results) (hx : x.stage ≠ .development) (hq : q x) :
    Fresh (qs ++ [q]) (results ++ [x]) := by
  obtain ⟨pre, dev, post, rfl, hdev, hlast, htrail⟩ := h
  refine ⟨pre, dev, post ++ [x], by simp, hdev, ?_, htrail.step hq⟩
  simpa [or_imp, forall_and, Result.passes, hx] using hlast

theorem Fresh.start (hx : x.passes .development) : Fresh [] (results ++ [x]) :=
  ⟨results, x, [], rfl, hx, by simp, trivial⟩

theorem le_of_not_lt {a b : F64} (ha : a ≠ .nan) (hb : b ≠ .nan) (h : a.lt b = false) :
    b.le a = true := by
  cases a with
  | finite q =>
    cases b with
    | finite r =>
      have hle : r ≤ q := Rat.not_lt.mp (by simpa [F64.lt] using h)
      by_cases heq : r = q
      · simp [F64.le, F64.eq, heq]
      · simp [F64.le, F64.lt, Rat.lt_of_le_of_ne hle heq]
    | inf negative => simp_all [F64.le, F64.lt]
    | nan => exact absurd rfl hb
  | inf negative => cases b <;> cases negative <;> simp_all [F64.le, F64.lt, F64.eq]
  | nan => exact absurd rfl ha

/-- A run, and the results it has accepted in their order. -/
abbrev Progress := Run × List Result

def submit (s : Progress) (x : Result × Time) : Progress :=
  match s.1.apply x.1 x.2 with
  | .ok run => (run, s.2 ++ [x.1])
  | .error _ => s

def Run.numbered (run : Run) : Prop :=
  run.history.map (·.sequence) = List.range' 1 run.history.length

def Stage.tests : Stage → Bool
  | .unitTest | .integration | .revalidation | .report => true
  | _ => false

structure Sound (s : Progress) : Prop where
  threshold : s.1.coverageThreshold ≠ .nan
  fresh : s.1.stage.tests = true → Fresh (s.1.required s.1.stage) s.2
  done : s.1.status = .completed → Fresh (s.1.required .report ++ [Result.reported]) s.2
  session : ∀ x ∈ s.2, x.stage = .development → s.1.parentSessionID ≠ "" ∧
    x.providerSessionID = s.1.parentSessionID ∧ x.providerWorkDir = s.1.providerWorkDir
  numbered : s.1.numbered

/-- What `pinned` leaves alone and what it makes sure of. -/
structure Pins (run : Run) (x : Result) (p : Run) : Prop where
  rest : p = { run with parentSessionID := p.parentSessionID, providerWorkDir := p.providerWorkDir }
  kept : run.parentSessionID ≠ "" ∨ run.stage ≠ .development →
    p.parentSessionID = run.parentSessionID ∧ p.providerWorkDir = run.providerWorkDir
  made : run.stage = .development → p.parentSessionID ≠ "" ∧
    x.providerSessionID = p.parentSessionID ∧ x.providerWorkDir = p.providerWorkDir

theorem pinned_ok (h : run.pinned x = .ok p) : Pins run x p := by
  unfold Run.pinned at h
  split at h
  case isFalse hstage =>
    obtain rfl : run = p := by simpa using h
    exact ⟨rfl, fun _ => ⟨rfl, rfl⟩, fun hdev => absurd (by simp [hdev]) hstage⟩
  case isTrue hstage =>
    obtain ⟨hsession, -, h⟩ := then_ok.mp h |>.imp ensure_ok.mp then_ok.mp
    split at h
    case isTrue hparent =>
      obtain rfl := Except.ok.inj h
      refine ⟨rfl, fun hkept => ?_, fun _ => ⟨?_, rfl, rfl⟩⟩
      · simp_all
      · rintro (hempty : x.providerSessionID = "")
        rw [hempty] at hsession
        exact absurd hsession (by decide)
    case isFalse hparent =>
      obtain ⟨hsame, h⟩ := then_ok.mp h
      obtain rfl := Except.ok.inj h
      have hsame := ensure_ok.mp hsame
      simp only [Bool.and_eq_true, beq_iff_eq] at hsame
      exact ⟨rfl, fun _ => ⟨rfl, rfl⟩, fun _ => ⟨by simpa using hparent, hsame⟩⟩

/-- `Apply` in its parts. -/
theorem apply_ok (h : run.apply x now = .ok run') :
    x.stage = run.stage ∧ ∃ p next status reason,
      Pins { run with context := run.context.merged x } x p ∧
      (p.counted x).nextStage x = .ok (next, status, reason) ∧
      run' = (p.counted x).advanced x next status reason now := by
  obtain ⟨-, hstage, h⟩ := then_ok.mp h |>.imp id then_ok.mp
  obtain ⟨-, -, h⟩ := then_ok.mp h |>.imp id then_ok.mp
  obtain ⟨p, hp, h⟩ := bind_ok.mp h
  obtain ⟨⟨next, status, reason⟩, hnext, h⟩ := bind_ok.mp h
  exact ⟨by simpa [ensure_ok] using hstage, p, next, status, reason, pinned_ok hp, hnext,
    (Except.ok.inj h).symm⟩

/-- Comparisons with a NaN are all false, so that one is not below any threshold. -/
def Result.comparable (x : Result) : Prop := x.stage = .unitTest → x.coverage ≠ .nan

instance (x : Result) : Decidable x.comparable :=
  inferInstanceAs (Decidable (_ → _))

/-- The edges of the machine, with the evidence that the forward ones ask for. -/
inductive Goes (run : Run) (x : Result) : Stage → Status → Prop
  | back {next status} : next.tests = false → status ≠ .completed → Goes run x next status
  | stay {status} : run.stage ≠ .development → status ≠ .completed → Goes run x run.stage status
  | developed : run.stage = .development → x.outcome = "pass" → Goes run x .unitTest .running
  | tested : run.stage = .unitTest → x.outcome = "pass" →
    x.coverage.lt run.coverageThreshold = false → Goes run x .integration .running
  | repaired : run.stage = .integration → x.outcome = "pass" → Goes run x .revalidation .running
  | integrated : run.stage = .integration → x.outcome = "pass" → ¬ 0 < run.retryCount →
    Goes run x .report .running
  | revalidated : run.stage = .revalidation → x.outcome = "pass" → Goes run x .report .running
  | reported : run.stage = .report → x.outcome = "pass" → blank x.report = false →
    Goes run x .report .completed

theorem nextStage_goes
    (h : run.nextStage x = .ok (next, status, reason)) : Goes run x next status := by
  unfold Run.nextStage at h
  cases hstage : run.stage with
  | design =>
    simp only [hstage] at h
    repeat' split at h
    all_goals cases h
    all_goals exact .back rfl nofun
  | development =>
    simp only [hstage] at h
    split at h
    · split at h <;> cases h <;> exact .back rfl nofun
    · split at h <;> cases h
      exact .developed hstage (by simp_all)
  | unitTest =>
    simp only [hstage] at h
    split at h
    · split at h <;> cases h <;> exact hstage ▸ .stay (by simp [hstage]) nofun
    · cases h
      exact .tested hstage (by simp_all) (by simp_all)
  | integration =>
    simp only [hstage] at h
    split at h
    · cases h; exact .back rfl nofun
    · split at h <;> cases h
      · exact .repaired hstage (by simp_all)
      · exact .integrated hstage (by simp_all) ‹_›
  | arbitration =>
    simp only [hstage] at h
    repeat' split at h
    all_goals cases h
    all_goals exact .back rfl nofun
  | revalidation =>
    simp only [hstage] at h
    split at h <;> cases h
    · exact .back rfl nofun
    · exact .revalidated hstage (by simp_all)
  | report =>
    simp only [hstage] at h
    split at h
    · cases h; exact hstage ▸ .stay (by simp [hstage]) nofun
    · split at h <;> cases h
      exact .reported hstage (by simp_all) (by simp_all)
  | other n => simp [hstage] at h

theorem Goes.fresh (h : Goes run x next status)
    (hx : x.stage = run.stage) (hthreshold : run.coverageThreshold ≠ .nan)
    (hcoverage : x.comparable)
    (hfresh : run.stage.tests = true → Fresh (run.required run.stage) results) :
    (next.tests = true → Fresh (run.required next) (results ++ [x])) ∧
      (status = .completed → Fresh (run.required .report ++ [Result.reported])
        (results ++ [x])) := by
  cases h with
  | back hnext hstatus => exact ⟨fun h => absurd h (by simp [hnext]), fun h => absurd h hstatus⟩
  | stay hstage hstatus =>
    exact ⟨fun htests => (hfresh htests).keep (hx ▸ hstage), fun h => absurd h hstatus⟩
  | developed hstage hpass =>
    exact ⟨fun _ => Fresh.start ⟨hx.trans hstage, hpass⟩, nofun⟩
  | tested hstage hpass hlow =>
    rw [hstage] at hx hfresh
    exact ⟨fun _ => (hfresh rfl).step (by simp [hx])
      ⟨⟨hx, hpass⟩, le_of_not_lt (hcoverage hx) hthreshold hlow⟩,
      nofun⟩
  | repaired hstage hpass =>
    rw [hstage] at hx hfresh
    exact ⟨fun _ => (hfresh rfl).step (by simp [hx]) ⟨hx, hpass⟩, nofun⟩
  | integrated hstage hpass hretry =>
    rw [hstage] at hx hfresh
    refine ⟨fun _ => ?_, nofun⟩
    simpa [Run.required, hretry] using (hfresh rfl).step (by simp [hx]) ⟨hx, hpass⟩
  | revalidated hstage hpass =>
    rw [hstage] at hx hfresh
    refine ⟨fun _ => ?_, nofun⟩
    have hne : x.stage ≠ .development := by simp [hx]
    by_cases hretry : 0 < run.retryCount
    · simpa [Run.required, hretry] using (hfresh rfl).step hne ⟨hx, hpass⟩
    · simpa [Run.required, hretry] using (hfresh rfl).keep hne
  | reported hstage hpass hreport =>
    rw [hstage] at hx hfresh
    have hne : x.stage ≠ .development := by simp [hx]
    exact ⟨fun _ => (hfresh rfl).keep hne, fun _ => (hfresh rfl).step hne ⟨⟨hx, hpass⟩, hreport⟩⟩

theorem required_congr {r r' : Run} (hthreshold : r.coverageThreshold = r'.coverageThreshold)
    (hretry : r.retryCount = r'.retryCount) (stage : Stage) :
    r.required stage = r'.required stage := by
  unfold Run.required
  rw [hthreshold, hretry]

/-- Repairs are counted outside the stages that lie behind a development result. -/
theorem counted_retryCount (h : run.stage.tests = true) :
    (run.counted x).retryCount = run.retryCount := by
  cases hstage : run.stage <;> simp_all [Run.counted, Stage.tests]

theorem Sound.step (h : Sound s) (ha : a.1.comparable) :
    Sound (submit s a) := by
  unfold submit
  cases happly : s.1.apply a.1 a.2 with
  | error e => exact h
  | ok run' =>
    obtain ⟨hx, p, next, status, reason, hpins, hnext, rfl⟩ := apply_ok happly
    have hp := hpins.rest
    have hthreshold : p.coverageThreshold = s.1.coverageThreshold := by rw [hp]
    have hretry : p.retryCount = s.1.retryCount := by rw [hp]
    have hstage : p.stage = s.1.stage := by rw [hp]
    have hhistory : p.history = s.1.history := by rw [hp]
    have hfresh : (p.counted a.1).stage.tests = true →
        Fresh ((p.counted a.1).required (p.counted a.1).stage) s.2 := by
      intro (htests : p.stage.tests = true)
      have hsame : (p.counted a.1).required p.stage = s.1.required p.stage :=
        required_congr (r := p.counted a.1) hthreshold
          ((counted_retryCount htests).trans hretry) p.stage
      exact hsame ▸ hstage ▸ h.fresh (hstage ▸ htests)
    obtain ⟨hstay, hdone⟩ := (nextStage_goes hnext).fresh (hx.trans hstage.symm)
      (hthreshold ▸ h.threshold) ha hfresh
    refine ⟨hthreshold ▸ h.threshold, hstay, hdone, ?_, ?_⟩
    · intro x hmem hdev
      rcases List.mem_append.mp hmem with hold | hnew
      · obtain ⟨hne, hsession, hdir⟩ := h.session x hold hdev
        obtain ⟨hparent, hkept⟩ := hpins.kept (.inl hne)
        exact ⟨hparent ▸ hne, hsession.trans hparent.symm, hdir.trans hkept.symm⟩
      · obtain rfl := List.mem_singleton.mp hnew
        exact hpins.made (hx.symm.trans hdev)
    · have hnumbered := h.numbered
      rw [Run.numbered, ← hhistory] at hnumbered
      simp [Run.numbered, Run.advanced, Run.counted, hnumbered, List.range'_1_concat, Nat.add_comm]

/-- A run that starts before its tests, unfinished and with a numbered history. -/
def Run.begins (given : Run) : Prop :=
  given.stage.tests = false ∧ given.status ≠ .completed ∧ given.numbered ∧
    given.coverageThreshold ≠ .nan

theorem Sound.create
    (h : createPipeline pipelines newID newSession now given = .ok run) (hgiven : given.begins) :
    Sound (run, []) := by
  obtain ⟨hstage, hstatus, hnumbered, hthreshold⟩ := hgiven
  obtain ⟨-, -, h⟩ := then_ok.mp h |>.imp id then_ok.mp
  obtain ⟨-, h⟩ := then_ok.mp h
  obtain rfl := Except.ok.inj h
  refine ⟨?_, ?_, ?_, by simp, hnumbered⟩
  · simp only [Run.completed]
    split
    · simp
    · exact hthreshold
  · intro htests
    simp only [Run.completed] at htests
    split at htests
    · cases htests
    · simp [hstage] at htests
  · intro hdone
    simp only [Run.completed] at hdone
    split at hdone
    · cases hdone
    · exact absurd hdone hstatus

/-- A run completes on a development result, tests with enough coverage behind it,
then an integration, after repairs a revalidation, and a report; the development
results share a session and a directory. -/
theorem completed_on_fresh_evidence {pipelines : List Run} {newID newSession : String}
    {given created : Run} (hcreate : createPipeline pipelines newID newSession now given =
      .ok created)
    (hgiven : given.begins) (results : List (Result × Time))
    (hmeets : Meets submit (fun _ a => a.1.comparable) (created, []) results) :
    let s := exec submit (created, []) results
    (s.1.status = .completed →
      Fresh ([Result.tested s.1.coverageThreshold, Result.passes .integration] ++
        (if 0 < s.1.retryCount then [Result.passes .revalidation] else []) ++
          [Result.reported]) s.2) ∧
    (∀ x ∈ s.2, ∀ y ∈ s.2, x.stage = .development → y.stage = .development →
      x.providerSessionID = y.providerSessionID ∧ x.providerWorkDir = y.providerWorkDir) ∧
    s.1.history.map (·.sequence) = List.range' 1 s.1.history.length := by
  intro s
  have hs : Sound s := invariant (Sound.create hcreate hgiven) (fun _ _ h ha => h.step ha) hmeets
  refine ⟨hs.done, fun x hx y hy hxdev hydev => ?_, hs.numbered⟩
  obtain ⟨-, hxsession, hxdir⟩ := hs.session x hx hxdev
  obtain ⟨-, hysession, hydir⟩ := hs.session y hy hydev
  exact ⟨hxsession.trans hysession.symm, hxdir.trans hydir.symm⟩

def sampleRun : Run where
  workspaceID := "w"
  requirementID := "q"
  roles := ⟨"designer", "developer", "tester", "arbitrator"⟩

def sampleResults : List (Result × Time) :=
  [({ stage := .design, agentID := "designer", outcome := "pass", designDoc := "d" }, 1),
    ({ stage := .development, agentID := "developer", outcome := "fail",
       providerSessionID := "s", providerWorkDir := "/w" }, 2),
    ({ stage := .development, agentID := "developer", outcome := "pass", codeVersion := "c",
       providerSessionID := "s", providerWorkDir := "/w" }, 3),
    ({ stage := .unitTest, agentID := "tester", outcome := "pass", coverage := .finite 90 }, 4),
    ({ stage := .integration, agentID := "tester", outcome := "pass" }, 5),
    ({ stage := .revalidation, agentID := "tester", outcome := "pass" }, 6),
    ({ stage := .report, agentID := "tester", outcome := "pass", report := "r" }, 7)]

/-- What `createPipeline` makes of the sample. -/
def sampleCreated : Run :=
  { sampleRun.completed "p" "s" with version := 1, activeAgentID := "designer" }

theorem repaired_run_completes :
    (exec submit (sampleCreated, []) sampleResults).1.status = .completed ∧
    Fresh ([Result.tested (.finite 80), Result.passes .integration] ++
      [Result.passes .revalidation] ++
      [Result.reported]) (exec submit (sampleCreated, []) sampleResults).2 := by
  have hdone : (exec submit (sampleCreated, []) sampleResults).1.status = .completed ∧
      (exec submit (sampleCreated, []) sampleResults).1.retryCount = 1 ∧
      (exec submit (sampleCreated, []) sampleResults).1.coverageThreshold = .finite 80 := by
    decide +kernel
  have hcreate : createPipeline [] "p" "s" 0 sampleRun = .ok sampleCreated := by rfl
  have h := (completed_on_fresh_evidence hcreate
    ⟨by decide, by decide, by rfl, by decide⟩ sampleResults (by decide +kernel)).1 hdone.1
  rw [hdone.2.1, hdone.2.2] at h
  exact ⟨hdone.1, h⟩

/-- `CreatePipeline` keeps the stage it is given. A run created for its report
completes on the report alone. -/
theorem report_alone_completes :
    ∃ created, createPipeline [] "p" "s" 0 { sampleRun with stage := .report } = .ok created ∧
      (exec submit (created, []) (sampleResults.drop 6)).1.status = .completed ∧
      ∀ x ∈ (exec submit (created, []) (sampleResults.drop 6)).2, x.stage = .report :=
  ⟨_, rfl, by decide +kernel⟩

end Adro.Pipeline
