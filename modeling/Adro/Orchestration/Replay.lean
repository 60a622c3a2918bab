import Adro.Orchestration.Dispatch
import Adro.Orchestration.Reconcile
import Adro.Orchestration.View

/-!
# Replaying what the executor committed

The log of a plan replays to the stored projection, up to the JSON image of
result fields and the hashes kept under idempotency keys. One commit is the unit:
when the event is new, the key and the attempt id are unused, a binding is
complete and a result reads the same after it went through JSON, the appended
event repeats the change on the replayed projection. A call is a sequence of
commits, and a run a sequence of calls.
-/

namespace Adro.Orchestration

open Adro.Go Adro.Runs

variable {E : EventHost} {plan : RequirementExecutionPlan} {p q : PlanProjection}
  {r : StructuredResult} {state : RepairLifecycle} {keys : GoMap String} {i input : TransitionInput}
  {k child id : String} {live : Time} {b : Binding} {log : List Event}

theorem image_rewrites (E : EventHost) : Rewrites (StructuredResult.image E) where
  empty := by
    rfl
  outcome _ := rfl
  reasonCode _ := rfl
  evidenceIDs _ := rfl

theorem image_stamp (h : (imageFields E.short r.fields).isSome) :
    (stampResult state r).image E = stampResult state (r.image E) := by
  obtain ⟨fields, hf⟩ := Option.isSome_iff_exists.mp h
  unfold stampResult
  split
  · rfl
  · simp only [StructuredResult.image, hf, imageFields_set_str hf, Option.getD_some]

theorem stampResult_twice : stampResult state (stampResult state r) = stampResult state r := by
  unfold stampResult
  split
  · rfl
  · simp only [GoMap.set_set]

theorem stampResult_evidence : (stampResult state r).evidenceIDs = r.evidenceIDs := by
  unfold stampResult
  split <;> rfl

theorem repairReads_stamp : repairReads (stampResult state r) = repairReads r := by
  unfold repairReads repairVerificationNodes
  simp only [stampResult_get (show "repair_state" ≠ "target_node_id" by decide),
    stampResult_get (show "repair_state" ≠ "verification_node_ids" by decide),
    stampResult_get (show "repair_state" ≠ "max_rounds" by decide),
    stampResult_get (show "repair_state" ≠ "source_attempt_ids" by decide),
    stampResult_get (show "repair_state" ≠ "scope" by decide)]

/-- The reducer reads the same from the result and from its image: the usage, a
repair decision, and the predicates of the edges, in every repair state. -/
structure Reads (E : EventHost) (plan : RequirementExecutionPlan) (r : StructuredResult) :
    Prop where
  encodes : (imageFields E.short r.fields).isSome
  usage : resultUsage (r.image E) = resultUsage r
  repair : repairReads (r.image E) = repairReads r
  edges : ∀ state, SameEdges (StructuredResult.image E) plan (stampResult state r)

theorem Reads.of_json
    (h : ∀ (k : String) (v : Value), r.fields[k]? = some v → v.image E.short = some v) :
    Reads E plan r := by
  have hr : imageFields E.short r.fields = some r.fields := imageFields_stable.mpr h
  have himage : r.image E = r := by
    rw [StructuredResult.image, hr]
    rfl
  refine ⟨by rw [hr]; rfl, by rw [himage], by rw [himage], fun state e _ => ?_⟩
  rw [image_stamp (by rw [hr]; rfl), himage]

theorem Reads.usage_stamp (h : Reads E plan r) :
    resultUsage ((stampResult state r).image E) = resultUsage (stampResult state r) := by
  rw [image_stamp h.encodes, resultUsage_stamp, resultUsage_stamp, h.usage]

/-- A start under an unused id and key, a complete binding, or a finish under an
unused key whose result reads the same after it went through JSON. -/
def Change.Ok (E : EventHost) (plan : RequirementExecutionPlan) (p : PlanProjection) :
    Change → Prop
  | .start args => args.input.now ≠ 0 ∧ p.attempts[args.attemptID]? = none ∧
      p.idempotency[args.input.idempotencyKey]? = none
  | .bind _ b => b.id ≠ "" ∧ b.sessionID ≠ "" ∧ b.workDir ≠ ""
  | .finish _ input => input.now ≠ 0 ∧ NewKey p.idempotency input.idempotencyKey ∧
      Reads E plan input.result

/-- A finish of an attempt that is closed, which changes nothing. -/
def Change.Settled (p : PlanProjection) : Change → Prop
  | .finish k _ => ∀ a, p.attempts[k]? = some a → a.status ≠ .running ∧ a.status ≠ .waiting
  | _ => False

/-- The digest of the payload that the event of a draft has. -/
def Draft.digest (E : EventHost) (d : Draft) : String :=
  E.payloadDigest (some { d.payload with result := d.payload.result.image E })

/-- When the log has an event with the key, the new one conflicts with it or
repeats a change that has been made. -/
def Commit.Ok (E : EventHost) (plan : RequirementExecutionPlan) (c : Commit) : Prop :=
  match MemoryRepository.keyed c.log c.draft.key with
  | none => c.change.Ok E plan c.stored
  | some old => old.payloadHash ≠ c.draft.digest E ∨ c.change.Settled c.stored

/-- The projection with the nested plan of a started attempt, when there is one. -/
def withChild (a : NodeAttempt) (child : String) (p : PlanProjection) : PlanProjection :=
  if child == "" then p
  else { p with attempts := p.attempts.insert a.id { a with childPlanID := child } }

def Binding.enter (b : Binding) (a : NodeAttempt) : NodeAttempt :=
  { a with runID := b.id, sessionID := b.sessionID, workDir := b.workDir }

/-- The draft records the change, which takes `p` to the last projection. -/
inductive Applies (E : EventHost) (plan : RequirementExecutionPlan) (p : PlanProjection) :
    Change → Draft → PlanProjection → Prop
  | start {args : StartArgs} {a : NodeAttempt} {q : PlanProjection} {d : Draft} {clock : Time}
    {child : String} (call : startAttempt E.toHost plan p args clock = (.ok a, q))
    (input : args.input = {
      planRevision := plan.revision, leaseToken := args.lease.fencingToken
      idempotencyKey := d.key, payloadHash := args.input.payloadHash, now := args.input.now })
    (type : d.type = "attempt.started")
    (payload : d.payload = {
      nodeID := args.nodeID, attemptID := args.attemptID, attemptNo := args.attemptNo
      lease := args.lease, context := args.envelope
      dispatchPayloadHash := args.input.payloadHash, startedAt := args.input.now
      childPlanID := child })
    (scope : d.nodeID = "" ∨ d.nodeID = args.nodeID) :
    Applies E plan p (.start args) d (withChild a child q)
  | bind {a : NodeAttempt} {b : Binding} {d : Draft} {k : String} (nonempty : k ≠ "")
    (stored : p.attempts[k]? = some a) (running : a.status = .running)
    (type : d.type = "attempt.bound")
    (payload : d.payload = {
      attemptID := k, runID := b.id, sessionID := b.sessionID, workDir := b.workDir
      childPlanID := a.childPlanID })
    (node : d.nodeID = a.nodeID) (attempt : d.attemptID = k)
    (token : d.fencingToken = a.lease.fencingToken) :
    Applies E plan p (.bind a b) d { p with attempts := p.attempts.insert k (b.enter a) }
  | finish {k : String} {i : TransitionInput} {a : NodeAttempt} {q : PlanProjection} {d : Draft}
    {clock : Time} {recorded : StructuredResult} {artifacts : List String}
    (call : finishAttempt E.toHost plan p k i clock = (.ok a, q))
    (type : d.type = "attempt.finished")
    (payload : d.payload = {
      attemptID := k, event := i.event, result := recorded, failure := i.failure
      artifactIDs := artifacts, transitionKey := some i.idempotencyKey, transitionAt := i.now })
    (result : recorded = i.result ∨ recorded = a.result)
    (listed : artifacts = i.outputArtifacts ∨ artifacts = a.outputArtifacts)
    (token : d.fencingToken = i.leaseToken) :
    Applies E plan p (.finish k i) d q

/-- What the replayed projection needs of the stored one. -/
structure Replayable (E : EventHost) (plan : RequirementExecutionPlan) (p : PlanProjection)
    (keys : GoMap String) : Prop where
  keys : SameKeys p.idempotency keys
  usage : SameUsage (StructuredResult.image E) p
  revision : p.revision = plan.revision

theorem SameKeys.record (h : SameKeys before keys) (key hash hash' : String) :
    SameKeys (recordKey before key hash) (recordKey keys key hash') := by
  intro k
  unfold recordKey
  split
  · simp only [GoMap.get_set]
    split
    · simp
    · exact h k
  · exact h k

variable {e : Event} {x : Payload} {clock : Time} {args : StartArgs} {a : NodeAttempt} {d : Draft}

theorem TransitionInput.at_now (h : i.now ≠ 0) (clock : Time) : i.at clock = i.now := by
  unfold TransitionInput.at
  rw [if_neg (by simpa using h)]

theorem startAttempt_clock (h : args.input.now ≠ 0) (clock clock' : Time) :
    startAttempt H plan p args clock = startAttempt H plan p args clock' := by
  unfold startAttempt
  rw [TransitionInput.at_now h clock, TransitionInput.at_now h clock']

theorem finishAttempt_clock (h : i.now ≠ 0) (clock clock' : Time) :
    finishAttempt H plan p k i clock = finishAttempt H plan p k i clock' := by
  unfold finishAttempt
  rw [TransitionInput.at_now h clock, TransitionInput.at_now h clock']

/-- A start under an unused id and key: what it returns and what it leaves. -/
theorem startAttempt_new (hid : p.attempts[args.attemptID]? = none)
    (hkey : p.idempotency[args.input.idempotencyKey]? = none)
    (h : startAttempt H plan p args clock = (.ok a, q)) :
    ∃ n no, StartFacts H plan p args (args.input.at clock) n no ∧
      a = newAttempt plan p args n no (args.input.at clock) ∧
      q = started plan p args n no (args.input.at clock) := by
  unfold startAttempt at h
  simp only at h
  split at h
  · cases h
  · exact absurd (by assumption) (startCheck_new hid hkey)
  · rename_i n no hcheck
    rw [startCommit_eq] at h
    cases h
    exact ⟨n, no, startCheck_fresh hcheck, rfl, rfl⟩

/-- Entering the nested plan of a new attempt gives the view of entering it. -/
theorem withChild_view (hf : Rewrites f) (ha : a.result = {}) :
    (if child == "" then .ok (p.view f keys)
      else .ok { p.view f keys with
        attempts := (p.view f keys).attempts.insert a.id { a with childPlanID := child } } :
      Except Err PlanProjection) = .ok ((withChild a child p).view f keys) := by
  have hset : (p.view f keys).attempts.insert a.id { a with childPlanID := child } =
      GoMap.mapValues (NodeAttempt.view f)
        (p.attempts.insert a.id { a with childPlanID := child }) := by
    rw [GoMap.mapValues_set, NodeAttempt.view_new (a := { a with childPlanID := child }) hf ha]
    rfl
  unfold withChild
  rw [hset]
  split <;> rfl

/-- The event takes the replayed projection to the next one. -/
def Retraces (E : EventHost) (plan : RequirementExecutionPlan) (p : PlanProjection)
    (keys : GoMap String) (e : Event) (clock : Time) (q : PlanProjection) : Prop :=
  ∃ keys', replayEvent E plan clock (p.view (StructuredResult.image E) keys) e =
      .ok (q.view (StructuredResult.image E) keys') ∧ Replayable E plan q keys'

theorem started_replay (hgood : Replayable E plan p keys) (hw : d.Writes E plan e)
    (hok : (Change.start args).Ok E plan p) (h : Applies E plan p (.start args) d q)
    (clock : Time) :
    Retraces E plan p keys e clock q := by
  obtain ⟨hnow, hid, hkey⟩ := hok
  obtain @⟨_, a, q, _, live, child, call, input, type, payload, scope⟩ := h
  have hf := image_rewrites E
  obtain ⟨n, no, hfacts, rfl, rfl⟩ := startAttempt_new hid hkey call
  have hne : args.attemptID ≠ "" := ne_empty_of_not_blank hfacts.attemptID
  rw [startAttempt_clock hnow live clock] at call
  have hview := startAttempt_view hf hid hkey ((hgood.keys _).mp hkey) call
  have hx := hw.payload
  rw [payload] at hx
  have hnode : (if args.nodeID == "" then e.nodeID else args.nodeID) = args.nodeID := by
    rw [hw.nodeID]
    split
    · rename_i hblank
      rcases scope with h | h
      · rw [h]; exact (beq_iff_eq.mp hblank).symm
      · exact h
    · rfl
  have hargs : ({
      nodeID := args.nodeID, attemptID := args.attemptID, attemptNo := args.attemptNo
      lease := args.lease, envelope := args.envelope
      input := {
        planRevision := plan.revision, leaseToken := args.lease.fencingToken
        idempotencyKey := e.idempotencyKey, payloadHash := args.input.payloadHash
        now := args.input.now } } : StartArgs) = args := by
    rw [hw.key, ← input]
  refine ⟨recordKey keys args.input.idempotencyKey args.input.payloadHash, ?_, ?_⟩
  · unfold replayEvent
    rw [hw.type.trans type, hx]
    show replayStarted .. = _
    unfold replayStarted
    simp only [hnode, beq_eq_false_iff_ne.mpr hne, beq_eq_false_iff_ne.mpr hnow, Bool.false_eq_true,
      if_false]
    rw [hargs, hview]
    exact withChild_view hf rfl
  · have hempty : resultUsage (StructuredResult.image E {}) = resultUsage {} := by rw [hf.empty]
    have husage : SameUsage (StructuredResult.image E)
        (started plan p args n no (args.input.at live)) := GoMap.forall_set hgood.usage hempty
    unfold withChild
    split
    · exact ⟨hgood.keys.record _ _ _, husage, hgood.revision⟩
    · exact ⟨hgood.keys.record _ _ _, GoMap.forall_set husage hempty, hgood.revision⟩

theorem bound_replay (hgood : Replayable E plan p keys) (hw : d.Writes E plan e)
    (hok : (Change.bind a b).Ok E plan p) (h : Applies E plan p (.bind a b) d q) :
    Retraces E plan p keys e clock q := by
  obtain ⟨hrun, hsession, hdir⟩ := hok
  obtain _ | @⟨_, _, _, k, nonempty, stored, running, type, payload, node, attempt, token⟩ := h
  have hx := hw.payload
  rw [payload] at hx
  refine ⟨keys, ?_, hgood.keys, GoMap.forall_set hgood.usage (hgood.usage k a stored),
    hgood.revision⟩
  have hset : (p.view (StructuredResult.image E) keys).attempts.insert k
      ((b.enter a).view (StructuredResult.image E)) = GoMap.mapValues
        (NodeAttempt.view (StructuredResult.image E)) (p.attempts.insert k (b.enter a)) :=
    GoMap.mapValues_set.symm
  unfold replayEvent
  rw [hw.type.trans type, hx]
  show replayBound .. = _
  unfold replayBound
  simp only [get_view, stored, Option.map_some, then_ok, ensure_ok]
  refine ⟨by simp [nonempty, hw.attemptID, attempt], ?_, ?_, ?_⟩
  · show (a.status == .running && e.fencingToken == a.lease.fencingToken) = true
    simp [running, hw.fencingToken, token]
  · show (!((e.nodeID != "" && e.nodeID != a.nodeID) || b.id == "" || b.sessionID == "" ||
      b.workDir == "")) = true
    simp [hrun, hsession, hdir, hw.nodeID, node]
  · exact congrArg Except.ok (congrArg (fun m =>
      ({ p.view (StructuredResult.image E) keys with attempts := m } : PlanProjection)) hset)

theorem finishAttempt_writes (hnew : NewKey p.idempotency i.idempotencyKey)
    (h : finishAttempt H plan p k i clock = (.ok a, q)) :
    ∃ f b, FinishFacts plan p k i (i.at clock) f b ∧ FinishWrites p k i f b a q := by
  rcases finishAttempt_cases H plan p k i clock with ⟨e, he⟩ | ⟨b, -, hb⟩ | ⟨f, b, hf, hres⟩
  · rw [h] at he
    cases he
  · exact absurd hnew hb
  · rw [h] at hres
    exact ⟨f, b, hf, hres.writes hf⟩

theorem Reads.recorded (h : Reads E plan r) (state : RepairLifecycle)
    (hr : r' = r ∨ r' = stampResult state r) :
    resultUsage (r'.image E) = resultUsage r ∧ repairReads (r'.image E) = repairReads r ∧
      stampResult state (r'.image E) = (stampResult state r).image E := by
  rcases hr with rfl | rfl
  · exact ⟨h.usage, h.repair, (image_stamp h.encodes).symm⟩
  · rw [image_stamp h.encodes, resultUsage_stamp, repairReads_stamp, stampResult_twice]
    exact ⟨h.usage, h.repair, rfl⟩

theorem finished_replay (hgood : Replayable E plan p keys) (hw : d.Writes E plan e)
    (hok : (Change.finish k i).Ok E plan p) (h : Applies E plan p (.finish k i) d q)
    (clock : Time) :
    Retraces E plan p keys e clock q := by
  obtain ⟨hnow, hnew, hreads⟩ := hok
  obtain _ | _ | @⟨_, _, a, q, _, live, recorded, artifacts, call, type, payload, result, listed,
    token⟩ := h
  have hf := image_rewrites E
  obtain ⟨f, b, hfacts, hwrites⟩ := finishAttempt_writes hnew call
  have hrecorded := hreads.recorded a.repairState (hwrites.result ▸ result)
  have hx := hw.payload
  rw [payload] at hx
  have hrepeats : Repeats (StructuredResult.image E) plan p k i {
      planRevision := plan.revision, leaseToken := e.fencingToken, event := i.event
      result := recorded.image E, failure := i.failure, outputArtifacts := artifacts
      idempotencyKey := i.idempotencyKey, now := i.now } a := {
    revision := hgood.revision.symm
    leaseToken := by rw [hw.fencingToken, token]
    event := rfl
    failure := rfl
    key := rfl
    now := rfl
    artifacts := fun b' hb' => by
      rw [hfacts.stored] at hb'
      cases hb'
      rcases listed with rfl | rfl
      · rfl
      · rw [hwrites.artifacts, appendUnique_twice]
    evidence := by
      show recorded.evidenceIDs = i.result.evidenceIDs
      rcases result with rfl | rfl
      · rfl
      · rw [hwrites.result, stampResult_evidence]
    usage := hrecorded.1
    repair := hrecorded.2.1
    stamp := by rw [hwrites.result]; exact hwrites.result ▸ hrecorded.2.2
    edges := by rw [hwrites.result]; exact hreads.edges _ }
  have hkeys : NewKey keys i.idempotencyKey := hnew.imp id (hgood.keys _).mp
  rw [finishAttempt_clock hnow live clock] at call
  obtain ⟨hash, hview⟩ := finishAttempt_view hf hgood.usage hnew hkeys call hrepeats
  refine ⟨recordKey keys (trimSpace i.idempotencyKey) hash, ?_, ?_, ?_, ?_⟩
  · unfold replayEvent
    rw [hw.type.trans type, hx]
    show replayFinished .. = _
    unfold replayFinished
    simp only [Option.getD_some, beq_eq_false_iff_ne.mpr hnow, Bool.false_eq_true, if_false, hview]
  · rw [hwrites.keys, hfacts.key]
    exact hgood.keys.record _ _ _
  · unfold SameUsage
    rw [hwrites.attempts]
    exact GoMap.forall_set hgood.usage (by rw [hwrites.result]; exact hreads.usage_stamp)
  · rw [hwrites.revision, hgood.revision]

/-- The event of an appended commit repeats the change on the replayed projection. -/
theorem Applies.replay (h : Applies E plan p c d q) (hok : c.Ok E plan p)
    (hgood : Replayable E plan p keys) (hw : d.Writes E plan e) (clock : Time) :
    Retraces E plan p keys e clock q := by
  cases c with
  | start args => exact started_replay hgood hw hok h clock
  | bind a b => exact bound_replay hgood hw hok h
  | finish k i => exact finished_replay hgood hw hok h clock

/-- The session's projection is the stored one and the log replays to it. -/
structure Current (E : EventHost) (plan : RequirementExecutionPlan) (clock : Time) (s : Session) :
    Prop where
  stored : s.repo.projections[plan.id]? = some s.projection
  chain : validateEventChain E (s.repo.log plan.id) plan.id plan.workspaceID = .ok ()
  replay : ∃ keys, Replayable E plan s.projection keys ∧
    replayProjection E plan (s.repo.log plan.id) clock =
      .ok (s.projection.view (StructuredResult.image E) keys)

variable {repo repo' : MemoryRepository} {c : Change} {fault : Option Err}

theorem Current.congr (h : Current E plan clock ⟨p, repo⟩)
    (hproj : repo'.projections[plan.id]? = repo.projections[plan.id]?)
    (hlog : repo'.log plan.id = repo.log plan.id) : Current E plan clock ⟨p, repo'⟩ :=
  ⟨hproj.trans h.stored, by rw [hlog]; exact h.chain, by rw [hlog]; exact h.replay⟩

theorem listEvents_eq
    (h : validateEventChain E (repo.log plan.id) plan.id plan.workspaceID = .ok ()) :
    repo.listEvents plan.id 0 = repo.log plan.id :=
  List.filter_eq_self.mpr fun e he => decide_eq_true (chainFrom_positive h e he)

theorem rebase_tail (h : validateEventChain E log plan.id plan.workspaceID = .ok u)
    (he : e.sequence = tailSequence log.getLast? + 1) : MemoryRepository.rebase E log e = e := by
  cases hlast : log.getLast? with
  | none =>
    rw [List.getLast?_eq_none_iff] at hlast
    rw [hlast] at he ⊢
    have h1 : e.sequence = 1 := he
    simp [MemoryRepository.rebase, h1]
  | some last =>
    have hseq := chain_sequence h hlast
    have hpos : 0 < log.length := List.length_pos_of_mem (List.mem_of_getLast? hlast)
    rw [hlast] at he
    have he' : e.sequence = last.sequence + 1 := he
    exact MemoryRepository.rebase_later (by omega) log

theorem keyed_none (h : MemoryRepository.Appended E log e) :
    MemoryRepository.keyed log e.idempotencyKey = none := by
  refine List.find?_eq_none.mpr fun old hold hkey => ?_
  simp only [Bool.and_eq_true, bne_iff_ne, beq_iff_eq] at hkey
  exact h.fresh old hold hkey.1 hkey.2

/-- A commit that is refused leaves the session current, and one that is made
makes it current for the new projection. -/
theorem commitDraft_current (fault : Option Err) (hcur : Current E plan clock ⟨p, repo⟩)
    (happ : c.Ok E plan p → Applies E plan p c d q) (hset : c.Settled p → q = p)
    (hok : Commit.Ok E plan ⟨p, repo.listEvents plan.id 0, c, d⟩) :
    (∀ err repo', commitDraft E plan d fault q repo = (.error err, repo') →
      Current E plan clock ⟨p, repo'⟩) ∧
    ∀ u repo', commitDraft E plan d fault q repo = (.ok u, repo') →
      Current E plan clock ⟨q, repo'⟩ ∧ (c.Ok E plan p ∨ c.Settled p) := by
  have hlist := listEvents_eq hcur.chain
  unfold commitDraft
  rw [hlist] at hok ⊢
  cases he : d.event E plan (repo.log plan.id).getLast? with
  | error err =>
    refine ⟨fun err' repo' h => ?_, fun _ _ h => (nomatch h)⟩
    cases h
    exact hcur
  | ok e =>
    have hw := Draft.event_writes he
    have hseq := (Draft.event_ok he).2.2
    have hcases := MemoryRepository.commit_cases E repo e q fault
    simp only
    generalize MemoryRepository.commitEventProjection E repo e q fault = reply at hcases
    obtain ⟨res, repo'⟩ := reply
    cases hcases with
    | refused err _ hplans hproj hlogs =>
      refine ⟨fun err' r' h => ?_, fun _ _ h => (nomatch h)⟩
      cases h
      exact hcur.congr (by rw [hproj]) (hlogs _)
    | repeated old _ hscope hfound hpayload hplans hproj hlogs =>
      refine ⟨fun _ _ h => (nomatch h), fun u r' h => ?_⟩
      cases h
      rw [hw.planID, hw.key] at hfound
      simp only [Commit.Ok, hfound] at hok
      rcases hok with hne | hsettled
      · exact absurd (hpayload.trans hw.digest) hne
      · refine ⟨?_, .inr hsettled⟩
        rw [hset hsettled] at hproj hscope ⊢
        refine hcur.congr ?_ (by unfold MemoryRepository.log; rw [hlogs])
        rw [hproj, hscope, hw.planID, GoMap.get_set, if_pos rfl]
        exact hcur.stored.symm
    | appended _ hscope hfacts hplans hproj hlogs =>
      refine ⟨fun _ _ h => (nomatch h), fun u r' h => ?_⟩
      cases h
      have hnone := keyed_none hfacts
      rw [hw.planID, hw.key] at hnone
      simp only [Commit.Ok, hnone] at hok
      obtain ⟨keys, hgood, hreplay⟩ := hcur.replay
      obtain ⟨keys', hevent, hgood'⟩ := (happ hok).replay hok hgood hw clock
      have hchain := hfacts.chain
      rw [hw.planID] at hchain hlogs
      rw [rebase_tail hcur.chain hseq] at hchain hlogs
      rw [hw.workspaceID] at hchain
      have hlog : repo'.log plan.id = repo.log plan.id ++ [e] := by
        rw [MemoryRepository.log_insert _ hlogs, if_pos rfl]
      refine ⟨⟨?_, by rw [hlog]; exact hchain, keys', hgood', ?_⟩, .inl hok⟩
      · rw [hproj, hscope, hw.planID, GoMap.get_set, if_pos rfl]
      · rw [hlog]
        exact replayProjection_concat hreplay hchain hevent

/-- A turn adds commits. When it starts on what `pre` asks and all of them can be
replayed, the log replays to what is stored, and if the turn goes on it goes on
with the stored projection. -/
def Kept (E : EventHost) (plan : RequirementExecutionPlan) (clock : Time) (pre : Prop)
    (g : Progress) (t : Turn) : Prop :=
  ∃ more, t.2.commits = g.commits ++ more ∧ (pre → (∀ c ∈ more, c.Ok E plan) →
    (∃ p, Current E plan clock ⟨p, t.2.session.repo⟩) ∧
    (t.1 = none → Current E plan clock t.2.session))

variable {g : Progress} {err : Err} {pre : Prop}

theorem Kept.stop (hc : g'.commits = g.commits)
    (h : pre → ∃ p, Current E plan clock ⟨p, g'.session.repo⟩) :
    Kept E plan clock pre g (some err, g') :=
  ⟨[], by rw [hc, List.append_nil], fun hpre _ => ⟨h hpre, nofun⟩⟩

theorem Kept.go (hc : g'.commits = g.commits) (h : pre → Current E plan clock g'.session) :
    Kept E plan clock pre g (none, g') :=
  ⟨[], by rw [hc, List.append_nil], fun hpre _ => ⟨⟨_, h hpre⟩, fun _ => h hpre⟩⟩

theorem Kept.after (pre' : Prop) {c : Commit} (hc : g'.commits = g.commits ++ [c])
    (h : Kept E plan clock pre' g' t) (hpre : pre → c.Ok E plan → pre') :
    Kept E plan clock pre g t := by
  obtain ⟨more, hm, hkept⟩ := h
  refine ⟨c :: more, by rw [hm, hc, List.append_assoc]; rfl, fun hp hok => ?_⟩
  exact hkept (hpre hp (hok c List.mem_cons_self)) fun c hc => hok c (List.mem_cons_of_mem _ hc)

theorem Kept.mono (h : Kept E plan clock pre' g t) (hpre : pre → pre') :
    Kept E plan clock pre g t := by
  obtain ⟨more, hm, hkept⟩ := h
  exact ⟨more, hm, fun hp hok => hkept (hpre hp) hok⟩

def Progress.commit (plan : RequirementExecutionPlan) (g : Progress) (c : Change) (d : Draft) :
    Commit :=
  ⟨g.session.projection, g.session.repo.listEvents plan.id 0, c, d⟩

/-- A turn that stops where its commit is refused and else goes on from it. -/
theorem Kept.commit (hcur : pre → Current E plan clock g.session)
    (happ : pre → c.Ok E plan g.session.projection → Applies E plan g.session.projection c d q)
    (hset : c.Settled g.session.projection → q = g.session.projection)
    (hstop : ∀ err g₁, commitChange E plan g c d fault q undone = (some err, g₁) →
      ∃ err', t = (some err', g₁))
    (hgo : ∀ g₁, commitChange E plan g c d fault q undone = (none, g₁) →
      g₁.session.projection = q → Kept E plan clock (Current E plan clock g₁.session ∧
        (c.Ok E plan g.session.projection ∨ c.Settled g.session.projection)) g₁ t) :
    Kept E plan clock pre g t := by
  unfold commitChange at hstop hgo
  have hcommit (hpre : pre) := commitDraft_current fault (hcur hpre) (happ hpre) hset
  cases hr : commitDraft E plan d fault q g.session.repo with
  | mk made r =>
    cases made with
    | error e =>
      obtain ⟨err, rfl⟩ := hstop e _ (by rw [hr])
      exact ⟨_, rfl, fun hpre hok =>
        ⟨⟨_, (hcommit hpre (hok (g.commit plan c d) List.mem_cons_self)).1 _ _ hr⟩, nofun⟩⟩
    | ok u =>
      exact .after _ rfl (hgo _ (by rw [hr]) rfl)
        fun hpre hok => (hcommit hpre hok).2 _ _ hr

theorem finishAttempt_closed (h : finishAttempt H plan p k i clock = (.ok a, q))
    (hclosed : ∀ b, p.attempts[k]? = some b → b.status ≠ .running ∧ b.status ≠ .waiting) :
    q = p := by
  rcases finishAttempt_cases H plan p k i clock with ⟨e, he⟩ | ⟨b, hb, -⟩ | ⟨f, b, hf, hres⟩
  · rw [h] at he
    cases he
  · rw [h] at hb
    cases hb
    rfl
  · obtain ⟨hrun, hwait⟩ := hclosed b hf.stored
    exact absurd hf.live (not_or.mpr ⟨hrun, hwait⟩)

structure NewlyStarted (args : StartArgs) (a : NodeAttempt) (q : PlanProjection) : Prop where
  nonempty : args.attemptID ≠ ""
  id : a.id = args.attemptID
  nodeID : a.nodeID = args.nodeID
  child : a.childPlanID = ""
  status : a.status = .running
  artifacts : a.outputArtifacts = []
  stored : q.attempts[args.attemptID]? = some a

theorem startAttempt_started (hok : (Change.start args).Ok E plan p)
    (h : startAttempt H plan p args clock = (.ok a, q)) : NewlyStarted args a q := by
  obtain ⟨-, hid, hkey⟩ := hok
  obtain ⟨n, no, hfacts, rfl, rfl⟩ := startAttempt_new hid hkey h
  refine ⟨ne_empty_of_not_blank hfacts.attemptID, rfl, rfl, rfl, rfl, rfl, ?_⟩
  show (p.attempts.insert args.attemptID _)[args.attemptID]? = _
  rw [GoMap.get_set, if_pos rfl]

theorem starting_applies (child : String)
    (hargs : args = startingArgs E plan p node id lease envelope now)
    (hok : (Change.start args).Ok E plan p)
    (h : startAttempt E.toHost plan p args clock = (.ok a, q)) (type : d.type = "attempt.started")
    (key : d.key = args.input.idempotencyKey)
    (payload : d.payload = (startedDraft args { a with childPlanID := child } o).payload)
    (scope : d.nodeID = "" ∨ d.nodeID = a.nodeID) :
    Applies E plan p (.start args) d (withChild a child q) := by
  obtain ⟨n, no, hfacts, rfl, rfl⟩ := startAttempt_new hok.2.1 hok.2.2 h
  have hnext : args.attemptNo = i64 (n.attemptNo + 1) := by
    have hnode := hfacts.node
    rw [hargs] at hnode ⊢
    show i64 (((p.nodes[node.id]?).getD default).attemptNo + 1) = _
    rw [show p.nodes[node.id]? = some n from hnode]
    rfl
  have hno : no = args.attemptNo := by
    rw [hfacts.number, ← hnext, ite_self]
  refine .start h ?_ type ?_ scope
  · rw [key, hargs]
    rfl
  · rw [payload, hno]
    rfl

variable {x : Executor} {node : WorkflowNode}

theorem structuralInput_artifacts (h : structuralInput plan node args id w = .ok input) :
    (node.kind = .human → input.outputArtifacts = []) ∧
      input.leaseToken = args.lease.fencingToken := by
  unfold structuralInput at h
  split at h
  · cases h
    exact ⟨fun _ => rfl, rfl⟩
  · rename_i hkind
    simp only [bind_ok, pure_ok] at h
    obtain ⟨dec, -, -, -, rfl⟩ := h
    exact ⟨fun hhuman => absurd (by simp [hhuman]) hkind, rfl⟩

theorem structural_applies {b : NodeAttempt} (hnew : NewlyStarted args a p)
    (hinput : structuralInput plan node args a.id w = .ok input)
    (hok : (Change.finish a.id input).Ok E plan p)
    (h : finishAttempt E.toHost plan p a.id input clock = (.ok b, q)) :
    Applies E plan p (.finish a.id input) (structuralDraft node args input b o) q := by
  obtain ⟨f, b₀, hfacts, hwrites⟩ := finishAttempt_writes hok.2.1 h
  obtain ⟨hhuman, htoken⟩ := structuralInput_artifacts hinput
  have hid : b.id = a.id := by
    have hstored := hfacts.stored
    rw [hnew.id, hnew.stored] at hstored
    cases hstored
    exact hwrites.id
  have hlisted : (if node.kind == .human then [] else b.outputArtifacts) = input.outputArtifacts ∨
      (if node.kind == .human then [] else b.outputArtifacts) = b.outputArtifacts := by
    split
    · rename_i hkind
      exact .inl (hhuman (by simpa using hkind)).symm
    · exact .inr rfl
  refine .finish h rfl ?_ (.inr rfl) hlisted htoken.symm
  rw [← hid]
  rfl

theorem finishStructural_kept (hproj : g.session.projection = p) :
    Kept E plan clock (Current E plan clock g.session ∧ NewlyStarted args a p) g
      (finishStructural E plan w node args a.id before g) := by
  subst hproj
  unfold finishStructural
  split
  · exact .stop rfl fun h => ⟨_, h.1⟩
  · rename_i input hinput
    split
    · exact .stop rfl fun h => ⟨_, h.1⟩
    · rename_i b p₂ hfin
      refine .commit And.left (fun h hok => structural_applies h.2 hinput hok hfin)
        (finishAttempt_closed hfin) (fun _ _ hc => ⟨_, by rw [hc]⟩) fun g₁ hc _ => ?_
      rw [hc]
      exact .go rfl And.left

theorem advanceNode_kept (w : StructuralWork) (g : Progress) :
    Kept E plan clock (Current E plan clock g.session) g
      (advanceNode E plan x envelope w node g) := by
  unfold advanceNode
  simp only
  generalize hargs : startingArgs E plan g.session.projection node w.attemptID
    (x.lease plan node w.now) envelope w.now = args
  cases hstart : startAttempt E.toHost plan g.session.projection args w.clock with
  | mk res p₁ =>
  cases res with
  | error err => exact .stop rfl fun h => ⟨_, h⟩
  | ok a =>
    have happ (o : Origin) (hok : (Change.start args).Ok E plan g.session.projection) :
        Applies E plan g.session.projection (.start args)
          { startedDraft args a o with nodeID := a.nodeID, attemptID := a.id } p₁ := by
      have hnew := startAttempt_started hok hstart
      have hchild : ({ a with childPlanID := "" } : NodeAttempt) = a := by rw [← hnew.child]
      exact starting_applies "" hargs.symm hok hstart rfl rfl (by rw [hchild])
        (.inr rfl)
    simp only
    refine .commit id (fun _ => happ _) nofun (fun _ _ hc => ⟨_, by rw [hc]⟩) fun g₁ hc hproj => ?_
    rw [hc]
    refine (finishStructural_kept hproj).mono fun ⟨hcur, hmade⟩ => ⟨hcur, ?_⟩
    exact startAttempt_started (hmade.resolve_right id) hstart

theorem eachReady_kept
    (h : ∀ node g, Kept E plan clock (Current E plan clock g.session) g (turn node g))
    (nodes : List WorkflowNode) (g : Progress) :
    Kept E plan clock (Current E plan clock g.session) g (eachReady limit turn nodes g) := by
  induction nodes generalizing g with
  | nil => exact .go rfl id
  | cons node rest ih =>
    unfold eachReady
    split
    · exact .go rfl id
    · have hturn := h node g
      generalize turn node g = t at hturn
      obtain ⟨err, g₁⟩ := t
      cases err with
      | some err => exact hturn
      | none =>
        obtain ⟨first, hfirst, hgo⟩ := hturn
        obtain ⟨more, hmore, hrest⟩ := ih g₁
        refine ⟨first ++ more, ?_, fun hcur hok => ?_⟩
        · exact hmore.trans (by rw [show g₁.commits = g.commits ++ first from hfirst,
            List.append_assoc])
        · have hcur₁ := (hgo hcur fun c hc => hok c (List.mem_append_left _ hc)).2 rfl
          exact hrest hcur₁ fun c hc => hok c (List.mem_append_right _ hc)

/-- A finish by the executor: refused, refused by the repository, or committed. -/
theorem finish_current (hcur : Current E plan clock s)
    (hok : ∀ c ∈ finishCommits E plan s k i live w, c.Ok E plan) :
    (∃ p, Current E plan clock ⟨p, (Executor.finishAttempt E plan s k i live w).2.repo⟩) ∧
      ∀ a s', Executor.finishAttempt E plan s k i live w = (.ok a, s') →
        Current E plan clock s' := by
  unfold finishCommits at hok
  unfold Executor.finishAttempt
  simp only at hok ⊢
  generalize ({ i with now := i.at live } : TransitionInput) = i' at hok
  cases hfin : finishAttempt E.toHost plan s.projection k i' live with
  | mk res q =>
    cases res with
    | error err => exact ⟨⟨_, hcur⟩, fun _ _ h => by cases h⟩
    | ok a =>
      rw [hfin] at hok
      have hcommit := commitDraft_current w.fault hcur
        (fun hok => .finish hfin rfl rfl (.inl rfl) (.inr rfl) rfl) (finishAttempt_closed hfin)
        (hok _ List.mem_cons_self)
      simp only
      cases hr : commitDraft E plan (finishDraft k i' a w.origin) w.fault q s.repo with
      | mk made r =>
        cases made with
        | error err => exact ⟨⟨_, hcommit.1 _ _ hr⟩, fun _ _ h => by cases h⟩
        | ok u =>
          have hmade := (hcommit.2 _ _ hr).1
          refine ⟨⟨_, hmade⟩, fun a s' h => ?_⟩
          cases h
          exact hmade

structure Launched (k : String) (a : NodeAttempt) (p : PlanProjection) : Prop where
  nonempty : k ≠ ""
  id : a.id = k
  status : a.status = .running
  stored : p.attempts[k]? = some a

theorem bindRun_kept :
    Kept E plan clock (Current E plan clock g.session ∧ ∃ a, Launched k a g.session.projection) g
      (bindRun E plan args k w b g) := by
  have happ (p : PlanProjection) (o : Origin) (h : ∃ a, Launched k a p) :
      let stored := (p.attempts[k]?).getD {}
      Applies E plan p (.bind stored b) (boundDraft args (b.enter stored) o)
        { p with attempts := p.attempts.insert k (b.enter stored) } := by
    obtain ⟨a, hl⟩ := h
    rw [hl.stored]
    exact .bind hl.nonempty hl.stored hl.status rfl (by rw [← hl.id]; rfl) rfl hl.id rfl
  unfold bindRun
  simp only [Binding.enter] at happ ⊢
  refine .commit And.left (fun h _ => happ _ _ h.2) nofun (fun _ _ hc => ⟨_, by rw [hc]⟩)
    fun g₁ hc _ => ?_
  rw [hc]
  cases w.ack with
  | some err => exact .stop rfl fun h => ⟨_, h.1⟩
  | none => exact .go rfl And.left

theorem failRun_kept :
    Kept E plan clock (Current E plan clock g.session) g (failRun E plan args k w f g) := by
  unfold failRun
  simp only
  split <;> rename_i hs
  all_goals
    refine ⟨_, rfl, fun hcur hok => ⟨?_, nofun⟩⟩
    have := (finish_current hcur hok).1
    rwa [hs] at this

theorem launchRun_kept :
    Kept E plan clock (Current E plan clock g.session ∧ ∃ a, Launched k a g.session.projection) g
      (launchRun E plan args k w before g) := by
  unfold launchRun
  split
  · exact .stop rfl fun h => ⟨_, h.1⟩
  · split
    · exact .stop rfl fun h => ⟨_, h.1⟩
    · split
      · exact failRun_kept.mono And.left
      · exact bindRun_kept

theorem nestedPlanID_ne (id : String) : nestedPlanID plan id ≠ plan.id := by
  intro h
  have hlen := congrArg String.length h
  simp only [nestedPlanID, String.length_append] at hlen
  have hsquad : "/squad/".length = 7 := rfl
  omega

theorem freeze_id {child frozen : RequirementExecutionPlan}
    (h : child.freeze E created = .ok frozen) : frozen.id = child.id := by
  simp only [RequirementExecutionPlan.freeze, then_ok] at h
  obtain ⟨-, -, -, -, -, h⟩ := h
  split at h
  · cases h
  · cases h
    rfl

theorem ensureNestedSquadPlan_keeps (r : MemoryRepository) (id : String) (squad : Squad) :
    MemoryRepository.Keeps plan.id r (ensureNestedSquadPlan E plan r node id squad).2 := by
  have hsame : MemoryRepository.Keeps plan.id r r := .of_eq rfl rfl
  unfold ensureNestedSquadPlan
  split
  · exact hsame
  · exact hsame
  · split
    · exact hsame
    · rename_i frozen hfrozen
      split
      · exact hsame
      · rename_i e he
        have hne : frozen.id ≠ plan.id := by
          rw [freeze_id hfrozen]
          exact nestedPlanID_ne id
        have hcreate := MemoryRepository.createPlanWithEvent_keeps (E := E) r frozen e
          squad.created.fault hne
        split
        · rename_i r' hr
          rwa [hr] at hcreate
        · rename_i err r' hr
          rw [hr] at hcreate
          split <;> exact hcreate

theorem nestAttempt_keeps (squad : Option Squad) (r : MemoryRepository) :
    MemoryRepository.Keeps plan.id r (nestAttempt E plan node squad a q r).2 := by
  unfold nestAttempt
  cases squad with
  | none => exact .of_eq rfl rfl
  | some squad =>
    have hkeeps : MemoryRepository.Keeps plan.id r
      (ensureNestedSquadPlan E plan r node a.id squad).2 := ensureNestedSquadPlan_keeps r a.id squad
    simp only
    split
    · rename_i err r' hr
      rwa [hr] at hkeeps
    · rename_i child r' hr
      rwa [hr] at hkeeps

theorem nestAttempt_ok (hnew : NewlyStarted args a q)
    (h : nestAttempt E plan node squad a q repo = (.ok (a', p'), repo')) :
    ∃ child, a' = { a with childPlanID := child } ∧ p' = withChild a child q ∧
      Launched a'.id a' p' := by
  have hstored : q.attempts[a.id]? = some a := by rw [hnew.id]; exact hnew.stored
  have hne : a.id ≠ "" := hnew.id ▸ hnew.nonempty
  have hself : ({ a with childPlanID := "" } : NodeAttempt) = a := by rw [← hnew.child]
  unfold nestAttempt at h
  cases squad with
  | none =>
    cases h
    exact ⟨"", hself.symm, rfl, hne, rfl, hnew.status, hstored⟩
  | some squad =>
    simp only at h
    split at h
    · cases h
    · rename_i child r' hr
      cases h
      refine ⟨child, rfl, ?_, hne, rfl, hnew.status, ?_⟩
      · unfold withChild
        split
        · rename_i hblank
          rw [beq_iff_eq.mp hblank, hself, GoMap.set_get_self hstored]
        · rfl
      · simp only [GoMap.get_set, if_true]

theorem dispatchNode_kept (w : DispatchWork) :
    Kept E plan clock (Current E plan clock g.session) g (dispatchNode E plan x w node g) := by
  unfold dispatchNode
  split
  · exact .stop rfl fun h => ⟨_, h⟩
  · rename_i envelope _
    simp only
    generalize hargs : startingArgs E plan g.session.projection node w.attemptID
      (cappedLease plan (x.lease plan node w.now)) envelope w.now = args
    split
    · exact .stop rfl fun h => ⟨_, h⟩
    · rename_i a q hstart
      have hkeeps : MemoryRepository.Keeps plan.id g.session.repo (nestAttempt E plan node
          (if node.kind == .squad then w.squad else none) a q g.session.repo).2 :=
        nestAttempt_keeps _ _
      split
      · rename_i err r hnest
        rw [hnest] at hkeeps
        exact .stop rfl fun h => ⟨_, h.congr hkeeps.1 hkeeps.2⟩
      · rename_i a' p' r hnest
        rw [hnest] at hkeeps
        have happ (o : Origin) (hok : (Change.start args).Ok E plan g.session.projection) :
            Applies E plan g.session.projection (.start args) (startedDraft args a' o) p' := by
          obtain ⟨child, rfl, rfl, -⟩ := nestAttempt_ok (startAttempt_started hok hstart) hnest
          exact starting_applies child hargs.symm hok hstart rfl rfl rfl (.inl rfl)
        refine .commit (g := { g with session := ⟨g.session.projection, r⟩ })
          (fun h => h.congr hkeeps.1 hkeeps.2) (fun _ => happ _) nofun
          (fun _ _ hc => ⟨_, by rw [hc]⟩) fun g₁ hc hproj => ?_
        rw [hc]
        refine launchRun_kept.mono fun ⟨hcur, hmade⟩ => ⟨hcur, a', ?_⟩
        obtain ⟨child, -, -, hl⟩ :=
          nestAttempt_ok (startAttempt_started (hmade.resolve_right id) hstart) hnest
        exact hproj ▸ hl

/-- The log of the plan replays to what is stored for it. -/
def Faithful (E : EventHost) (plan : RequirementExecutionPlan) (clock : Time)
    (r : MemoryRepository) : Prop := ∃ p, Current E plan clock ⟨p, r⟩

def callCommits (E : EventHost) (plan : RequirementExecutionPlan) (x : Executor)
    (r : MemoryRepository) (c : ExecutorCall) : List Commit :=
  (callOn E plan x r c).commits

theorem callStep_faithful {r : MemoryRepository} {c : ExecutorCall}
    (h : Faithful E plan clock r) (hok : ∀ k ∈ callCommits E plan x r c, k.Ok E plan) :
    Faithful E plan clock (callStep E plan x r c) := by
  obtain ⟨p, hcur⟩ := h
  have hget : r.getProjection plan.id = .ok p := by
    unfold MemoryRepository.getProjection
    rw [show r.projections[plan.id]? = some p from hcur.stored]
  have hkept (t : Turn) (h : Kept E plan clock (Current E plan clock ⟨p, r⟩)
    { session := ⟨p, r⟩ } t)
      (hall : ∀ k ∈ t.2.commits, k.Ok E plan) : Faithful E plan clock t.2.session.repo := by
    obtain ⟨more, hmore, hgo⟩ := h
    rw [hmore] at hall
    exact (hgo hcur hall).1
  unfold callCommits callOn at hok
  unfold callStep callOn
  rw [hget] at hok ⊢
  cases c with
  | advanceStructural envelope limit now work =>
    refine hkept _ ?_ hok
    unfold advanceStructural
    split
    · exact .stop rfl fun h => ⟨p, h⟩
    · exact eachReady_kept (fun node g => advanceNode_kept _ g) _ _
  | dispatchReadyLimited envelope limit now work =>
    refine hkept _ ?_ hok
    unfold dispatchReady
    split
    · exact .stop rfl fun h => ⟨p, h⟩
    · simp only
      split
      · exact .stop rfl fun h => ⟨p, h⟩
      · exact eachReady_kept (fun node g => dispatchNode_kept _) _ _
  | finishAttempt k input live w => exact (finish_current hcur hok).1

/-- A plan as it was created: its first projection is stored, and its log has
no other events than those of its creation and publication. -/
structure Published (E : EventHost) (plan : RequirementExecutionPlan) (r : MemoryRepository) :
    Prop where
  stored : ∃ p, newProjection plan = .ok p ∧ r.projections[plan.id]? = some p
  chain : validateEventChain E (r.log plan.id) plan.id plan.workspaceID = .ok ()
  lifecycle : ∀ e ∈ r.log plan.id, e.type = "plan.created" ∨ e.type = "plan.published"

theorem replay_lifecycle {events : List Event}
    (h : ∀ e ∈ events, e.type = "plan.created" ∨ e.type = "plan.published") :
    events.foldlM (replayEvent E plan clock) p = .ok p := by
  induction events with
  | nil => rfl
  | cons e rest ih =>
    have he : replayEvent E plan clock p e = .ok p := by
      unfold replayEvent
      rw [if_pos (by simpa using h e List.mem_cons_self)]
    rw [List.foldlM_cons, he]
    exact ih fun e he => h e (List.mem_cons_of_mem _ he)

theorem Published.faithful {r : MemoryRepository} (h : Published E plan r) :
    Faithful E plan clock r := by
  obtain ⟨p, hnew, hstored⟩ := h.stored
  have hp : p.attempts = ∅ ∧ p.decisions = [] ∧ p.revision = plan.revision := by
    simp only [newProjection, then_ok, pure_ok] at hnew
    obtain ⟨-, -, -, rfl⟩ := hnew
    exact ⟨rfl, rfl, rfl⟩
  have hview : p.view (StructuredResult.image E) p.idempotency = p := by
    have hempty : GoMap.mapValues (NodeAttempt.view (StructuredResult.image E)) ∅ = ∅ :=
      GoMap.ext_get fun k => by rw [GoMap.get_mapValues]; simp
    unfold PlanProjection.view
    rw [hp.1, hempty, hp.2.1, List.map_nil, ← hp.1, ← hp.2.1]
  refine ⟨p, hstored, h.chain, p.idempotency, ⟨fun _ => Iff.rfl, ?_, hp.2.2⟩, ?_⟩
  · intro k a ha
    rw [show p.attempts = ∅ from hp.1] at ha
    simp at ha
  · simp only [replayProjection, bind_ok]
    exact ⟨p, hnew, (), h.chain, by rw [hview]; exact replay_lifecycle h.lifecycle⟩

/-- The replayed projection is the stored one, with the JSON image of every
result's fields. -/
structure SameState (E : EventHost) (p q : PlanProjection) : Prop where
  status : q.status = p.status
  terminalOutcome : q.terminalOutcome = p.terminalOutcome
  nodes : q.nodes = p.nodes
  attempts : q.attempts = GoMap.mapValues (NodeAttempt.view (StructuredResult.image E)) p.attempts
  traversals : q.traversals = p.traversals
  decisions : q.decisions = p.decisions.map (FeedbackDecision.view (StructuredResult.image E))
  repairPlans : q.repairPlans = p.repairPlans
  tokenUsage : q.tokenUsage = p.tokenUsage
  toolCalls : q.toolCalls = p.toolCalls
  costCents : q.costCents = p.costCents

theorem Current.readBack (h : Current E plan clock s) :
    s.repo.getProjection plan.id = .ok s.projection ∧
      ∃ q, replayProjection E plan (s.repo.listEvents plan.id 0) clock = .ok q ∧
        SameState E s.projection q := by
  obtain ⟨keys, -, hreplay⟩ := h.replay
  refine ⟨?_, s.projection.view (StructuredResult.image E) keys, ?_,
    ⟨rfl, rfl, rfl, rfl, rfl, rfl, rfl, rfl, rfl, rfl⟩⟩
  · unfold MemoryRepository.getProjection
    rw [h.stored]
  · rw [listEvents_eq h.chain]
    exact hreplay

/-- A commit whose event is new, of a change that JSON has no part in. -/
def Commit.plain (c : Commit) : Bool :=
  (MemoryRepository.keyed c.log c.draft.key).isNone &&
    match c.change with
    | .start args => args.input.now != 0 && (c.stored.attempts[args.attemptID]?).isNone &&
        (c.stored.idempotency[args.input.idempotencyKey]?).isNone
    | .bind _ b => b.id != "" && b.sessionID != "" && b.workDir != ""
    | .finish _ input => input.now != 0 && trimSpace input.idempotencyKey == "" &&
        input.result.fields.isEmpty

theorem Commit.plain_ok {c : Commit} (h : c.plain = true) : c.Ok E plan := by
  obtain ⟨stored, log, change, draft⟩ := c
  simp only [Commit.plain, Bool.and_eq_true, Option.isNone_iff_eq_none] at h
  obtain ⟨hkey, h⟩ := h
  simp only [Commit.Ok, hkey]
  cases change with
  | start args => simpa [Change.Ok, and_assoc] using h
  | bind a b => simpa [Change.Ok, and_assoc] using h
  | finish k input =>
    simp only [Bool.and_eq_true, bne_iff_ne, beq_iff_eq, Std.ExtTreeMap.isEmpty_iff] at h
    exact ⟨h.1.1, .inl h.1.2, .of_json fun k v hv => by rw [h.2] at hv; simp at hv⟩

/-- The repository with one plan of one agent, which has not been started. -/
def publishedRepo : MemoryRepository :=
  (MemoryRepository.createPlan sampleLog {} singlePlan none).2

/-- The agent's provider starts a run in the given directory. -/
def dispatchCall (workDir : String) : ExecutorCall :=
  .dispatchReadyLimited sampleEnvelope 0 1 fun _ => {
    prepared := .ok sampleEnvelope, attemptID := "a", now := 1
    started := { origin := { id := "started" } }
    run := .ok { id := "run", sessionID := "session", workDir := workDir }
    failed := { origin := { id := "failed" } }
    bound := { origin := { id := "bound" } } }

def dispatchedRepo (workDir : String) : MemoryRepository :=
  callStep sampleLog singlePlan {} publishedRepo (dispatchCall workDir)

def successCall : ExecutorCall :=
  .finishAttempt "a" {
    planRevision := 1, leaseToken := Time.unixNano 1, event := "success"
    result := { outcome := "pass", evidenceIDs := ["e"] } } 2 { origin := { id := "finished" } }

def finishedRepo : MemoryRepository :=
  callStep sampleLog singlePlan {} (dispatchedRepo "dir") successCall

theorem publishedRepo_published : Published sampleLog singlePlan publishedRepo where
  stored := ⟨_, rfl, rfl⟩
  chain := by decide +kernel
  lifecycle := by
    rw [show publishedRepo.log singlePlan.id = [] by decide +kernel]
    simp

end Adro.Orchestration
