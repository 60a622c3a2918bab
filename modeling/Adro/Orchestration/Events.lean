import Adro.Orchestration.Scheduler

/-!
# The event log

Events, the hash chain that links them, and the projection a log replays to.
Digests, trace contexts and the rendering of `float32` numbers come from
outside. A payload is the record of its JSON members: one that is absent has its
zero value, which is what it decodes to.
-/

namespace Adro.Orchestration

open Adro.Go

structure Payload where
  nodeID : String := ""
  attemptID : String := ""
  attemptNo : Int := 0
  lease : Lease := {}
  context : ContextEnvelope := {}
  dispatchPayloadHash : String := ""
  startedAt : Time := 0
  childPlanID : String := ""
  runID : String := ""
  sessionID : String := ""
  workDir : String := ""
  event : String := ""
  result : StructuredResult := {}
  failure : Option FailureReason := none
  artifactIDs : List String := []
  transitionKey : Option String := none
  transitionAt : Time := 0

/-- The payload is `none` when it has no bytes. -/
structure Event where
  id : String := ""
  planID : String := ""
  workspaceID : String := ""
  runID : String := ""
  nodeID : String := ""
  attemptID : String := ""
  sequence : Int := 0
  type : String := ""
  payload : Option Payload := none
  payloadHash : String := ""
  previousHash : String := ""
  envelopeHash : String := ""
  idempotencyKey : String := ""
  fencingToken : Int := 0
  traceParent : String := ""
  traceState : String := ""
  createdAt : Time := 0

instance : Inhabited Event := ⟨{}⟩

/-- What the log takes from outside, beside what the reducer does: the digests
of encoded events, payloads and plans and of texts, the text of a trace context
that does not parse, and the decimals of `float32` numbers. -/
structure EventHost extends Host where
  eventSum : Event → String
  payloadDigest : Option Payload → String
  planHash : RequirementExecutionPlan → Option String
  textDigest : String → String
  traceError : String → String → Option String
  short : Rat → Rat

/-- What a new event takes from the environment: `domain.NewID()`, the trace
context and `time.Now()`. -/
structure Origin where
  id : String
  traceParent : String := ""
  traceState : String := ""
  createdAt : Time := 0

variable (E : EventHost)

/-- The digest covers every field but itself. -/
def eventDigest (e : Event) : String := E.eventSum { e with envelopeHash := "" }

def StructuredResult.image (r : StructuredResult) : StructuredResult :=
  { r with fields := (imageFields E.short r.fields).getD r.fields }

/-- Marshalling keeps every member but the numbers and sequences in result fields. -/
def Payload.marshal (x : Payload) : Except Err Payload :=
  match imageFields E.short x.result.fields with
  | some fields => .ok { x with result := { x.result with fields := fields } }
  | none => .error (errorNew "json: unsupported value")

/-- The event before its digest is entered. A log of 2^63 events cannot exist,
so the successor is not wrapped. -/
def unsealed (o : Origin) (previous : Option Event) (planID workspaceID typ key : String)
    (body : Payload) : Event :=
  let e : Event := {
    id := o.id, planID, workspaceID, sequence := 1, type := typ, payload := some body
    payloadHash := E.payloadDigest (some body), idempotencyKey := key
    traceParent := o.traceParent, traceState := o.traceState, createdAt := o.createdAt }
  match previous with
  | some last => { e with sequence := last.sequence + 1, previousHash := last.envelopeHash }
  | none => e

def newEvent (o : Origin) (previous : Option Event) (planID workspaceID typ key : String)
    (payload : Payload) : Except Err Event := do
  ensure (!(planID == "" || workspaceID == "" || typ == ""))
    (errorNew "plan, workspace and event type are required")
  let body ← payload.marshal E
  let e := unsealed E o previous planID workspaceID typ key body
  pure { e with envelopeHash := eventDigest E e }

/-- What is put into an event: its content, and the scope entered afterwards. -/
structure Draft where
  origin : Origin
  type : String
  key : String
  payload : Payload := {}
  nodeID : String := ""
  attemptID : String := ""
  fencingToken : Int := 0

/-- The scope is added to the built event, which is then sealed again. -/
def Draft.event (d : Draft) (plan : RequirementExecutionPlan) (last : Option Event) :
    Except Err Event := do
  let e ← newEvent E d.origin last plan.id plan.workspaceID d.type d.key d.payload
  let e := { e with attemptID := d.attemptID, nodeID := d.nodeID, fencingToken := d.fencingToken }
  pure { e with envelopeHash := eventDigest E e }

/-- The sequence of the event that a new one is built on. -/
def tailSequence (last : Option Event) : Int := (last.map Event.sequence).getD 0

def traceCheck (e : Event) : Except Err Unit :=
  if e.traceParent == "" && e.traceState == "" then .ok ()
  else
    match E.traceError e.traceParent e.traceState with
    | none => .ok ()
    | some text => .error (errorNew
        ("event trace context mismatch at " ++ toString e.sequence ++ ": " ++ text))

/-- The checks of the event at index `i`, after one with the hash `prev`. -/
def eventCheck (planID workspaceID : String) (i : Nat) (prev : String) (e : Event) :
    Except Err Unit := do
  let fail := fun text => errorNew (text ++ toString e.sequence)
  ensure (!(e.id == "" || e.type == "" || e.planID == "" || e.workspaceID == "" ||
    e.payload.isNone || e.payloadHash == "" || e.envelopeHash == ""))
    (errorNew ("event " ++ toString (i + 1) ++ " is incomplete"))
  ensure (!(e.planID != planID || e.workspaceID != workspaceID)) (errorNew "event scope mismatch")
  ensure (e.sequence == i + 1) (fail "event sequence gap at ")
  ensure (e.previousHash == prev) (fail "event previous hash mismatch at ")
  ensure (eventDigest E e == e.envelopeHash) (fail "event envelope hash mismatch at ")
  ensure (E.payloadDigest e.payload == e.payloadHash) (fail "event payload hash mismatch at ")
  traceCheck E e

def chainFrom (planID workspaceID : String) : Nat → String → List Event → Except Err Unit
  | _, _, [] => .ok ()
  | i, prev, e :: rest => do
    eventCheck E planID workspaceID i prev e
    chainFrom planID workspaceID (i + 1) e.envelopeHash rest

def validateEventChain (events : List Event) (planID workspaceID : String) : Except Err Unit :=
  chainFrom E planID workspaceID 0 "" events

def tipHash (prev : String) (events : List Event) : String :=
  (events.getLast?.map (·.envelopeHash)).getD prev

variable {E} {planID workspaceID : String} {events : List Event} {e : Event} {d : Draft}
  {plan : RequirementExecutionPlan} {last : Option Event}

theorem Draft.event_ok (h : d.event E plan last = .ok e) :
    e.planID = plan.id ∧ e.idempotencyKey = d.key ∧ e.sequence = tailSequence last + 1 := by
  simp only [Draft.event, newEvent, bind_ok, pure_ok] at h
  obtain ⟨-, ⟨-, -, body, -, rfl⟩, rfl⟩ := h
  cases last <;> exact ⟨rfl, rfl, rfl⟩

structure Draft.Writes (E : EventHost) (plan : RequirementExecutionPlan) (d : Draft) (e : Event) :
    Prop where
  encodes : (imageFields E.short d.payload.result.fields).isSome
  payload : e.payload = some { d.payload with result := d.payload.result.image E }
  digest : e.payloadHash =
    E.payloadDigest (some { d.payload with result := d.payload.result.image E })
  type : e.type = d.type
  key : e.idempotencyKey = d.key
  planID : e.planID = plan.id
  workspaceID : e.workspaceID = plan.workspaceID
  nodeID : e.nodeID = d.nodeID
  attemptID : e.attemptID = d.attemptID
  fencingToken : e.fencingToken = d.fencingToken

theorem Draft.event_writes (h : d.event E plan last = .ok e) : d.Writes E plan e := by
  simp only [Draft.event, newEvent, bind_ok, pure_ok] at h
  obtain ⟨-, ⟨-, -, body, hbody, rfl⟩, rfl⟩ := h
  unfold Payload.marshal at hbody
  split at hbody
  · rename_i fields hfields
    cases hbody
    have himage : d.payload.result.image E = { d.payload.result with fields := fields } := by
      rw [StructuredResult.image, hfields]
      rfl
    have hsome : (imageFields E.short d.payload.result.fields).isSome := by rw [hfields]; rfl
    cases last <;> exact ⟨hsome, by rw [himage]; rfl, by rw [himage]; rfl, rfl, rfl, rfl, rfl, rfl,
      rfl, rfl⟩
  · cases hbody

theorem eventCheck_sequence (h : eventCheck E planID workspaceID i prev e = .ok u) :
    e.sequence = i + 1 := by
  simp only [eventCheck, then_ok, ensure_ok] at h
  simpa using h.2.2.1

theorem chainFrom_concat :
    chainFrom E planID workspaceID i prev (events ++ [e]) = .ok u ↔
      chainFrom E planID workspaceID i prev events = .ok u ∧
        eventCheck E planID workspaceID (i + events.length) (tipHash prev events) e = .ok u := by
  induction events generalizing i prev with
  | nil => simp [chainFrom, then_ok, tipHash]
  | cons a rest ih =>
    have htip : tipHash prev (a :: rest) = tipHash a.envelopeHash rest := by
      cases rest <;> rfl
    have hlen : i + (a :: rest).length = i + 1 + rest.length := by
      simp only [List.length_cons]; omega
    simp only [List.cons_append, chainFrom, then_ok, ih, and_assoc, htip, hlen]

/-- In a valid chain the last event's sequence is the length of the chain. -/
theorem chain_sequence (h : validateEventChain E events planID workspaceID = .ok u)
    (he : events.getLast? = some e) : e.sequence = events.length := by
  obtain ⟨front, rfl⟩ := List.getLast?_eq_some_iff.mp he
  have hlast := eventCheck_sequence (chainFrom_concat.mp h).2
  simp only [List.length_append, List.length_singleton]
  omega

theorem chainFrom_positive (h : chainFrom E planID workspaceID i prev events = .ok u) :
    ∀ e ∈ events, 0 < e.sequence := by
  induction events generalizing i prev with
  | nil => simp
  | cons a rest ih =>
    simp only [chainFrom, then_ok] at h
    have ha := eventCheck_sequence h.1
    exact List.forall_mem_cons.mpr ⟨by omega, ih h.2⟩

variable (E) (plan)

def replayStarted (p : PlanProjection) (e : Event) (x : Payload) (clock : Time) :
    Except Err PlanProjection :=
  let nodeID := if x.nodeID == "" then e.nodeID else x.nodeID
  let attemptID := if x.attemptID == "" then e.attemptID else x.attemptID
  let startedAt := if x.startedAt == 0 then e.createdAt else x.startedAt
  match startAttempt E.toHost plan p {
      nodeID, attemptID, attemptNo := x.attemptNo, lease := x.lease, envelope := x.context
      input := {
        planRevision := plan.revision, leaseToken := x.lease.fencingToken
        idempotencyKey := e.idempotencyKey, payloadHash := x.dispatchPayloadHash
        now := startedAt } } clock with
  | (.error err, _) => .error err
  | (.ok a, p) =>
    if x.childPlanID == "" then .ok p
    else .ok { p with attempts := p.attempts.insert a.id { a with childPlanID := x.childPlanID } }

def replayBound (p : PlanProjection) (e : Event) (x : Payload) : Except Err PlanProjection := do
  ensure (!(x.attemptID == "" || (e.attemptID != "" && e.attemptID != x.attemptID)))
    Sentinel.staleAttempt.err
  match p.attempts[x.attemptID]? with
  | none => throw Sentinel.staleAttempt.err
  | some a =>
    ensure (a.status == .running && e.fencingToken == a.lease.fencingToken)
      Sentinel.staleAttempt.err
    ensure (!((e.nodeID != "" && e.nodeID != a.nodeID) || x.runID == "" || x.sessionID == "" ||
      x.workDir == "")) (errorNew "attempt.bound provenance is incomplete")
    pure { p with attempts := p.attempts.insert x.attemptID { a with
      runID := x.runID, sessionID := x.sessionID, workDir := x.workDir
      childPlanID := x.childPlanID } }

def replayFinished (p : PlanProjection) (e : Event) (x : Payload) (clock : Time) :
    Except Err PlanProjection :=
  match finishAttempt E.toHost plan p x.attemptID {
      planRevision := plan.revision, leaseToken := e.fencingToken, event := x.event
      result := x.result, failure := x.failure, outputArtifacts := x.artifactIDs
      idempotencyKey := x.transitionKey.getD e.idempotencyKey
      now := if x.transitionAt == 0 then e.createdAt else x.transitionAt } clock with
  | (.error err, _) => .error err
  | (.ok _, p) => .ok p

def replayRetry (p : PlanProjection) (x : Payload) : Except Err PlanProjection :=
  match retry p x.nodeID with
  | (.error err, _) => .error err
  | (.ok _, p) => .ok p

/-- One event. A payload without bytes does not decode. -/
def replayEvent (clock : Time) (p : PlanProjection) (e : Event) : Except Err PlanProjection :=
  if e.type == "plan.created" || e.type == "plan.published" then .ok p
  else
    match e.payload with
    | none => .error (errorNew "unexpected end of JSON input")
    | some x =>
      if e.type == "attempt.started" then replayStarted E plan p e x clock
      else if e.type == "attempt.bound" then replayBound p e x
      else if e.type == "attempt.finished" then replayFinished E plan p e x clock
      else if e.type == "node.retry_requested" then replayRetry p x
      else .error (errorNew ("unsupported replay event " ++ quote e.type))

def replayProjection (events : List Event) (clock : Time) : Except Err PlanProjection := do
  let p ← newProjection plan
  validateEventChain E events plan.id plan.workspaceID
  events.foldlM (replayEvent E plan clock) p

variable {E} {plan}

/-- A longer log replays the new event on what the shorter one replays to. -/
theorem replayProjection_concat (h : replayProjection E plan events clock = .ok p)
    (hchain : validateEventChain E (events ++ [e]) plan.id plan.workspaceID = .ok u)
    (he : replayEvent E plan clock p e = .ok q) :
    replayProjection E plan (events ++ [e]) clock = .ok q := by
  simp only [replayProjection, bind_ok] at h ⊢
  obtain ⟨p₀, h₀, _, -, hp⟩ := h
  refine ⟨p₀, h₀, u, hchain, ?_⟩
  rw [List.foldlM_append, hp]
  show [e].foldlM (replayEvent E plan clock) p = .ok q
  simp [he]

end Adro.Orchestration
