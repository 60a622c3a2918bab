import Adro.Runtime.Model

/-!
# The operations of a journal

An operation that writes runs under the journal's own lock, in three parts. It
reloads the journal from the file if the file is ahead, checks what it was asked
against that and drafts the contents to write (`Journal.draft`). It then takes
the lock of the file and writes the draft over what the file holds by then
(`Journal.candidateLocked`), adding its own events behind those of a peer.
Last it reads the file again. Peers may write the file between the parts.
-/

namespace Adro.Runtime

open Adro.Go

variable (P : Platform)

def Event.sealed (e : Event) : Event :=
  { e with envelopeHash := P.envelopeDigest { e with envelopeHash := "" } }

/-- The checks of one event at its place in the list. -/
def Event.sound (e : Event) (sequence : Nat) (previous : String) : Bool :=
  e.eventID != "" && e.schemaVersion == Runtime.schemaVersion && e.sequence == sequence &&
    e.scope.valid &&
    e.eventType.text != "" && e.aggregateType != "" && e.aggregateID != "" &&
    e.previousHash == previous && some e.payloadHash == P.payloadDigest e.payload &&
    e.envelopeHash == P.envelopeDigest { e with envelopeHash := "" }

def validateFrom : Nat → String → List String → List Event → Except Error Unit
  | _, _, _, [] => .ok ()
  | n, previous, seen, e :: es => do
    ensure (e.sound P n previous) (Sentinel.corrupt.wrap ("event sequence " ++ toString n))
    ensure (!seen.contains e.eventID) (Sentinel.corrupt.wrap ("duplicate event " ++ e.eventID))
    validateFrom (n + 1) e.envelopeHash (e.eventID :: seen) es

def validateEvents (events : List Event) : Except Error Unit := validateFrom P 1 "" [] events

def validateState (st : State) : Except Error Unit := do
  ensure (st.version == 0 || st.version == schemaVersion)
    (Sentinel.corrupt.wrap ("unsupported version " ++ toString st.version))
  validateEvents P st.events

namespace Journal

variable (j : Journal)

/-- `NewJournal` on the path of a file, which may not exist yet. -/
def opened : Option State → Except Error Journal
  | none => .ok {}
  | some st => do
    validateState P st
    .ok ⟨st.revision, st.events, st.leases, st.effects⟩

/-- A map that the file does not hold leaves the journal's own in place. -/
def reloadLocked : Option State → Except Error Journal
  | none => .ok j
  | some st => do
    validateState P st
    .ok <| if st.revision ≤ j.revision then j
      else
        { revision := st.revision
          events := st.events
          leases := if st.leases.isEmpty then j.leases else st.leases
          effects := if st.effects.isEmpty then j.effects else st.effects }

def reloadFromDiskLocked : Option State → Except Error Journal
  | none => .error (failure "no such file or directory")
  | some st => do
    validateState P st
    .ok ⟨st.revision, st.events, st.leases, st.effects⟩

end Journal

def ToolState.after (s : ToolState) (e : Event) : ToolState :=
  let s := { s with lastEventID := e.eventID }
  match e.eventType with
  | .toolAuthorized =>
    let name := textMember e.payload "name"
    { s with authorized := e.status != .rejected, name := if name != "" then name else s.name }
  | .toolStarted => { s with started := true, attempts := s.attempts + 1 }
  | .toolApproved => { s with approved := some (textMember e.payload "decision" == "approved") }
  | .toolFinished => { s with finished := true }
  | .toolFailed => { s with reasonCode := "tool_execution_failed" }
  | .toolCancelled => { s with cancelled := true }
  | .toolRetried => { s with attempts := s.attempts + 1 }
  | _ => s

def EffectState.after (s : EffectState) (e : Event) : EffectState :=
  let s := { s with lastEventID := e.eventID }
  match e.eventType with
  | .effectIntent =>
    let sideEffectClass := EffectClass.ofText (textMember e.payload "effect_class")
    let policy := ReconcilePolicy.ofText (textMember e.payload "reconcile_policy")
    { s with
      intentCommitted := true
      toolCallID := textMember e.payload "call_id"
      sideEffectClass := sideEffectClass
      reconcilePolicy :=
        if policy == .unset then reconcilePolicyForClass sideEffectClass else policy }
  | .effectPrepared => { s with dispatchPrepared := true }
  | .effectDispatched => { s with dispatched := true }
  | .effectReceipted => { s with receipted := true, outcomeUnknown := false }
  | .effectUnknown => { s with outcomeUnknown := true }
  | .effectReconciled =>
    { s with
      reconciled := true
      outcomeUnknown := false
      reconcileDecision := textMember e.payload "decision"
      reconcileOutput := ((member e.payload "output").map P.decoded).getD .null }
  | _ => s

def Event.ofTool (scope : Scope) (callID : String) (e : Event) : Bool :=
  e.scope == scope && e.aggregateID == callID

def Event.ofEffect (scope : Scope) (effectID : String) (e : Event) : Bool :=
  e.scope == scope && e.aggregateType == "effect" && e.aggregateID == effectID

namespace Journal

variable (j : Journal)

def toolStateLocked (scope : Scope) (callID : String) : ToolState :=
  (j.events.filter (Event.ofTool scope callID)).foldl ToolState.after {}

def effectStateLocked (scope : Scope) (effectID : String) : EffectState :=
  (j.events.filter (Event.ofEffect scope effectID)).foldl (EffectState.after P) {}

def toolState (scope : Scope) (callID : String) : Except Error ToolState := do
  ensure (scope.valid && !blank callID) (failure "scope and call_id are required")
  .ok (j.toolStateLocked scope (trimSpace callID))

def effectState (scope : Scope) (effectID : String) : Except Error EffectState := do
  ensure (scope.valid && !blank effectID) (failure "scope and effect_id are required")
  .ok (j.effectStateLocked P scope (trimSpace effectID))

end Journal

/-- What a new event takes from outside: its id, and the clock where the lease
is checked and where the event is made. -/
structure Stamp where
  eventID : String
  checkedAt : Time
  createdAt : Time

def Input.completed (input : Input) : Input :=
  { input with
    eventType := input.eventType.trimmed
    aggregateType := trimSpace input.aggregateType
    aggregateID := trimSpace input.aggregateID
    writerID := if input.writerID == "" then "local" else input.writerID
    status := if input.status == .unset then .committed else input.status }

def Input.check (input : Input) : Except Error Unit := do
  ensure input.scope.valid (failure "tenant_id, workspace_id, session_id and run_id are required")
  ensure (input.eventType.text != "" && input.aggregateType != "" && input.aggregateID != "")
    (failure "event_type, aggregate_type and aggregate_id are required")
  ensure input.status.known (failure "invalid runtime event status")

def Event.hasKey (input : Input) (prior : Event) : Bool :=
  input.idempotencyKey != "" && prior.idempotencyKey == input.idempotencyKey &&
    prior.scope == input.scope

/-- The owner and token are those of a lease that has not run out. -/
def Lease.grants (lease : Lease) (owner : String) (token : Int) (now : Time) : Bool :=
  lease.owner == owner && lease.fencingToken == token && lease.expiresAt > now

def Input.event (input : Input) (existing : List Event) (payloadHash : String) (stamp : Stamp) :
    Event :=
  Event.sealed P
    { eventID := stamp.eventID
      schemaVersion := schemaVersion
      sequence := existing.length + 1
      eventType := input.eventType
      aggregateType := input.aggregateType
      aggregateID := input.aggregateID
      scope := input.scope
      correlationID := input.correlationID
      causationID := input.causationID
      idempotencyKey := input.idempotencyKey
      writerID := input.writerID
      fencingToken := input.fencingToken
      status := input.status
      payload := input.payload
      payloadHash := payloadHash
      previousHash := (existing.getLast?.map (·.envelopeHash)).getD ""
      createdAt := stamp.createdAt
      committedAt := stamp.createdAt }

def encoded (payload : Value) (what : String) : Except Error String :=
  match P.payloadDigest payload with
  | some hash => .ok hash
  | none => .error (failure ("encode " ++ what))

namespace Journal

variable (j : Journal)

def leased (scope : Scope) (owner : String) (token : Int) (now : Time) : Bool :=
  j.leases[scope.leaseKey]?.any (·.grants owner token now)

/-- An event with the key of the request is its answer, and the lease is not
asked for then. -/
def prepareLocked (existing : List Event) (input : Input) (stamp : Stamp) : Except Error Event := do
  let input := input.completed
  input.check
  let payloadHash ← encoded P input.payload "runtime payload"
  match existing.find? (Event.hasKey input) with
  | some prior =>
    ensure (prior.payloadHash == payloadHash && prior.eventType == input.eventType &&
      prior.aggregateID == input.aggregateID) Sentinel.idempotencyConflict.error
    .ok prior
  | none =>
    ensure (input.fencingToken ≤ 0 ||
      j.leased input.scope input.writerID input.fencingToken stamp.checkedAt)
        Sentinel.leaseLost.error
    .ok (input.event P existing payloadHash stamp)

/-- The events of a batch behind those there are, and the event of its last input. -/
def draftBatch (stamps : Nat → Stamp) : Nat → List Event → Option Event → List Input →
    Except Error (List Event × Option Event)
  | _, candidate, last, [] => .ok (candidate, last)
  | n, candidate, _, input :: inputs => do
    let event ← j.prepareLocked P candidate input (stamps n)
    draftBatch stamps (n + 1)
      (if candidate.any (·.eventID == event.eventID) then candidate else candidate ++ [event])
      (some event) inputs

end Journal

structure EffectRef where
  scope : Scope
  effectID : String
  owner : String
  fencingToken : Int

structure Intent where
  scope : Scope
  effectID : String
  callID : String
  tool : String
  sideEffectClass : EffectClass
  policy : ReconcilePolicy
  input : Value
  owner : String
  fencingToken : Int

inductive Request
  | append (inputs : List Input)
  | commitEffectIntent (intent : Intent)
  | prepareEffectDispatch (effect : EffectRef)
  | markEffectDispatched (effect : EffectRef)
  | markEffectOutcomeUnknown (effect : EffectRef) (reason : String)
  | completeToolEffect (effect : EffectRef) (callID : String) (output : Value)
  | reconcileEffect (effect : EffectRef) (callID decision : String) (output : Value)
  | acquireLease (scope : Scope) (owner : String) (ttl : Duration) (now clock : Time)
  | releaseLease (scope : Scope) (owner : String) (token : Int) (clock : Time)

inductive Reply
  | event (e : Event)
  | lease (l : Lease)
  | done

inductive DraftKind
  | batch
  | intent
  | acquire
  | release
  deriving DecidableEq, Repr

structure Draft where
  kind : DraftKind
  events : List Event
  leases : GoMap Lease
  effects : GoMap String
  reply : Reply

def EffectRef.input (effect : EffectRef) (eventType : EventType) (step : String) (status : Status)
    (payload : Value) : Input :=
  { eventType := eventType
    aggregateType := "effect"
    aggregateID := effect.effectID
    scope := effect.scope
    idempotencyKey := "effect:" ++ effect.effectID ++ ":" ++ step
    writerID := effect.owner
    fencingToken := effect.fencingToken
    status := status
    payload := payload }

def EffectRef.name (effect : EffectRef) : Value := .obj [("effect_id", .str effect.effectID)]

namespace Intent

variable (i : Intent)

def trimmed : Intent :=
  { i with
    effectID := trimSpace i.effectID
    callID := trimSpace i.callID
    tool := trimSpace i.tool }

def check : Except Error Unit := do
  ensure (i.effectID != "" && i.callID != "" && i.tool != "" && i.sideEffectClass.valid)
    (failure "effect_id, call_id, tool and valid effect_class are required")
  validateReconcilePolicy i.sideEffectClass i.policy
  ensure (!blank i.owner && i.fencingToken > 0) Sentinel.leaseLost.error

def payload (inputDigest : String) : Value :=
  .obj [("effect_id", .str i.effectID), ("call_id", .str i.callID), ("tool", .str i.tool),
    ("effect_class", .str i.sideEffectClass.text), ("reconcile_policy", .str i.policy.text),
    ("input_digest", .str inputDigest)]

def event (inputDigest : String) : Input :=
  { eventType := .effectIntent
    aggregateType := "effect"
    aggregateID := i.effectID
    scope := i.scope
    idempotencyKey := "effect:" ++ i.effectID ++ ":intent"
    writerID := i.owner
    fencingToken := i.fencingToken
    status := .pending
    payload := i.payload inputDigest }

end Intent

namespace Journal

variable (j : Journal)

section

variable (stamps : Nat → Stamp) (effect : EffectRef)

def appendBatchLocked (inputs : List Input) : Except Error (Reply ⊕ Draft) := do
  let (events, last) ← j.draftBatch P stamps 0 j.events none inputs
  .ok (.inr ⟨.batch, events, j.leases, j.effects, last.elim .done .event⟩)

def commitEffectIntentLocked (intent : Intent) : Except Error (Reply ⊕ Draft) := do
  let intent := intent.trimmed
  intent.check
  let inputDigest ← encoded P intent.input "effect input"
  let key := scopedKey intent.scope intent.effectID
  let id := j.effects[key]?.getD ""
  if id == "" then
    let event ← j.prepareLocked P j.events (intent.event inputDigest) (stamps 0)
    .ok (.inr ⟨.intent, j.events ++ [event], j.leases, j.effects.insert key event.eventID,
      .event event⟩)
  else
    match j.events.find? (·.eventID == id) with
    | some event =>
      ensure (P.payloadDigest (intent.payload inputDigest) == some event.payloadHash)
        Sentinel.idempotencyConflict.error
      .ok (.inl (.event event))
    | none => .error Sentinel.corrupt.error

def prepareEffectDispatchLocked : Except Error (Reply ⊕ Draft) := do
  let state := j.effectStateLocked P effect.scope effect.effectID
  ensure (state.intentCommitted && !state.dispatched && !state.receipted && !state.outcomeUnknown &&
    !state.reconciled) Sentinel.conflict.error
  j.appendBatchLocked P stamps [effect.input .effectPrepared "prepare" .pending effect.name]

/-- An effect that is dispatched already is answered with that event, whoever asks. -/
def markEffectDispatchedLocked : Except Error (Reply ⊕ Draft) := do
  let state := j.effectStateLocked P effect.scope effect.effectID
  ensure (state.dispatchPrepared && !state.receipted && !state.outcomeUnknown && !state.reconciled)
    Sentinel.conflict.error
  let earlier := j.events.find? fun e =>
    e.aggregateType == "effect" && e.aggregateID == effect.effectID &&
      e.eventType == .effectDispatched
  match state.dispatched, earlier with
  | true, some event => .ok (.inl (.event event))
  | _, _ =>
    j.appendBatchLocked P stamps [effect.input .effectDispatched "dispatch" .pending effect.name]

def markEffectOutcomeUnknownLocked (reason : String) : Except Error (Reply ⊕ Draft) := do
  let state := j.effectStateLocked P effect.scope effect.effectID
  ensure (state.dispatched && !state.receipted && !state.reconciled) Sentinel.conflict.error
  let reason := if blank reason then "dispatch_outcome_unknown" else reason
  j.appendBatchLocked P stamps [effect.input .effectUnknown "unknown" .recoveryNeeded
    (.obj [("effect_id", .str effect.effectID), ("reason_code", .str reason)])]

def completeToolEffectLocked (callID : String) (output : Value) : Except Error (Reply ⊕ Draft) := do
  let state := j.effectStateLocked P effect.scope effect.effectID
  let tool := j.toolStateLocked effect.scope callID
  ensure (state.dispatched && !state.outcomeUnknown && !state.receipted && !state.reconciled &&
    tool.started && !tool.cancelled && !tool.finished) Sentinel.conflict.error
  j.appendBatchLocked P stamps
    [effect.input .effectReceipted "receipt" .committed output,
      { eventType := .toolFinished
        aggregateType := "tool"
        aggregateID := callID
        scope := effect.scope
        idempotencyKey := "tool:" ++ callID ++ ":finish"
        writerID := effect.owner
        fencingToken := effect.fencingToken
        status := .committed
        payload := output }]

/-- An effect that is reconciled already is answered with the first such event if
that has the decision. -/
def reconcileEffectLocked (callID decision : String)
    (output : Value) : Except Error (Reply ⊕ Draft) := do
  let effect := { effect with effectID := trimSpace effect.effectID }
  let callID := trimSpace callID
  let decision := P.lower (trimSpace decision)
  ensure (effect.effectID != "" && callID != "" && decision != "")
    (failure "effect_id, call_id and reconciliation decision are required")
  ensure (!blank effect.owner && effect.fencingToken > 0) Sentinel.leaseLost.error
  let state := j.effectStateLocked P effect.scope effect.effectID
  let tool := j.toolStateLocked effect.scope callID
  if state.reconciled then
    match j.events.find? fun e =>
      e.ofEffect effect.scope effect.effectID && e.eventType == .effectReconciled with
    | some event =>
      ensure (textMember event.payload "decision" == decision) Sentinel.idempotencyConflict.error
      .ok (.inl (.event event))
    | none => .error Sentinel.corrupt.error
  else
    ensure (state.intentCommitted && state.dispatched && !state.receipted && tool.started &&
      !tool.finished && !tool.cancelled && state.outcomeUnknown) Sentinel.conflict.error
    ensure (state.reconcilePolicy.allows decision)
      (Sentinel.conflict.wrap ("decision " ++ quote decision ++ " is not allowed by policy " ++
        quote state.reconcilePolicy.text))
    j.appendBatchLocked P stamps
      [effect.input .effectReconciled "reconciled" .committed
          (.obj [("effect_id", .str effect.effectID), ("decision", .str decision),
            ("output", output)]),
        { eventType := .toolFinished
          aggregateType := "tool"
          aggregateID := callID
          scope := effect.scope
          idempotencyKey := "tool:" ++ callID ++ ":reconciled"
          writerID := effect.owner
          fencingToken := effect.fencingToken
          status := .committed
          payload := output }]

def acquireLeaseLocked (scope : Scope) (owner : String) (ttl : Duration) (now : Time) :
    Except Error (Reply ⊕ Draft) := do
  let held := j.leases[scope.leaseKey]?
  ensure (!held.any fun lease => lease.expiresAt > now && lease.owner != owner)
    Sentinel.leaseBusy.error
  let lease : Lease :=
    { key := scope.leaseKey
      owner := owner
      fencingToken := i64 ((held.map (·.fencingToken)).getD 0 + 1)
      expiresAt := now + ttl
      updatedAt := now }
  .ok (.inr ⟨.acquire, j.events, j.leases.insert scope.leaseKey lease, j.effects, .lease lease⟩)

def releaseLeaseLocked (scope : Scope) (owner : String) (token : Int) (clock : Time) :
    Except Error (Reply ⊕ Draft) := do
  ensure (j.leased scope owner token clock) Sentinel.leaseLost.error
  .ok (.inr ⟨.release, j.events, j.leases.erase scope.leaseKey, j.effects, .done⟩)

/-- The checks and the draft of a request, on a journal just reloaded. Those of
the checks that come before the lock is taken do not read the journal. -/
def draft : Request → Except Error (Reply ⊕ Draft)
  | .append inputs => do
    ensure (!inputs.isEmpty) (failure "at least one runtime event is required")
    j.appendBatchLocked P stamps inputs
  | .commitEffectIntent intent => j.commitEffectIntentLocked P stamps intent
  | .prepareEffectDispatch effect => j.prepareEffectDispatchLocked P stamps effect
  | .markEffectDispatched effect => j.markEffectDispatchedLocked P stamps effect
  | .markEffectOutcomeUnknown effect reason =>
      j.markEffectOutcomeUnknownLocked P stamps effect reason
  | .completeToolEffect effect callID output =>
      j.completeToolEffectLocked P stamps effect callID output
  | .reconcileEffect effect callID decision output =>
    j.reconcileEffectLocked P stamps effect callID decision output
  | .acquireLease scope owner ttl now clock => do
    ensure (scope.valid && !blank owner && ttl > 0)
      (failure "scope, owner and positive ttl are required")
    j.acquireLeaseLocked scope owner ttl (if now.isZero then clock else now)
  | .releaseLease scope owner token clock => j.releaseLeaseLocked scope owner token clock

end

end Journal

/-- The events of a draft behind those a peer has written. -/
def relinked : Nat → String → List Event → List Event
  | _, _, [] => []
  | n, previous, e :: es =>
    let e := Event.sealed P { e with sequence := n, previousHash := previous }
    e :: relinked (n + 1) e.envelopeHash es

def merged {α : Type} (disk own : GoMap α) : GoMap α := if disk.isEmpty then own else disk ∪ own

def agrees (mine theirs : List Event) : Bool :=
  (mine.zip theirs).all fun (e, e') => e'.eventID == e.eventID && e'.envelopeHash == e.envelopeHash

namespace Journal

variable (j : Journal)

/-- The draft and the journal once they are brought up to the file. -/
def rebase (st : State) (draft : Draft) : Except Error (Journal × Draft) := do
  ensure (decide (j.events.length ≤ st.events.length))
    (Sentinel.conflict.wrap ("expected revision " ++ toString j.revision ++ ", found " ++
      toString st.revision))
  ensure (agrees j.events st.events) (Sentinel.conflict.wrap "peer event history diverged")
  let behind := j.events.length < st.events.length
  let suffix := relinked P (st.events.length + 1)
    ((st.events.getLast?.map (·.envelopeHash)).getD "") (draft.events.drop j.events.length)
  .ok ({ j with
      revision := st.revision
      events := if behind then st.events else j.events },
    { draft with
      events := if behind then st.events ++ suffix else draft.events
      leases := merged st.leases draft.leases
      effects := merged st.effects draft.effects })

/-- `persistCandidateLocked` under the lock of the file, up to the write. -/
def candidateLocked (file : Option State) (draft : Draft) : Except Error (Journal × Draft) := do
  let revision ← match file with
    | none => .ok 0
    | some st => do validateState P st; .ok st.revision
  if revision == j.revision then .ok (j, draft)
  else match file with
    | none => .error (failure "no such file or directory")
    | some st => j.rebase P st draft

/-- The contents `persistCandidateLocked` writes. -/
def contents (draft : Draft) : State :=
  { version := schemaVersion
    revision := j.revision + 1
    events := draft.events
    leases := draft.leases
    effects := draft.effects }

/-- What an operation leaves in the journal besides the revision, before the file
is read again. -/
def adopt (draft : Draft) : Journal :=
  match draft.kind with
  | .batch => j
  | .intent => { j with events := draft.events, effects := draft.effects }
  | .acquire | .release => { j with leases := draft.leases }

end Journal

/-- The answer to a draft that is written and read back. -/
def Draft.answer (draft : Draft) : Except Error Reply :=
  match draft.kind, draft.reply with
  | .batch, .event e => do ensure (e.eventID != "") Sentinel.conflict.error; .ok (.event e)
  | .batch, _ => .error Sentinel.conflict.error
  | _, reply => .ok reply

end Adro.Runtime
