import Adro.Runtime.Journal

/-!
# Tool loops on journals that share a file

`ToolLoop.Run` takes a tool call through authorization, start, intent, dispatch
and receipt, each an operation of its journal. Here a run is a worker with a
phase; a world has one file, the journals open on it and the workers on the
journals, and moves in the parts that other processes can come between: the
parts of an operation, a read of a journal's cache, the callback, and a crash of
the process that holds a journal.
-/

namespace Adro.Runtime

open Adro.Go

/-- A loop, and the call `Run` is given. -/
structure ToolRun where
  scope : Scope
  owner : String
  fencingToken : Int
  allowedTools : List String
  callID : String
  contract : ToolContract
  input : Value

inductive RunStatus
  | pending
  | blocked
  | replayed
  | reconciled
  | outcomeUnknown
  | waiting
  | finished
  | timedOut
  | failed
  deriving DecidableEq, Repr

structure ToolExecution where
  callID : String
  attempt : Nat := 1
  status : RunStatus := .pending
  reason : String := ""
  replayed : Bool := false
  output : Value := .null
  eventIDs : List String := []

/-- What the callback did: its output, or its error with the context's own error
if that was cancelled. -/
inductive Outcome
  | returned (output : Value)
  | failed (text : String) (timedOut : Bool) (cancelled : Option String)

namespace ToolRun

variable (r : ToolRun)

/-- The checks `Run` makes first. -/
def check : Except Error Unit := do
  ensure r.scope.valid (failure "scope is required")
  ensure (!blank r.callID) (failure "call_id and execute callback are required")
  ensure (!blank r.owner && r.fencingToken > 0) Sentinel.leaseLost.error
  ensure (!blank r.contract.name) (failure "tool contract name is required")
  ensure (r.contract.maxRetries ≥ 0) (failure "tool max_retries cannot be negative")
  ensure r.contract.sideEffectClass.valid (failure "valid tool side_effect_class is required")
  ensure (r.contract.sideEffectClass == .readOnly || r.contract.maxRetries ≤ 0)
    (failure "automatic retries are only supported for read_only tools")
  validateReconcilePolicy r.contract.sideEffectClass r.contract.reconcilePolicy

def policy : ReconcilePolicy :=
  if r.contract.reconcilePolicy == .unset && r.contract.sideEffectClass == .readOnly then .none
  else r.contract.reconcilePolicy

def attemptID (attempt : Nat) : String :=
  if attempt > 1 then r.callID ++ ":retry:" ++ toString (attempt - 1) else r.callID

end ToolRun

def toolInput (r : ToolRun) (callID : String) (eventType : EventType) (step : String)
    (status : Status) (payload : Value) : Input :=
  { eventType := eventType
    aggregateType := "tool"
    aggregateID := callID
    scope := r.scope
    idempotencyKey := "tool:" ++ callID ++ ":" ++ step
    writerID := r.owner
    fencingToken := r.fencingToken
    status := status
    payload := payload }

def authorizeTool (r : ToolRun) (callID : String) : Except Error Request := do
  let callID := trimSpace callID
  let name := trimSpace r.contract.name
  ensure (callID != "" && name != "") (failure "tool call id and name are required")
  ensure (!blank r.owner && r.fencingToken > 0) Sentinel.leaseLost.error
  ensure (r.allowedTools.any (trimSpace · == name)) Sentinel.unauthorized.error
  .ok (.append [toolInput r callID .toolAuthorized "authorize" .unset
    (.obj [("call_id", .str callID), ("name", .str name), ("allowed", .bool true)])])

/-- The part of `StartTool` that reads: the event there is, if it need not be appended. -/
def startTool (r : ToolRun) (callID : String) (j : Journal) : Except Error (Option Event) := do
  ensure (!blank r.owner && r.fencingToken > 0) Sentinel.leaseLost.error
  let state := j.toolStateLocked r.scope callID
  ensure state.authorized Sentinel.unauthorized.error
  ensure (!state.cancelled && !state.finished) Sentinel.conflict.error
  ensure (state.approved != some false) Sentinel.unauthorized.error
  let earlier := j.events.find? fun e =>
    (!r.scope.valid || e.scope == r.scope) && e.aggregateID == callID && e.eventType == .toolStarted
  .ok (if state.started then earlier else none)

def retryTool (r : ToolRun) (callID : String) (attempt : Nat) : Input :=
  toolInput r callID .toolRetried ("retry:" ++ toString attempt) .committed
    (.obj [("new_call_id", .str (callID ++ ":retry:" ++ toString attempt)),
      ("reason", .str "tool_execution_failed"), ("attempt", .int .int attempt)])

/-- Where a run stands: the operation, the read or the callback that comes next. -/
inductive Phase
  | authorize
  | readEffect
  | readTool (effect : EffectState)
  | start
  | starting
  | noteStart
  | intent
  | prepare
  | mark
  | execute
  | settle (outcome : Outcome)
  | retry
  | finished (err : Option Error)
  | crashed

def Phase.executing : Phase → Bool
  | .execute => true
  | _ => false

/-- A run on the journal `handle`, which waits while an operation of its is under
way. `current` is not part of the code: it is the lease the file held for the run
where the last operation took effect. -/
structure Worker where
  run : ToolRun
  handle : Nat
  attempt : Nat := 1
  phase : Phase := .authorize
  waiting : Bool := false
  result : ToolExecution
  current : Option Lease := none

namespace Worker

variable (wk : Worker)

def callID : String := wk.run.attemptID wk.attempt

def effectID : String := "tool-effect:" ++ wk.callID

def effect : EffectRef := ⟨wk.run.scope, wk.effectID, wk.run.owner, wk.run.fencingToken⟩

def intent : Intent :=
  { scope := wk.run.scope
    effectID := wk.effectID
    callID := wk.callID
    tool := wk.run.contract.name
    sideEffectClass := wk.run.contract.sideEffectClass
    policy := wk.run.policy
    input := wk.run.input
    owner := wk.run.owner
    fencingToken := wk.run.fencingToken }

def request : Option (Except Error Request) :=
  match wk.phase with
  | .authorize => some (authorizeTool wk.run wk.callID)
  | .starting =>
    some (.ok (.append [toolInput wk.run wk.callID .toolStarted "start" .pending wk.run.input]))
  | .intent => some (.ok (.commitEffectIntent wk.intent))
  | .prepare => some (.ok (.prepareEffectDispatch wk.effect))
  | .mark => some (.ok (.markEffectDispatched wk.effect))
  | .settle (.returned output) => some (.ok (.completeToolEffect wk.effect wk.callID output))
  | .settle (.failed _ timedOut _) =>
    some (.ok (.markEffectOutcomeUnknown wk.effect
      (if timedOut then "tool_timeout" else "tool_execution_failed")))
  | .retry => some (.ok (.append [retryTool wk.run wk.callID wk.attempt]))
  | _ => none

def next (phase : Phase) : Worker := { wk with phase := phase }

/-- `Run` returns. -/
def stop (status : RunStatus) (reason : String) (err : Option Error) : Worker :=
  { wk with
    phase := .finished err
    result := { wk.result with status := status, reason := reason } }

def note (e : Event) : Worker :=
  { wk with result := { wk.result with eventIDs := wk.result.eventIDs ++ [e.eventID] } }

/-- The answer to the operation of a failed callback. -/
def settled (text : String) (timedOut : Bool) (cancelled : Option String) : Worker :=
  match cancelled with
  | some reason =>
    wk.stop .outcomeUnknown "context_cancelled_after_dispatch"
      (some (Sentinel.effectOutcomeUnknown.wrap reason))
  | none =>
    if wk.run.contract.sideEffectClass == .readOnly &&
      (wk.attempt : Int) ≤ wk.run.contract.maxRetries
    then wk.next .retry
    else if wk.run.contract.sideEffectClass != .readOnly then
      wk.stop .outcomeUnknown "effect_outcome_unknown"
        (some (Sentinel.effectOutcomeUnknown.wrap text))
    else if timedOut then wk.stop .timedOut "tool_timeout" (some (failure text))
    else wk.stop .failed "tool_execution_failed" (some (Sentinel.toolExecution.wrap text))

def again : Worker :=
  let attempt := wk.attempt + 1
  { wk with
    attempt := attempt
    phase := .authorize
    result := { wk.result with callID := wk.run.attemptID attempt, attempt := attempt } }

def answered (answer : Except Error Event) : Worker :=
  let wk := { wk with waiting := false }
  match wk.phase, answer with
  | .authorize, .ok e => (wk.note e).next .readEffect
  | .authorize, .error err => wk.stop .blocked "authorization_denied" (some err)
  | .starting, .ok _ => wk.next .noteStart
  | .starting, .error err =>
    wk.stop .blocked (if err.sentinel == some .unauthorized then "approval_denied" else "")
      (some err)
  | .intent, .ok e => (wk.note e).next .prepare
  | .intent, .error err => wk.stop .blocked "effect_intent_failed" (some err)
  | .prepare, .ok e => (wk.note e).next .mark
  | .prepare, .error err => wk.stop .blocked "effect_prepare_failed" (some err)
  | .mark, .ok e => (wk.note e).next .execute
  | .mark, .error err => wk.stop .blocked "effect_dispatch_commit_failed" (some err)
  | .settle (.returned output), .ok e =>
    let wk := wk.note e
    { wk with
      phase := .finished none
      result := { wk.result with status := .finished, output := output } }
  | .settle (.returned _), .error err => wk.stop .blocked "receipt_commit_failed" (some err)
  | .settle (.failed text timedOut cancelled), .ok e => (wk.note e).settled text timedOut cancelled
  | .settle (.failed ..), .error err => wk.stop .blocked "unknown_outcome_commit_failed" (some err)
  | .retry, .ok e => (wk.note e).again
  | .retry, .error err => wk.stop .blocked "retry_commit_failed" (some err)
  | _, _ => wk

/-- `Run` returns what an earlier run has come to. -/
def replay (status : RunStatus) (reason : String) (output : Value) : Worker :=
  { wk with
    phase := .finished none
    result := { wk.result with
      status := status, reason := reason, replayed := true, output := output } }

/-- What `Run` does with the states it read. -/
def judge (effect : EffectState) (tool : ToolState) : Worker :=
  if effect.receipted then
    if tool.finished then wk.replay .replayed "tool_already_finished" wk.result.output
    else wk.next (.finished (some Sentinel.corrupt.error))
  else if effect.reconciled then
    if !tool.finished then wk.next (.finished (some Sentinel.corrupt.error))
    else wk.replay .reconciled "effect_reconciled" effect.reconcileOutput
  else if tool.finished then wk.replay .replayed "tool_already_finished" wk.result.output
  else if effect.dispatched || effect.outcomeUnknown then
    wk.stop .outcomeUnknown "effect_outcome_unknown" (some Sentinel.effectOutcomeUnknown.error)
  else if wk.run.contract.requiresApproval && tool.approved.isNone then
    wk.stop .waiting "approval_required" (some Sentinel.approvalRequired.error)
  else wk.next .start

def read (P : Platform) (j : Journal) : Worker :=
  match wk.phase with
  | .readEffect =>
    match j.effectState P wk.run.scope wk.effectID with
    | .ok effect => wk.next (.readTool effect)
    | .error err => wk.next (.finished (some err))
  | .readTool effect =>
    match j.toolState wk.run.scope wk.callID with
    | .ok tool => wk.judge effect tool
    | .error err => wk.next (.finished (some err))
  | .start =>
    match startTool wk.run wk.callID j with
    | .ok (some _) => wk.next .noteStart
    | .ok none => wk.next .starting
    | .error err =>
      wk.stop .blocked (if err.sentinel == some .unauthorized then "approval_denied" else "")
        (some err)
  | .noteStart =>
    match j.toolState wk.run.scope wk.callID with
    | .ok tool =>
      let ids := if tool.lastEventID != "" then [tool.lastEventID] else []
      { wk with
        phase := .intent
        result := { wk.result with eventIDs := wk.result.eventIDs ++ ids } }
    | .error _ => wk.next .intent
  | _ => wk

end Worker

/-- An operation whose draft waits for the file: whose it is, none being a caller
outside the loops, and whether it is written. -/
structure Pending where
  client : Option Nat
  draft : Draft
  written : Bool := false

/-- An open journal; while an operation is pending its lock is taken. -/
structure Handle where
  journal : Journal
  pending : Option Pending := none

structure Execution where
  run : ToolRun
  callID : String
  current : Option Lease

/-- The answer of an operation that succeeded, with the events it was to append
behind those it had read, or the one it found. -/
structure Answer where
  reply : Reply
  events : List Event

/-- The calls of the callback, the answers and the leases that were written, the
last first, are not part of the code. -/
structure World where
  file : Option State := none
  handles : List (Option Handle) := []
  workers : List Worker := []
  executions : List Execution := []
  answers : List Answer := []
  granted : List Lease := []

inductive Move
  | openJournal
  | run (handle : Nat) (r : ToolRun)
  | call (worker : Nat) (stamps : Nat → Stamp)
  | request (handle : Nat) (req : Request) (stamps : Nat → Stamp)
  | write (handle : Nat) (succeeds : Bool)
  | refresh (handle : Nat)
  | read (worker : Nat)
  | execute (worker : Nat) (outcome : Outcome)
  | crash (handle : Nat)

def Reply.event? : Reply → Except Error Event
  | .event e => .ok e
  | _ => .error Sentinel.conflict.error

def Reply.events : Reply → List Event
  | .event e => [e]
  | _ => []

def Reply.leases : Reply → List Lease
  | .lease l => [l]
  | _ => []

namespace World

variable (w : World)

def handle? (h : Nat) : Option Handle := w.handles[h]?.join

def setHandle (h : Nat) (handle : Handle) : World :=
  { w with handles := w.handles.set h (some handle) }

def modifyWorker (i : Nat) (f : Worker → Worker) : World :=
  { w with workers := w.workers.modify i f }

def lease (scope : Scope) : Option Lease := w.file.bind fun st => st.leases[scope.leaseKey]?

def mark : Option Nat → World
  | some i => w.modifyWorker i fun wk => { wk with current := w.lease wk.run.scope }
  | none => w

def await : Option Nat → World
  | some i => w.modifyWorker i fun wk => { wk with waiting := true }
  | none => w

def deliver (answer : Except Error Reply) (events : List Event) (client : Option Nat) : World :=
  let w := match answer with
    | .ok reply => { w with answers := ⟨reply, events⟩ :: w.answers }
    | .error _ => w
  match client with
  | some i => w.modifyWorker i fun wk => wk.answered (answer >>= Reply.event?)
  | none => w

end World

namespace World

variable (P : Platform) (w : World)

def start (h : Nat) (client : Option Nat) (req : Request) (stamps : Nat → Stamp) : World :=
  match w.handle? h with
  | some ⟨j, none⟩ =>
    match j.reloadLocked P w.file with
    | .error err => w.deliver (.error err) [] client
    | .ok j =>
      match j.draft P stamps req with
      | .error err => (w.setHandle h ⟨j, none⟩).deliver (.error err) [] client
      | .ok (.inl reply) =>
        ((w.setHandle h ⟨j, none⟩).mark client).deliver (.ok reply) reply.events client
      | .ok (.inr draft) => (w.setHandle h ⟨j, some ⟨client, draft, false⟩⟩).await client
  | _ => w

/-- The file is replaced by the draft of the journal's pending operation. A
release reads nothing afterwards. -/
def write (h : Nat) (succeeds : Bool) : World :=
  match w.handle? h with
  | some ⟨j, some ⟨client, draft, false⟩⟩ =>
    match j.candidateLocked P w.file draft with
    | .error err => (w.setHandle h ⟨j, none⟩).deliver (.error err) [] client
    | .ok (j, final) =>
      if !succeeds then (w.setHandle h ⟨j, none⟩).deliver
        (.error (failure "write failed")) [] client
      else
        let written := { j with revision := j.revision + 1 }
        let after :=
          { w.mark client with
            file := some (j.contents final)
            granted := draft.reply.leases ++ w.granted }
        match draft.kind with
        | .release =>
          (after.setHandle h ⟨written.adopt draft, none⟩).deliver (.ok draft.reply) [] client
        | _ => after.setHandle h ⟨written, some ⟨client, draft, true⟩⟩
  | _ => w

def refresh (h : Nat) : World :=
  match w.handle? h with
  | some ⟨j, some ⟨client, draft, true⟩⟩ =>
    match Journal.reloadFromDiskLocked P w.file with
    | .error err => (w.setHandle h ⟨j.adopt draft, none⟩).deliver (.error err) [] client
    | .ok j => (w.setHandle h ⟨j, none⟩).deliver draft.answer draft.events client
  | _ => w

/-- A worker goes on with an operation of its journal. -/
def call (i : Nat) (stamps : Nat → Stamp) : World :=
  match w.workers[i]? with
  | some wk =>
    if wk.waiting then w
    else match wk.request with
      | some (.ok req) => w.start P wk.handle (some i) req stamps
      | some (.error err) => w.deliver (.error err) [] (some i)
      | none => w
  | none => w

def read (i : Nat) : World :=
  match w.workers[i]? with
  | some wk =>
    match w.handle? wk.handle with
    | some ⟨j, none⟩ => w.modifyWorker i fun wk => wk.read P j
    | _ => w
  | none => w

def execute (i : Nat) (outcome : Outcome) : World :=
  match w.workers[i]? with
  | some wk =>
    if wk.phase.executing then
      { w.modifyWorker i fun wk => wk.next (.settle outcome) with
        executions := ⟨wk.run, wk.callID, wk.current⟩ :: w.executions }
    else w
  | none => w

def crash (h : Nat) : World :=
  { w with
    handles := w.handles.set h none
    workers := w.workers.map fun wk =>
      if wk.handle = h then { wk with phase := .crashed, waiting := false } else wk }

def move : Move → World
  | .openJournal =>
    match Journal.opened P w.file with
    | .ok j => { w with handles := w.handles ++ [some ⟨j, none⟩] }
    | .error _ => w
  | .run h r =>
    match r.check with
    | .ok _ => { w with
        workers := w.workers ++ [{ run := r, handle := h, result := { callID := r.callID } }] }
    | .error _ => w
  | .call i stamps => w.call P i stamps
  | .request h req stamps => w.start P h none req stamps
  | .write h succeeds => w.write P h succeeds
  | .refresh h => w.refresh P h
  | .read i => w.read P i
  | .execute i outcome => w.execute i outcome
  | .crash h => w.crash h

end World

end Adro.Runtime
