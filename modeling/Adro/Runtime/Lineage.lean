import Adro.Runtime.Shared

/-!
# Lineages of retried calls

The loop counts its attempts from the id it was called with, while `RetryTool`
puts the number behind the id of the attempt that failed. For the first retry the
two agree. From the second on, the id that the journal names next is not the one
the loop goes on with.
-/

namespace Adro.Runtime

open Adro.Go Adro.Runs

/-- What a run goes on with: the answer to its operation, what it reads from its
journal, or what the callback did. -/
inductive Turn
  | answer (answer : Except Error Event)
  | read (j : Journal)
  | execute (outcome : Outcome)

def Worker.turn (P : Platform) (wk : Worker) : Turn → Worker
  | .answer answer => wk.answered answer
  | .read j => wk.read P j
  | .execute outcome => if wk.phase.executing then wk.next (.settle outcome) else wk

/-- A run with the retries it has recorded and the ids of the attempts it has made;
each operation of an attempt is made under that id. -/
structure Lineage where
  worker : Worker
  retries : List Input := []
  attempts : List String

def Lineage.begun (r : ToolRun) (handle : Nat) : Lineage where
  worker := { run := r, handle, result := { callID := r.callID } }
  attempts := [r.callID]

def Phase.retrying : Phase → Bool
  | .retry => true
  | _ => false

/-- The turn answers the operation that records a retry. -/
def Lineage.records (s : Lineage) : Turn → Bool
  | .answer (.ok _) => s.worker.phase.retrying
  | _ => false

def Lineage.step (P : Platform) (s : Lineage) (t : Turn) : Lineage :=
  let worker := s.worker.turn P t
  if s.records t then
    { worker
      retries := s.retries ++ [retryTool s.worker.run s.worker.callID s.worker.attempt]
      attempts := s.attempts ++ [worker.callID] }
  else { s with worker }

def Input.newCallID (i : Input) : String := textMember i.payload "new_call_id"

/-- The ids that the recorded links lead through, at most `n` of them after the first. -/
def follow (retries : List Input) : Nat → String → List String
  | 0, id => [id]
  | n + 1, id =>
    match retries.find? (·.aggregateID == id) with
    | some i => id :: follow retries n i.newCallID
    | none => [id]

/-- Every recorded id is that of the next attempt, and the links lead from the first
call through the attempts that were made. -/
def Lineage.Truthful (s : Lineage) : Prop :=
  s.retries.map Input.newCallID = s.attempts.tail ∧
    follow s.retries s.retries.length s.worker.run.callID = s.attempts

instance (s : Lineage) : Decidable s.Truthful := by
  unfold Lineage.Truthful
  infer_instance

variable {P : Platform} {r : ToolRun} {s : Lineage} {t : Turn} {n : Nat}

theorem settled_keeps (wk : Worker) (text : String) (timedOut : Bool) (cancelled : Option String) :
    (wk.settled text timedOut cancelled).run = wk.run ∧
      (wk.settled text timedOut cancelled).attempt = wk.attempt := by
  unfold Worker.settled
  repeat' split
  all_goals exact ⟨rfl, rfl⟩

/-- Only a recorded retry changes the attempt. -/
theorem answered_attempt (wk : Worker) (answer : Except Error Event) :
    (wk.answered answer).run = wk.run ∧
      (wk.answered answer).attempt =
        if answer.isOk && wk.phase.retrying then wk.attempt + 1 else wk.attempt := by
  obtain ⟨run, handle, attempt, phase, waiting, result, current⟩ := wk
  cases phase with
  | settle outcome =>
    cases outcome with
    | returned output => cases answer <;> exact ⟨rfl, rfl⟩
    | failed text timedOut cancelled =>
      cases answer with
      | error err => exact ⟨rfl, rfl⟩
      | ok e => exact settled_keeps _ text timedOut cancelled
  | _ => cases answer <;> exact ⟨rfl, rfl⟩

theorem turn_attempt (P : Platform) (s : Lineage) (t : Turn) :
    (s.worker.turn P t).run = s.worker.run ∧
      (s.worker.turn P t).attempt =
        if s.records t then s.worker.attempt + 1 else s.worker.attempt := by
  cases t with
  | answer answer =>
    have h := answered_attempt s.worker answer
    cases answer <;> exact h
  | read j =>
    show (s.worker.read P j).run = s.worker.run ∧ (s.worker.read P j).attempt = s.worker.attempt
    unfold Worker.read Worker.judge
    repeat' split
    all_goals exact ⟨rfl, rfl⟩
  | execute outcome =>
    simp only [Worker.turn]
    split <;> exact ⟨rfl, rfl⟩

/-- A run that has recorded `n` retries. -/
structure Retried (r : ToolRun) (n : Nat) (s : Lineage) : Prop where
  run : s.worker.run = r
  attempt : s.worker.attempt = n + 1
  retries : s.retries = (List.range n).map fun i => retryTool r (r.attemptID (i + 1)) (i + 1)
  attempts : s.attempts = (List.range (n + 1)).map fun i => r.attemptID (i + 1)

theorem Retried.step (h : Retried r n s) (t : Turn) :
    Retried r (if s.records t then n + 1 else n) (s.step P t) := by
  obtain ⟨hrun, hattempt⟩ := turn_attempt P s t
  rw [h.run] at hrun
  rw [h.attempt] at hattempt
  unfold Lineage.step
  split at hattempt
  · rename_i hrecords
    simp only [hrecords, if_true]
    refine ⟨hrun, hattempt, ?_, ?_⟩
    · rw [List.range_succ, List.map_append, ← h.retries, Worker.callID, h.run, h.attempt]
      rfl
    · have hid : (s.worker.turn P t).callID = r.attemptID (n + 2) := by
        rw [Worker.callID, hrun, hattempt]
      rw [List.range_succ, List.map_append, ← h.attempts, hid]
      rfl
  · rename_i hrecords
    simp only [hrecords]
    exact ⟨hrun, hattempt, h.retries, h.attempts⟩

theorem newCallID_retryTool (id : String) :
    (retryTool r id n).newCallID = id ++ ":retry:" ++ toString n := rfl

theorem Retried.truthful (h : Retried r n s) : s.Truthful ↔ n ≤ 1 := by
  unfold Lineage.Truthful
  rw [h.retries, h.attempts, h.run]
  match n with
  | 0 => exact iff_of_true ⟨rfl, rfl⟩ (by omega)
  | 1 =>
    refine iff_of_true ⟨rfl, ?_⟩ (by omega)
    simp [follow, List.range_succ, retryTool, toolInput, Input.newCallID, ToolRun.attemptID]
    rfl
  | n + 2 =>
    refine iff_of_false (fun htruth => ?_) (by omega)
    -- The second link starts from the first retry, the third attempt from the call.
    have hsecond := congrArg (·[1]?) htruth.1
    simp [newCallID_retryTool, ToolRun.attemptID] at hsecond
    have hlen := congrArg String.length hsecond
    simp only [String.length_append] at hlen
    have hretry : ":retry:".length = 7 := rfl
    omega

theorem meets_truthful_iff (h : Retried r n s) (hn : n ≤ 1) (turns : List Turn) :
    Meets (Lineage.step P) (fun s t => (s.step P t).Truthful) s turns ↔
      Meets (Lineage.step P) (fun s t => s.records t = true → s.worker.attempt = 1) s turns := by
  induction turns generalizing s n with
  | nil => exact Iff.rfl
  | cons t turns ih =>
    have hstep := h.step (P := P) t
    have hok : (s.step P t).Truthful ↔ (s.records t = true → s.worker.attempt = 1) := by
      rw [hstep.truthful, h.attempt]
      split <;> simp_all
    simp only [Meets]
    rw [← hok]
    exact and_congr_right fun htruthful => ih hstep (hstep.truthful.mp htruthful)

/-- A run keeps its lineage truthful exactly as long as it retries the first attempt
only. -/
theorem lineage_truthful_iff (P : Platform) (r : ToolRun) (handle : Nat) (turns : List Turn) :
    Meets (Lineage.step P) (fun s t => (s.step P t).Truthful) (.begun r handle) turns ↔
      Meets (Lineage.step P) (fun s t => s.records t = true → s.worker.attempt = 1)
        (.begun r handle) turns :=
  meets_truthful_iff (n := 0) ⟨rfl, rfl, rfl, rfl⟩ (by omega) turns

def probeRun : ToolRun where
  scope := Sample.scope
  owner := "owner"
  fencingToken := 1
  allowedTools := ["probe"]
  callID := "call"
  contract := { name := "probe", sideEffectClass := .readOnly, maxRetries := 2 }
  input := .null

def authorizedEvent (callID : String) : Event where
  eventID := "event"
  schemaVersion := schemaVersion
  sequence := 1
  eventType := .toolAuthorized
  aggregateType := "tool"
  aggregateID := callID
  scope := Sample.scope
  writerID := "owner"
  fencingToken := 1
  status := .committed
  payload := .null
  payloadHash := ""
  previousHash := ""
  createdAt := 1
  committedAt := 1

/-- An attempt whose callback fails and whose retry is recorded. -/
def failingAttempt (callID : String) : List Turn :=
  let ok := Turn.answer (.ok (authorizedEvent callID))
  let read := Turn.read { events := [authorizedEvent callID] }
  [ok, read, read, read, ok, read, ok, ok, ok, .execute (.failed "error" false none), ok, ok]

theorem second_retry_misnamed :
    let s := exec (Lineage.step Sample.platform) (.begun probeRun 0)
      (failingAttempt "call" ++ failingAttempt "call:retry:1")
    s.attempts = ["call", "call:retry:1", "call:retry:2"] ∧
      s.retries.map Input.newCallID = ["call:retry:1", "call:retry:1:retry:2"] ∧ ¬ s.Truthful := by
  decide +kernel

end Adro.Runtime
