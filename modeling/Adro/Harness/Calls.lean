import Adro.Harness.Store
import Adro.Lib.Runs

/-!
# Runs of the store

The calls that change the store, with the identifiers and the readings of the
clock that each draws, and what they answer. `plan` says what a call does to a
store, `respond` what it does on a storage.
-/

namespace Adro.Harness

open Adro.Go

inductive Call
  | createSession (session : Session) (stamp : Stamp)
  | appendTurn (sessionID : Bytes) (turn : Turn) (stamps : TurnStamps)
  | recordToolCall (sessionID callID name input output : Bytes) (contextVersion : Int)
      (stamps : ToolStamps)
  | saveCheckpoint (sessionID : Bytes) (checkpoint : Checkpoint) (stamp : Stamp)
  | compact (sessionID : Bytes) (request : CompactRequest) (stamps : CompactionStamps)
  | addMemory (item : MemoryItem) (now : Time) (stamp : Stamp)
  | transitionMemory (sessionID memoryID status reviewer reason : Bytes) (now : Time)
  | acquireLease (sessionID key owner : Bytes) (ttl : Duration) (now : Time) (stamp : Stamp)
  | releaseLease (sessionID leaseID owner : Bytes) (now reading : Time)
  | heartbeatLease (sessionID leaseID owner : Bytes) (ttl : Duration) (now reading : Time)
  | enqueueOutbox (sessionID key : Bytes) (payload : Payload) (stamp : Stamp)
  | enqueueAndClaimOutbox (sessionID key : Bytes) (payload : Payload) (owner : Bytes)
      (ttl : Duration) (now : Time) (stamp : Stamp)
  | claimOutbox (sessionID owner : Bytes) (limit : Int) (ttl : Duration) (now reading : Time)
  | ackOutbox (sessionID eventID owner : Bytes) (now reading : Time)
  | completeOutbox (sessionID eventID : Bytes) (now reading : Time)
  | nackOutbox (sessionID eventID owner : Bytes) (retryAt reading : Time)
  | recover (sessionID : Bytes) (now reading : Time)

inductive Reply
  | session (session : Session)
  | turn (turn : Turn)
  | toolCall (before after : Checkpoint)
  | checkpoint (checkpoint : Checkpoint)
  | archive (archive : ArchiveWindow)
  | memory (item : MemoryItem)
  | lease (lease : Lease)
  | done
  | event (event : OutboxEvent)
  | claim (claim : Claim)
  | events (events : List OutboxEvent)
  | recovery (recovery : Recovery)

variable (p : Platform) (cfg : Config) {context logContext : String} {turns : List Turn}
  {next : SessionState}

def plan (s : Store) : Call → Plan Reply
  | .createSession session stamp => (createSession s session stamp).map .session
  | .appendTurn id turn stamps => (s.appendTurn p cfg id turn stamps).map .turn
  | .recordToolCall id callID name input output version stamps =>
    (s.recordToolCall p cfg id callID name input output version stamps).map fun c =>
      .toolCall c.1 c.2
  | .saveCheckpoint id c stamp => (s.saveCheckpoint p id c stamp).map .checkpoint
  | .compact id r stamps => (s.compact p id r stamps).map .archive
  | .addMemory item now stamp => (s.addMemory p item now stamp).map .memory
  | .transitionMemory id memoryID status reviewer reason now =>
    (s.transitionMemoryWithReview p id memoryID status reviewer reason now).map .memory
  | .acquireLease id key owner ttl now stamp =>
    (s.operate id fun state => acquireLease state id key owner ttl now stamp).map .lease
  | .releaseLease id leaseID owner now reading =>
    (s.operate id fun state => releaseLease state leaseID owner now reading).map fun _ => .done
  | .heartbeatLease id leaseID owner ttl now reading =>
    (s.operate id fun state => heartbeatLease state leaseID owner ttl now reading).map .lease
  | .enqueueOutbox id key payload stamp =>
    (s.operate id fun state => enqueueOutbox state id key payload stamp).map .event
  | .enqueueAndClaimOutbox id key payload owner ttl now stamp =>
    (s.operate id fun state =>
      enqueueAndClaimOutbox state id key payload owner ttl now stamp).map .claim
  | .claimOutbox id owner limit ttl now reading =>
    (s.operate id fun state => claimOutbox state owner limit ttl now reading).map .events
  | .ackOutbox id eventID owner now reading =>
    (s.operate id fun state => ackOutbox state eventID owner now reading).map fun _ => .done
  | .completeOutbox id eventID now reading =>
    (s.operate id fun state => completeOutbox state eventID now reading).map fun _ => .done
  | .nackOutbox id eventID owner retryAt reading =>
    (s.operate id fun state => nackOutbox state eventID owner retryAt reading).map fun _ => .done
  | .recover id now reading => (s.recover p id now reading).map .recovery

variable {δ : Type} (io : Storage δ)

def respond (w : World δ) (c : Call) : Except Error Reply × World δ :=
  w.perform io (plan p cfg w.store c)

def step (w : World δ) (c : Call) : World δ := (respond p cfg io w c).2

/-- The error of a call, also of a claim that still names its event. -/
def errorOf : Except Error Reply → Option Error
  | .error e => some e
  | .ok (.claim c) => c.error
  | .ok _ => none

section Plans

variable {α β : Type} {io : Storage δ} {w : World δ} {s : Store} {id : Bytes} {plan : Plan α}

def Plan.Writes (Q : Store → Store → α → List Turn → Prop) (plan : Plan α) : Prop :=
  ∀ next undo context a turns logContext,
    plan = .write next undo context a turns logContext → Q next undo a turns

def Effect.Writes (Q : SessionState → SessionState → α → Prop) (effect : Effect α) : Prop :=
  ∀ next undo context a, effect = .write next undo context a → Q next undo a

section

variable {Q : Store → Store → α → List Turn → Prop} {f : SessionState → Except Error (Plan α)}

theorem writes_fail : (Plan.fail e : Plan α).Writes Q := by
  rintro _ _ _ _ _ _ ⟨⟩

theorem writes_keep : (Plan.keep a).Writes Q := by
  rintro _ _ _ _ _ _ ⟨⟩

theorem writes_write {next undo : Store} :
    (Plan.write next undo context a turns logContext).Writes Q ↔ Q next undo a turns := by
  constructor
  · intro h
    exact h _ _ _ _ _ _ rfl
  · rintro h _ _ _ _ _ _ ⟨⟩
    exact h

theorem writes_saveSession :
    (s.saveSession id next context a turns logContext).Writes Q ↔
    Q (s.setSession id next) s a turns :=
  writes_write

theorem Plan.Writes.imp (h : plan.Writes Q)
    (himp : ∀ next undo a turns, Q next undo a turns → R next undo a turns) : plan.Writes R :=
  fun next undo context a turns logContext heq =>
    himp next undo a turns (h next undo context a turns logContext heq)

theorem writes_true (h : ∀ next undo a turns, Q next undo a turns) : plan.Writes Q :=
  fun next undo _ a turns _ _ => h next undo a turns

theorem writes_map {f : α → β} {Q : Store → Store → β → List Turn → Prop} :
    (plan.map f).Writes Q ↔ plan.Writes fun next undo a turns => Q next undo (f a) turns := by
  cases plan with
  | fail e => exact ⟨fun _ => writes_fail, fun _ => writes_fail⟩
  | keep a => exact ⟨fun _ => writes_keep, fun _ => writes_keep⟩
  | write next undo context a turns logContext =>
    rw [Plan.map, writes_write, writes_write]

theorem writes_onSession
    (h : ∀ state plan, s.sessions[id]? = some state → f state = .ok plan → plan.Writes Q) :
    (s.onSession id f).Writes Q := by
  unfold Store.onSession
  split
  · exact writes_fail
  · next state hstate =>
    split
    · exact writes_fail
    · next plan hplan => exact h state plan hstate hplan

theorem writes_operate {f : SessionState → Except Error (Effect α)}
    (h : ∀ state effect, s.sessions[id]? = some state → f state = .ok effect →
      effect.Writes fun next undo a => Q (s.setSession id next) (s.setSession id undo) a []) :
    (s.operate id f).Writes Q := by
  apply writes_onSession
  intro state plan hstate hplan
  obtain ⟨effect, heffect, hplan⟩ := bind_ok.1 hplan
  have hwrites := h state effect hstate heffect
  cases effect with
  | keep result =>
    cases hplan
    exact writes_keep
  | write next undo context result =>
    cases hplan
    exact writes_write.2 (hwrites _ _ _ _ rfl)

end

theorem effectWrites_keep :
    (Effect.keep a).Writes Q := by
  rintro _ _ _ _ ⟨⟩

theorem effectWrites_write
    :
    (Effect.write next undo context a).Writes Q ↔ Q next undo a := by
  constructor
  · intro h
    exact h _ _ _ _ rfl
  · rintro h _ _ _ _ ⟨⟩
    exact h

inductive Performs (io : Storage δ) (w : World δ) : Plan α → Except Error α → World δ → Prop
  | fail (e : Error) : Performs io w (.fail e) (.error e) w
  | keep (a : α) : Performs io w (.keep a) (.ok a) w
  | undone {next undo : Store} {context logContext : String} {a : α} {turns : List Turn} {e : Error}
      {disk : δ} (hpersist : io.persist w.disk next = (.error e, disk)) :
      Performs io w (.write next undo context a turns logContext)
        (.error (e.wrap context)) ⟨undo, disk⟩
  | unlogged {next undo : Store} {context logContext : String} {a : α}
      {turns : List Turn} {e : Error}
      {disk disk' : δ} (hturns : turns ≠ []) (hpersist : io.persist w.disk next = (.ok (), disk))
      (hlog : io.appendTranscript disk turns = (.error e, disk')) :
      Performs io w (.write next undo context a turns logContext) (.error (e.wrap logContext))
        ⟨next, disk'⟩
  | written {next undo : Store} {context logContext : String} {a : α} {turns : List Turn}
      {disk disk' : δ}
      (hpersist : io.persist w.disk next = (.ok (), disk))
      (hlog : turns = [] ∧ disk' = disk ∨ io.appendTranscript disk turns = (.ok (), disk')) :
      Performs io w (.write next undo context a turns logContext) (.ok a) ⟨next, disk'⟩

theorem performs (io : Storage δ) (w : World δ) (plan : Plan α) :
    Performs io w plan (w.perform io plan).1 (w.perform io plan).2 := by
  cases plan with
  | fail e => exact .fail e
  | keep a => exact .keep a
  | write next undo context a turns logContext =>
    simp only [World.perform]
    rcases hpersist : io.persist w.disk next with ⟨e | _, disk⟩
    · exact .undone hpersist
    by_cases hturns : turns = []
    · subst hturns
      exact .written hpersist (.inl ⟨rfl, rfl⟩)
    · simp only [List.isEmpty_iff, hturns]
      rcases hlog : io.appendTranscript disk turns with ⟨e | _, disk'⟩
      · exact .unlogged hturns hpersist hlog
      · exact .written hpersist (.inr hlog)

/-- A property of the store that every write has, whether it becomes durable or not. -/
theorem perform_store {Q : Store → Prop} (h : plan.Writes fun next undo _ _ => Q next ∧ Q undo)
    (h0 : Q w.store) : Q (w.perform io plan).2.store := by
  have hperforms := performs io w plan
  generalize (w.perform io plan).1 = r, (w.perform io plan).2 = w' at hperforms
  cases hperforms with
  | fail | keep => exact h0
  | undone => exact (writes_write.1 h).2
  | unlogged | written => exact (writes_write.1 h).1

end Plans

end Adro.Harness
