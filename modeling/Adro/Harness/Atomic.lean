import Adro.Harness.Advance
import Adro.Harness.LeaseLaws
import Adro.Harness.MemoryLaws

/-!
# Failed calls

Which calls leave the sessions and project memories as they were when they
return an error. A write that does not become durable is taken back; some
operations take back less than they wrote, and a turn whose log fails stays.
-/

namespace Adro.Harness

open Adro.Go

variable {δ α : Type} {p : Platform} {cfg : Config} {io : Storage δ} {w : World δ} {s : Store}
  {state next : SessionState} {id : Bytes} {memoryID : Bytes} {c : Call}

theorem setSession_same (h : s.sessions[id]? = some state) : s.setSession id state = s := by
  unfold Store.setSession
  rw [ByteMap.set_get_self h]

theorem setSession_back (h : s.sessions[id]? = some state) :
    s.setSession id next = s ↔ next = state := by
  constructor
  · intro hback
    have hget := congrArg (fun s : Store => s.sessions[id]?) hback
    simpa [Store.setSession, h] using hget
  · rintro rfl
    exact setSession_same h

/-- What a write that does not become durable puts back is what was there. -/
def Undone (s : Store) (plan : Plan α) : Prop := plan.Writes fun _ undo _ _ => undo = s

/-- The state file cannot be written in a call. -/
def Unsaved (io : Storage δ) (disk : δ) : Plan α → Prop
  | .write next .. => ∃ e, (io.persist disk next).1 = .error e
  | _ => False

/-- The state file is written in a call and its turns cannot be appended to the log. -/
def Unlogged (io : Storage δ) (disk : δ) : Plan α → Prop
  | .write next _ _ _ turns _ =>
    turns ≠ [] ∧ (io.persist disk next).1 = .ok () ∧
      ∃ e, (io.appendTranscript (io.persist disk next).2 turns).1 = .error e
  | _ => False

/-- A failed call leaves the store as it was if and only if it does not fail in the log, and what
it puts back where the file cannot be written is what was there. -/
theorem perform_failed {plan : Plan α}
    (hgrows : plan.Writes fun next _ _ turns => turns ≠ [] → next ≠ w.store) :
    (∀ e, (w.perform io plan).1 = .error e → (w.perform io plan).2.store = w.store) ↔
      ¬ Unlogged io w.disk plan ∧ (Unsaved io w.disk plan → Undone w.store plan) := by
  have hperforms := performs io w plan
  generalize (w.perform io plan).1 = r, (w.perform io plan).2 = w' at hperforms
  cases hperforms with
  | fail | keep => simp [Unlogged, Unsaved]
  | undone hpersist => simp [Unlogged, Unsaved, hpersist, Undone, writes_write]
  | unlogged hturns hpersist hlog =>
    simp [Unlogged, hturns, hpersist, hlog, writes_write.1 hgrows hturns]
  | written hpersist hlog =>
    rcases hlog with ⟨rfl, -⟩ | hlog
    · simp [Unlogged, Unsaved, hpersist]
    · simp [Unlogged, Unsaved, hpersist, hlog]

theorem not_unlogged {disk : δ} {plan : Plan α} (h : plan.Writes fun _ _ _ turns => turns = []) :
    ¬ Unlogged io disk plan := by
  cases plan with
  | fail | keep => exact not_false
  | write => exact fun hlog => hlog.1 (writes_write.1 h)

/-- What `AddMemory` writes. -/
theorem addMemory_ok (h : ∀ state m, s.sessions[item.sessionID]? = some state →
      normalizeMemory p state.session item = .ok m →
      let added := (m.identified stamp.id).recorded p stamp.time
      Q (addedMemory s item.sessionID state added).1
        (addedMemory s item.sessionID state added).2 added []) :
    (s.addMemory p item now stamp).Writes Q := by
  apply writes_onSession
  intro state plan hstate hplan
  obtain ⟨r, hr, hplan⟩ := bind_ok.1 hplan
  obtain ⟨m, hm, -, -, ⟨existing, -, rfl⟩ | ⟨-, -, rfl⟩⟩ := admitMemory_ok hr
  · cases pure_ok.1 hplan
    exact writes_keep
  · cases pure_ok.1 hplan
    exact writes_write.2 (h state m hstate hm)

/-- What `TransitionMemoryWithReview` writes. -/
theorem transitionMemory_ok (h : ∀ state target next undo, s.sessions[id]? = some state →
      transitionStores s id memoryID state (MemoryItem.transition
        (.ofText (utf8 (lowered p.lower (Event.trimSpace status)))) reviewer reason) now =
          some (target, next, undo) →
      Q next undo (target.transition (.ofText (utf8 (lowered p.lower (Event.trimSpace status))))
        reviewer reason) []) :
    (s.transitionMemoryWithReview p id memoryID status reviewer reason now).Writes Q := by
  unfold Store.transitionMemoryWithReview
  simp only
  split
  · exact writes_fail
  · apply writes_onSession
    intro state plan hstate hplan
    split at hplan
    · next target next undo hstores =>
      simp only [then_ok, pure_ok] at hplan
      obtain ⟨-, rfl⟩ := hplan
      exact writes_write.2 (h _ _ _ _ hstate hstores)
    · cases hplan

def Call.sessionID : Call → Bytes
  | .createSession session _ => session.id
  | .appendTurn id .. | .recordToolCall id .. | .saveCheckpoint id .. | .compact id ..
  | .transitionMemory id .. | .acquireLease id .. | .releaseLease id .. | .heartbeatLease id ..
  | .enqueueOutbox id .. | .enqueueAndClaimOutbox id .. | .claimOutbox id .. | .ackOutbox id ..
  | .completeOutbox id .. | .nackOutbox id .. | .recover id .. => id
  | .addMemory item .. => item.sessionID

def Call.remembers : Call → Bool
  | .addMemory .. | .transitionMemory .. => true
  | _ => false

def Call.adds (state : SessionState) : Call → Bool
  | .acquireLease _ key _ _ _ _ => !state.leases.any (Lease.isFor key)
  | .enqueueOutbox _ key _ _ | .enqueueAndClaimOutbox _ key _ _ _ _ _ =>
    !state.outbox.any (·.idempotencyKey == key)
  | _ => false

/-- Leases, events and the time of the update are all that changed. -/
def Operates (state next : SessionState) : Prop :=
  ∃ leases outbox time, next = { state with leases, outbox, session.updatedAt := time }

/-- The time a call that adds a record gives to the session. -/
def Call.touches : Call → Time
  | .acquireLease _ _ _ _ now stamp | .enqueueAndClaimOutbox _ _ _ _ _ now stamp =>
    effective now stamp.time
  | .enqueueOutbox _ _ _ stamp => stamp.time
  | _ => 0

/-- What an operation writes. One that adds does not put the time of the update back. -/
structure Operated (c : Call) (state next undo : SessionState) : Prop where
  written : Operates state next
  undone : undo = if c.adds state then state.touch c.touches else state

theorem writes_back (h : Operates state next) (hadds : c.adds state = false) :
    (Effect.write next state context a).Writes fun next undo _ => Operated c state next undo :=
  effectWrites_write.2 ⟨h, by simp [hadds]⟩

theorem writes_added (h : Operates state next) (hadds : c.adds state = true) :
    (Effect.write next (state.touch c.touches) context a).Writes fun next undo _ =>
      Operated c state next undo :=
  effectWrites_write.2 ⟨h, by simp [hadds]⟩

theorem recoverSession_writes (h : ∀ r, Q ({ state with
        leases := state.leases.map (Lease.expire (effective now reading))
        outbox := state.outbox.map (OutboxEvent.expire (effective now reading)) }.touch
          (effective now reading)) state r) : (recoverSession state now reading).Writes Q := by
  unfold recoverSession
  simp only
  split
  · exact effectWrites_keep
  · exact effectWrites_write.2 (h _)

theorem operated_operate {g : α → Reply} (h : ∀ state effect, f state = .ok effect →
      effect.Writes fun next undo _ => Operated c state next undo) :
    ((s.operate id f).map g).Writes fun next undo _ turns => turns = [] ∧ ∃ state next' undo',
      s.sessions[id]? = some state ∧ next = s.setSession id next' ∧ undo = s.setSession id undo' ∧
        Operated c state next' undo' := by
  refine writes_map.2 (writes_operate fun state effect hstate heffect => ?_)
  intro next undo context a hwrite
  exact ⟨rfl, state, next, undo, hstate, rfl, rfl,
    h state effect heffect next undo context a hwrite⟩

theorem plan_operates (hrecords : c.records = false) (hremembers : c.remembers = false) :
    (plan p cfg s c).Writes fun next undo _ turns => turns = [] ∧ ∃ state next' undo',
      s.sessions[c.sessionID]? = some state ∧ next = s.setSession c.sessionID next' ∧
        undo = s.setSession c.sessionID undo' ∧ Operated c state next' undo' := by
  cases c
  case createSession | appendTurn | recordToolCall | saveCheckpoint | compact => cases hrecords
  case addMemory | transitionMemory => cases hremembers
  all_goals refine operated_operate fun state effect heffect => ?_
  case acquireLease =>
    rcases acquireLease_ok heffect with ⟨l, hl, -, rfl⟩ | ⟨hnone, rfl⟩
    · refine writes_back ⟨_, _, _, rfl⟩ ?_
      simpa [Call.adds] using ⟨l, List.mem_of_find?_eq_some hl, List.find?_some hl⟩
    · exact writes_added ⟨_, _, _, rfl⟩ (by simpa [Call.adds] using List.find?_eq_none.1 hnone)
  case releaseLease =>
    obtain ⟨l, -, -, -, rfl⟩ := releaseLease_ok heffect
    exact writes_back ⟨_, _, _, rfl⟩ rfl
  case heartbeatLease =>
    obtain ⟨l, -, -, -, -, rfl⟩ := heartbeatLease_ok heffect
    exact writes_back ⟨_, _, _, rfl⟩ rfl
  case enqueueOutbox =>
    obtain ⟨data, -, ⟨e, -, -, rfl⟩ | ⟨hnone, rfl⟩⟩ := enqueueOutbox_ok heffect
    · exact effectWrites_keep
    · exact writes_added ⟨_, _, _, rfl⟩ (by simpa [Call.adds] using List.find?_eq_none.1 hnone)
  case enqueueAndClaimOutbox =>
    obtain ⟨data, -, ⟨e, he, -, ⟨-, rfl⟩ | ⟨-, -, rfl⟩ | rfl | ⟨-, rfl⟩⟩ | ⟨hnone, rfl⟩⟩ :=
      enqueueAndClaimOutbox_ok heffect
    · exact effectWrites_keep
    · exact effectWrites_keep
    · exact effectWrites_keep
    · refine writes_back ⟨_, _, _, rfl⟩ ?_
      simpa [Call.adds] using ⟨e, List.mem_of_find?_eq_some he, by simpa using List.find?_some he⟩
    · exact writes_added ⟨_, _, _, rfl⟩ (by simpa [Call.adds] using List.find?_eq_none.1 hnone)
  case claimOutbox =>
    rcases claimOutbox_ok heffect with rfl | rfl
    · exact effectWrites_keep
    · exact writes_back ⟨_, _, _, rfl⟩ rfl
  case ackOutbox | completeOutbox =>
    obtain ⟨e, -, ⟨-, rfl⟩ | ⟨-, -, rfl⟩⟩ := publishOutbox_ok heffect
    · exact effectWrites_keep
    · exact writes_back ⟨_, _, _, rfl⟩ rfl
  case nackOutbox =>
    obtain ⟨e, -, -, -, rfl⟩ := nackOutbox_ok heffect
    exact writes_back ⟨_, _, _, rfl⟩ rfl
  case recover =>
    obtain ⟨-, heffect⟩ := then_ok.1 heffect
    cases pure_ok.1 heffect
    exact recoverSession_writes fun _ => ⟨⟨_, _, _, rfl⟩, rfl⟩

theorem Operated.operates (h : Operated c state next undo) : Operates state undo := by
  cases h.undone
  split
  · exact ⟨_, _, _, rfl⟩
  · exact ⟨_, _, _, rfl⟩

theorem touch_back {now : Time} : state.touch now = state ↔ now = state.session.updatedAt := by
  constructor
  · intro h
    exact congrArg (fun s : SessionState => s.session.updatedAt) h
  · rintro rfl
    rfl

/-- A failed review puts back the status of the memories of its id; without a project nothing. -/
def ReviewKept (projectID memoryID : Bytes) (items : List MemoryItem) (m reviewed : MemoryItem) :
    Prop :=
  if projectID = [] then reviewed = m
  else { reviewed with status := m.status } = m ∧ ∀ n ∈ items, n.id = memoryID → n.status = m.status

/-- When what a call puts back is what was there: it adds no memory, lease or event and reviews no
memory of the project, or what it does not put back had that value. -/
def Undoes (p : Platform) (s : Store) (state : SessionState) : Call → Prop
  | .addMemory item _ stamp =>
    stamp.time = state.session.updatedAt ∧ (givenScope p item = .project →
      s.projectMemories[state.session.projectID]?.isSome = true)
  | .transitionMemory _ memoryID status reviewer reason _ =>
    let status := MemoryStatus.ofText (utf8 (lowered p.lower (Event.trimSpace status)))
    let items := s.project state.session.projectID
    hasMemoryID state.memories memoryID = true ∨ ∀ m, items.find? (·.id == memoryID) = some m →
      ReviewKept state.session.projectID memoryID items m (m.transition status reviewer reason)
  | c => c.adds state = true → c.touches = state.session.updatedAt

theorem Operated.undoes (h : Operated c state next undo) :
    undo = state ↔ (c.adds state = true → c.touches = state.session.updatedAt) := by
  rw [h.undone]
  cases c.adds state with
  | true => simpa using touch_back
  | false => simp

theorem appendTurn_turns {stamps : TurnStamps}
    (h : appendTurn p cfg state id turn stamps = .ok (stored, added, next)) :
    next.turns.length = state.turns.length + if added then 1 else 0 := by
  obtain ⟨-, -, -, ⟨-, -, rfl, rfl⟩ | ⟨-, rfl, -, archive, hauto⟩⟩ := appendTurn_ok h
  · rfl
  · rw [(autoCompactLocked_keeps hauto).2]
    simp [SessionState.addTurn]

theorem recordToolCall_turns {callID name input output : Bytes} {stamps : ToolStamps}
    {r : ToolRecord}
    (h : recordToolCall p cfg state id callID name input output version stamps = .ok r) :
    r.state.turns.length = state.turns.length + r.added.length := by
  obtain ⟨-, h⟩ := then_ok.1 h
  obtain ⟨⟨before, beforeAdded, state₁⟩, hbefore, h⟩ := bind_ok.1 h
  obtain ⟨⟨c, state₂⟩, hopen, h⟩ := bind_ok.1 h
  obtain ⟨⟨after, afterAdded, state₃⟩, hafter, h⟩ := bind_ok.1 h
  obtain ⟨⟨c', state₄⟩, hclose, h⟩ := bind_ok.1 h
  cases pure_ok.1 h
  have h₁ := appendTurn_turns (then_ok.1 hbefore).2
  have h₂ := (saveCheckpointLocked_keeps hopen).2.1
  have h₃ := appendTurn_turns (then_ok.1 hafter).2
  have h₄ := (saveCheckpointLocked_keeps hclose).2.1
  rw [h₄, h₃, h₂, h₁]
  cases beforeAdded <;> cases afterAdded <;> simp

theorem transition_id (status : MemoryStatus) (reviewer reason : Bytes) (m : MemoryItem) :
    (m.transition status reviewer reason).id = m.id := rfl

theorem setProject_back :
    s.setProject id (s.project id) = s ↔ s.projectMemories[id]?.isSome = true := by
  unfold Store.setProject Store.project
  cases h : s.projectMemories[id]? with
  | none =>
    simp only [Option.isSome_none, Bool.false_eq_true, iff_false]
    intro hback
    have hget := congrArg (fun s : Store => s.projectMemories[id]?) hback
    simp [h] at hget
  | some items => simp [ByteMap.set_get_self h]

theorem addedMemory_back (hstate : s.sessions[id]? = some state) :
    (addedMemory s id state item).2 = s ↔ item.createdAt = state.session.updatedAt ∧
      (item.scope = .project → s.projectMemories[item.projectID]?.isSome = true) := by
  have htouch : { state with session.updatedAt := item.createdAt } = state ↔
      item.createdAt = state.session.updatedAt := touch_back
  unfold addedMemory
  by_cases hscope : item.scope = .project
  · simp only [hscope, beq_self_eq_true, if_true, forall_const]
    rw [← htouch, ← setProject_back]
    constructor
    · intro hback
      have hsessions := congrArg Store.sessions hback
      have hprojects := congrArg Store.projectMemories hback
      have hput : s.setProject item.projectID (s.project item.projectID) = s :=
        show (⟨_, _⟩ : Store) = ⟨_, _⟩ by rw [show s.projectMemories.insert _ _ = _ from hprojects]
      refine ⟨(setSession_back hstate).1 ?_, hput⟩
      rw [hput] at hback
      exact hback
    · rintro ⟨hsame, hput⟩
      rw [hput, (setSession_back hstate).2 hsame]
  · simp [hscope, setSession_back hstate, htouch]

theorem map_back {l : List α} {g : α → α} : l.map g = l ↔ ∀ a ∈ l, g a = a := by
  induction l with
  | nil => simp
  | cons a l ih => simp [ih]

/-- What a failed review puts back is what was there. -/
theorem review_back {items : List MemoryItem} {change : MemoryItem → MemoryItem}
    (hid : ∀ m, (change m).id = m.id) (hm : items.find? (·.id == memoryID) = some m) :
    (modifyFirst (·.id == memoryID) change items).map (fun c =>
        if c.id == memoryID then { c with status := m.status } else c) = items ↔
      { change m with status := m.status } = m ∧ ∀ n ∈ items, n.id = memoryID →
      n.status = m.status := by
  have hback (n : MemoryItem) :
    (if n.id == memoryID then { n with status := m.status } else n) = n ↔
      (n.id = memoryID → n.status = m.status) := by
    cases hn : n.id == memoryID with
    | true =>
      have hid := beq_iff_eq.1 hn
      constructor
      · intro h _
        exact (congrArg MemoryItem.status h).symm
      · intro h
        rw [if_pos rfl, ← h hid]
    | false => simpa using fun h => absurd h (by simpa using hn)
  induction items with
  | nil => cases hm
  | cons n rest ih =>
    rw [List.find?_cons] at hm
    unfold modifyFirst
    cases hn : n.id == memoryID with
    | true =>
      rw [hn] at hm
      cases hm
      simp only [if_true, List.map_cons, hid, hn, List.cons.injEq, map_back, hback,
        List.forall_mem_cons, implies_true, true_and]
    | false =>
      rw [hn] at hm
      have hne : n.id ≠ memoryID := by simpa using hn
      simp only [Bool.false_eq_true, if_false, List.map_cons, hn, List.cons.injEq, true_and, ih hm,
        List.forall_mem_cons, hne, false_implies]

theorem setProject_same {m : MemoryItem} (h : (s.project id).find? test = some m) :
    s.setProject id items = s ↔ items = s.project id := by
  constructor
  · intro hback
    have hget := congrArg (fun s : Store => s.project id) hback
    simpa [Store.project, Store.setProject] using hget
  · rintro rfl
    refine setProject_back.2 ?_
    unfold Store.project at h
    cases hsome : s.projectMemories[id]? with
    | none => simp [hsome] at h
    | some items => rfl

theorem transitionStores_undoes {next undo : Store} {target : MemoryItem}
    {change : MemoryItem → MemoryItem}
    (hid : ∀ m, (change m).id = m.id)
    (h : transitionStores s id memoryID state change now = some (target, next, undo)) :
    undo = s ↔ hasMemoryID state.memories memoryID = true ∨
      ∀ m, (s.project state.session.projectID).find? (·.id == memoryID) = some m →
        ReviewKept state.session.projectID memoryID (s.project state.session.projectID) m
          (change m) := by
  unfold transitionStores at h
  simp only at h
  split at h
  · next m hm =>
    have hmem : hasMemoryID state.memories memoryID = true :=
      List.any_eq_true.2 ⟨m, List.mem_of_find?_eq_some hm, by simpa using List.find?_some hm⟩
    cases h
    simp [hmem]
  · next hnone =>
    have hmem : hasMemoryID state.memories memoryID = false :=
      List.any_eq_false.2 (List.find?_eq_none.1 hnone)
    obtain ⟨m, hm, heq⟩ := Option.map_eq_some_iff.1 h
    cases heq
    simp only [hmem, Bool.false_eq_true, false_or, hm, Option.some.injEq, forall_eq',
      setProject_same hm,
      ReviewKept]
    by_cases hpid : state.session.projectID = []
    · rw [if_pos (beq_iff_eq.2 hpid), if_pos hpid]
      exact modifyFirst_back hm
    · rw [if_neg (by simpa using hpid), if_neg hpid]
      exact review_back hid hm

theorem undoes_iff (h : c.remembers = false) :
    Undoes p s state c ↔ (c.adds state = true → c.touches = state.session.updatedAt) := by
  cases c with
  | addMemory | transitionMemory => cases h
  | _ => rfl

theorem Call.adds_of_records (h : c.records = true) : c.adds state = false := by
  cases c with
  | createSession | appendTurn | recordToolCall | saveCheckpoint | compact => rfl
  | _ => cases h

theorem Call.remembers_of_records (h : c.records = true) : c.remembers = false := by
  cases c with
  | addMemory | transitionMemory => cases h
  | _ => rfl

theorem plan_undoes (c : Call) : (plan p cfg s c).Writes fun _ undo _ _ =>
    (undo = s ↔ ∀ state ∈ s.sessions[c.sessionID]?, Undoes p s state c) := by
  cases hrecords : c.records with
  | true =>
    refine (plan_records hrecords).imp ?_
    rintro _ _ _ _ ⟨-, rfl, -⟩
    simp [undoes_iff (Call.remembers_of_records hrecords), Call.adds_of_records hrecords]
  | false =>
    cases hremembers : c.remembers with
    | true =>
      cases c
      case addMemory item now stamp =>
        refine writes_map.2 (addMemory_ok
          fun state m hstate hm => (addedMemory_back hstate).trans ?_)
        obtain ⟨quality, projectID, heq, hproject, -⟩ := normalizeMemory_ok hm
        have hscope : m.scope = givenScope p item := by rw [heq]
        simp only [Call.sessionID, hstate, Option.mem_some_iff, forall_eq', Undoes, recorded_scope,
          recorded_projectID, identified_scope, identified_projectID, hscope]
        exact and_congr_right fun _ => forall_congr' fun hgiven => by rw [(hproject hgiven).1]
      case transitionMemory =>
        refine writes_map.2 (transitionMemory_ok fun state target next undo hstate hstores => ?_)
        simp only [Call.sessionID, hstate, Option.mem_some_iff, forall_eq']
        exact transitionStores_undoes (transition_id _ _ _) hstores
      all_goals cases hremembers
    | false =>
      refine (plan_operates hrecords hremembers).imp ?_
      rintro _ _ _ _ ⟨-, state, next, undo, hstate, rfl, rfl, hop⟩
      simp only [hstate, Option.mem_some_iff, forall_eq', setSession_back hstate, hop.undoes,
        undoes_iff hremembers]

theorem plan_grows (c : Call) :
    (plan p cfg s c).Writes fun next _ _ turns => turns ≠ [] → next ≠ s := by
  cases hrecords : c.records with
  | true =>
    cases c
    case appendTurn id turn stamps =>
      refine writes_map.2 (writes_onSession ?_)
      intro state plan hstate hplan
      obtain ⟨⟨stored, added, next⟩, hadd, hplan⟩ := bind_ok.1 hplan
      cases pure_ok.1 hplan
      cases added with
      | false => exact writes_keep
      | true =>
        refine writes_saveSession.2 fun _ hback => ?_
        have hturns := appendTurn_turns hadd
        rw [(setSession_back hstate).1 hback] at hturns
        simp at hturns
    case recordToolCall id callID name input output version stamps =>
      simp only [plan, Store.recordToolCall]
      split
      · exact writes_map.2 writes_fail
      refine writes_map.2 (writes_onSession ?_)
      intro state plan hstate hplan
      obtain ⟨r, hrecord, hplan⟩ := bind_ok.1 hplan
      cases pure_ok.1 hplan
      split
      · exact writes_keep
      · refine writes_saveSession.2 fun hadded hback => hadded ?_
        have hturns := recordToolCall_turns hrecord
        rw [(setSession_back hstate).1 hback] at hturns
        exact List.length_eq_zero_iff.1 (by omega)
    all_goals
      refine (plan_records hrecords).imp ?_
      rintro _ _ _ _ ⟨-, -, hnone⟩ hturns
      exact absurd (hnone rfl) hturns
  | false =>
    cases hremembers : c.remembers with
    | true =>
      cases c
      case addMemory => exact writes_map.2 (addMemory_ok fun _ _ _ _ hturns => absurd rfl hturns)
      case transitionMemory =>
        exact writes_map.2 (transitionMemory_ok fun _ _ _ _ _ _ hturns => absurd rfl hturns)
      all_goals cases hremembers
    | false =>
      refine (plan_operates hrecords hremembers).imp ?_
      rintro _ _ _ _ ⟨hnone, -⟩ hturns
      exact absurd hnone hturns

theorem plan_claim_ok (p : Platform) (cfg : Config) (s : Store) (c : Call) :
    (plan p cfg s c).Writes fun _ _ reply _ => errorOf (.ok reply) = none := by
  cases c
  all_goals simp only [plan]
  case enqueueAndClaimOutbox id key payload owner ttl now stamp =>
    refine writes_map.2 (writes_operate ?_)
    intro state effect _ heffect
    obtain ⟨data, -, ⟨e, -, -, ⟨-, rfl⟩ | ⟨-, -, rfl⟩ | rfl | ⟨-, rfl⟩⟩ | ⟨-, rfl⟩⟩ :=
      enqueueAndClaimOutbox_ok heffect
    · exact effectWrites_keep
    · exact effectWrites_keep
    · exact effectWrites_keep
    · exact effectWrites_write.2 rfl
    · exact effectWrites_write.2 rfl
  all_goals exact writes_map.2 (writes_true fun _ _ _ _ => rfl)

/-- A claim is the only answer with an error that is not a failure, and it writes nothing. -/
theorem claim_failed (herr : errorOf (.ok reply) ≠ none)
    (h : (respond p cfg io w c).1 = .ok reply) : (step p cfg io w c).store = w.store := by
  have hclaim := plan_claim_ok p cfg w.store c
  have hperforms := performs io w (plan p cfg w.store c)
  unfold step
  unfold respond at h ⊢
  rw [h] at hperforms
  generalize plan p cfg w.store c = called at hclaim hperforms
  generalize (w.perform io called).2 = w' at hperforms
  cases hperforms with
  | keep => rfl
  | written => exact absurd (writes_write.1 hclaim) herr

theorem failed_call_leaves_store (p : Platform) (cfg : Config) (io : Storage δ)
    (w : World δ) (c : Call) :
    (errorOf (respond p cfg io w c).1 ≠ none → (step p cfg io w c).store = w.store) ↔
      ¬ Unlogged io w.disk (plan p cfg w.store c) ∧
        (Unsaved io w.disk (plan p cfg w.store c) →
          ∀ state ∈ w.store.sessions[c.sessionID]?, Undoes p w.store state c) := by
  have hundone : Unsaved io w.disk (plan p cfg w.store c) →
      (Undone w.store (plan p cfg w.store c) ↔
        ∀ state ∈ w.store.sessions[c.sessionID]?, Undoes p w.store state c) := by
    have hundoes : (plan p cfg w.store c).Writes _ := plan_undoes c
    cases hplan : plan p cfg w.store c with
    | fail | keep => exact False.elim
    | write next undo =>
      rw [hplan] at hundoes
      exact fun _ => writes_write.trans (writes_write.1 hundoes)
  rw [← forall_congr' hundone, ← perform_failed (plan_grows c)]
  -- An answer with an error is a failure, or a claim that found the event taken.
  constructor
  · intro h e he
    exact h (by rw [show (respond p cfg io w c).1 = .error e from he]; simp [errorOf])
  · intro h herr
    cases hr : (respond p cfg io w c).1 with
    | error e => exact h e hr
    | ok reply => exact claim_failed (hr ▸ herr) hr

def plainPlatform : Platform := ⟨fun b => b, fun c => c, fun c => c⟩

def plainConfig : Config := ⟨rune4Tokenizer, fun _ => (⟨[], [], [], .finite 0⟩, none)⟩

def fullDisk : Storage Unit := ⟨fun _ _ => (.error (errorText "full"), ()), fun _ _ => (.ok (), ())⟩

/-- A session of a project, and a memory of the project. -/
def projectStore : Store where
  sessions := (∅ : ByteMap SessionState).insert [1]
    { session :=
        { id := [1], tenantID := [1], workspaceID := [1], projectID := [2], contextVersion := 1 } }
  projectMemories := (∅ : ByteMap (List MemoryItem)).insert [2]
    [{ id := [6], scope := .project, projectID := [2], status := .confirmed, expiresAt := some 20 }]

/-- A project memory keeps the reviewer, the reason and the missing expiry of a transition that
failed. -/
theorem failed_review_stays :
    ∃ (w : World Unit) (c : Call),
    errorOf (respond plainPlatform plainConfig fullDisk w c).1 ≠ none ∧
      (step plainPlatform plainConfig fullDisk w c).store ≠ w.store := by
  refine ⟨⟨projectStore, ()⟩, .transitionMemory [1] [6] (bytesOf "forgotten") [7] [8] 5,
    by decide +kernel, fun h => ?_⟩
  have hreviewer := congrArg (fun s => (s.project [2]).map fun m => (m.reviewer, m.expiresAt)) h
  revert hreviewer
  decide +kernel

end Adro.Harness
