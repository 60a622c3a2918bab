import Adro.Orchestration.Events
import Adro.Orchestration.Validate
import Adro.Control.Change

/-!
# The repository

Plans, projections and event logs in memory, with an optional snapshot on disk.
What a method does under the lock is a `Change`, which is settled by writing the
snapshot; `fault` is the error with which that fails. Agents, squads and the
outbox are kept in maps of their own and are added in `Control`.
-/

namespace Adro.Orchestration

open Adro.Go
open Adro.Control (Change)

/-- `durable` says that a snapshot path is set. -/
structure MemoryRepository where
  plans : GoMap RequirementExecutionPlan := ∅
  projections : GoMap PlanProjection := ∅
  keys : GoMap String := ∅
  events : GoMap (List Event) := ∅
  durable : Bool := false
  dirty : Bool := false

namespace MemoryRepository

/-- The result of a method and the repository it leaves. -/
abbrev Reply := Except Err Unit × MemoryRepository

def log (r : MemoryRepository) (planID : String) : List Event := (r.events[planID]?).getD []

def persistLocked (r : MemoryRepository) (fault : Option Err) : Except Err MemoryRepository :=
  if !r.durable || !r.dirty then .ok r
  else
    match fault with
    | some e => .error e
    | none => .ok { r with dirty := false }

def getPlan (r : MemoryRepository) (workspaceID planID : String) :
    Except Err RequirementExecutionPlan :=
  match r.plans[planID]? with
  | some plan => if plan.workspaceID == workspaceID then .ok plan else .error Sentinel.notFound.err
  | none => .error Sentinel.notFound.err

def getProjection (r : MemoryRepository) (planID : String) : Except Err PlanProjection :=
  match r.projections[planID]? with
  | some p => .ok p
  | none => .error Sentinel.notFound.err

def listEvents (r : MemoryRepository) (planID : String) (after : Int) : List Event :=
  (r.log planID).filter fun e => e.sequence > after

variable (E : EventHost)

/-- An event without a sequence, or with the first one and no predecessor, is
given the current tail as its predecessor. -/
def rebase (log : List Event) (e : Event) : Event :=
  let expected : Int := log.length + 1
  if e.sequence == 0 || (e.sequence == 1 && expected > 1 && e.previousHash == "") then
    let e := { e with
      sequence := expected
      previousHash := (log.getLast?.map Event.envelopeHash).getD e.previousHash }
    { e with envelopeHash := eventDigest E e }
  else e

/-- A repeated key with the same payload is accepted and nothing is appended. -/
def appendEventLocked (r : MemoryRepository) (e : Event) : Except Err MemoryRepository :=
  match r.plans[e.planID]? with
  | none => .error Sentinel.notFound.err
  | some plan => do
    ensure (e.workspaceID == plan.workspaceID)
      (errorNew "event workspace does not match plan workspace")
    let log := r.log e.planID
    match log.find? fun old => e.idempotencyKey != "" && old.idempotencyKey == e.idempotencyKey with
    | some old =>
      if old.payloadHash == e.payloadHash then pure r
      else throw Sentinel.idempotencyConflict.err
    | none =>
      let e := rebase E log e
      ensure (e.sequence == log.length + 1)
        (errorNew ("event sequence conflict: got " ++ toString e.sequence))
      ensure (log.getLast?.all fun last => e.previousHash == last.envelopeHash)
        (errorNew "event previous hash conflict")
      validateEventChain E (log ++ [e]) e.planID e.workspaceID
      pure { r with events := r.events.insert e.planID (log ++ [e]), dirty := true }

/-- The entry as it was before a write that is taken back. -/
def restore {α : Type} (before written : GoMap α) (k : String) : GoMap α :=
  match before[k]? with
  | some v => written.insert k v
  | none => written.erase k

section

variable (r : MemoryRepository)

def saveCheck (p : PlanProjection) : Except Err Unit := do
  ensure (p.planID != "") (errorNew "plan id is required")
  p.validate
  match r.plans[p.planID]? with
  | none => throw Sentinel.notFound.err
  | some plan =>
    ensure (p.revision == plan.revision) (errorNew ("projection revision " ++
      toString p.revision ++ " does not match plan revision " ++ toString plan.revision))
    ensure (!(r.projections[p.planID]?.any fun old => p.revision < old.revision))
      (errorNew "projection revision regressed")

def commitCheck (e : Event) (p : PlanProjection) : Except Err Unit := do
  ensure (!(p.planID == "" || e.planID != p.planID))
    (errorNew "event and projection plan scope mismatch")
  p.validate
  match r.plans[p.planID]? with
  | none => throw Sentinel.notFound.err
  | some plan =>
    ensure (!(p.revision != plan.revision || e.workspaceID != plan.workspaceID))
      (errorNew "event or projection does not match frozen plan scope")

end

section

variable (r : MemoryRepository) (plan : RequirementExecutionPlan) (e : Event)

def planCheck : Except Err PlanProjection := do
  ensure (!(plan.id == "" || plan.workspaceID == "" || plan.requirementID == "" ||
    plan.planHash == "")) (errorNew "plan id, workspace, requirement and hash are required")
  ensure plan.status.frozen (errorNew "plan must be frozen before persistence")
  ensure (E.planHash plan == some plan.planHash)
    (errorNew "plan hash does not match frozen snapshot")
  newProjection plan

def planKey : String :=
  plan.workspaceID ++ ":" ++ plan.idempotencyKey

/-- The hash stored under the plan's creation key; empty when there is none. -/
def storedHash : String :=
  if plan.idempotencyKey == "" then "" else (r.keys[planKey plan]?).getD ""

/-- The keys with the plan's entered, or with it deleted. -/
def enterKey : GoMap String :=
  if plan.idempotencyKey == "" then r.keys else r.keys.insert (planKey plan) plan.planHash

def deleteKey : GoMap String :=
  if plan.idempotencyKey == "" then r.keys else r.keys.erase (planKey plan)

/-- A lifecycle event without a key is given one. -/
def lifecycleEvent : Event :=
  if blank e.idempotencyKey then
    let e := { e with idempotencyKey := plan.id ++ ":" ++ e.type }
    { e with envelopeHash := eventDigest E e }
  else e

end

end MemoryRepository

section

open MemoryRepository

variable (E : EventHost) (m : MemoryRepository)

def appendEventChange (e : Event) : Change MemoryRepository Unit :=
  match appendEventLocked E m e with
  | .error err => .refuse err m
  | .ok appended => .write appended m ()

def saveProjectionChange (p : PlanProjection) : Change MemoryRepository Unit :=
  .guarded (saveCheck m p) m <|
    let written := { m with projections := m.projections.insert p.planID p, dirty := true }
    .write written { written with
      projections := restore m.projections written.projections p.planID, dirty := m.dirty } ()

/-- The projection is stored also when the event was not appended. -/
def commitEventProjectionChange (e : Event) (p : PlanProjection) : Change MemoryRepository Unit :=
  .guarded (commitCheck m e p) m <|
    match appendEventLocked E m e with
    | .error err => .refuse err m
    | .ok appended =>
      let written :=
        { appended with projections := appended.projections.insert p.planID p, dirty := true }
      .write written { written with
        events := written.events.insert e.planID (m.log e.planID)
        projections := restore m.projections written.projections p.planID
        dirty := m.dirty } ()

/-- A repeated creation key with the same hash is accepted and nothing is stored. -/
def createPlanChange (plan : RequirementExecutionPlan) : Change MemoryRepository Unit :=
  match planCheck E plan with
  | .error err => .refuse err m
  | .ok projection =>
    if m.storedHash plan != "" then
      if m.storedHash plan != plan.planHash then .refuse Sentinel.idempotencyConflict.err m
      else .reply () m
    else if m.plans.contains plan.id then .refuse (errorNew "plan already exists") m
    else .write { m with
      keys := m.enterKey plan
      plans := m.plans.insert plan.id plan
      projections := m.projections.insert plan.id projection
      dirty := true } m ()

/-- The creation of a plan that is stored already only appends its event. When
the snapshot cannot be written, the plan is left with an entry for its log, also
where it had none. -/
def retryEventChange (e : Event) : Change MemoryRepository Unit :=
  match appendEventLocked E m e with
  | .error err => .refuse err m
  | .ok appended =>
    .write appended { m with events := m.events.insert e.planID (m.log e.planID) } ()

def createPlanWithEventChange (plan : RequirementExecutionPlan) (e : Event) :
    Change MemoryRepository Unit :=
  match planCheck E plan with
  | .error err => .refuse err m
  | .ok projection =>
    if e.planID != plan.id || e.workspaceID != plan.workspaceID || e.type == "" then
      .refuse (errorNew "plan event scope does not match plan") m
    else
      let e := lifecycleEvent E plan e
      match m.plans[plan.id]? with
      | some existing =>
        if existing.planHash != plan.planHash then .refuse Sentinel.idempotencyConflict.err m
        else retryEventChange E m e
      | none =>
        if m.storedHash plan != "" && m.storedHash plan != plan.planHash then
          .refuse Sentinel.idempotencyConflict.err m
        else
          let written := { m with
            keys := m.enterKey plan
            plans := m.plans.insert plan.id plan
            projections := m.projections.insert plan.id projection }
          -- A failure deletes the plan's own entries, also ones that were there before.
          let undone := { m with
            keys := m.deleteKey plan
            projections := m.projections.erase plan.id }
          match appendEventLocked E written e with
          | .error err => .refuse err undone
          | .ok appended => .write { appended with dirty := true }
              { undone with events := m.events.erase plan.id } ()

end

namespace MemoryRepository

section

variable (E : EventHost) (r : MemoryRepository)

def saveProjection (p : PlanProjection) (fault : Option Err) : Reply :=
  (saveProjectionChange r p).settle (·.persistLocked fault)

def commitEventProjection (e : Event) (p : PlanProjection) (fault : Option Err) : Reply :=
  (commitEventProjectionChange E r e p).settle (·.persistLocked fault)

def createPlan (plan : RequirementExecutionPlan) (fault : Option Err) : Reply :=
  (createPlanChange E r plan).settle (·.persistLocked fault)

def createPlanWithEvent (plan : RequirementExecutionPlan) (e : Event) (fault : Option Err) :
    Reply :=
  (createPlanWithEventChange E r plan e).settle (·.persistLocked fault)

end

variable {E : EventHost} {r : MemoryRepository} {e : Event} {p : PlanProjection}

/-- The event was new and the whole chain with it is valid. -/
structure Appended (E : EventHost) (log : List Event) (e : Event) : Prop where
  fresh : ∀ old ∈ log, e.idempotencyKey ≠ "" → old.idempotencyKey ≠ e.idempotencyKey
  chain : validateEventChain E (log ++ [rebase E log e]) e.planID e.workspaceID = .ok ()

theorem rebase_scope (log : List Event) :
    (rebase E log e).planID = e.planID ∧ (rebase E log e).workspaceID = e.workspaceID := by
  unfold rebase
  simp only
  split <;> exact ⟨rfl, rfl⟩

/-- An event after the first keeps the sequence and predecessor it was built with. -/
theorem rebase_later (h : 2 ≤ e.sequence) (log : List Event) : rebase E log e = e := by
  have h0 : (e.sequence == 0) = false := by simp; omega
  have h1 : (e.sequence == 1) = false := by simp; omega
  simp [rebase, h0, h1]

/-- The first event of a log with the given key, which an empty key does not have. -/
def keyed (log : List Event) (key : String) : Option Event :=
  log.find? fun old => key != "" && old.idempotencyKey == key

theorem keyed_some {log : List Event} {key : String} {old : Event} (h : keyed log key = some old) :
    old ∈ log ∧ key ≠ "" ∧ old.idempotencyKey = key := by
  have hkey := List.find?_some h
  simp only [Bool.and_eq_true, bne_iff_ne, beq_iff_eq] at hkey
  exact ⟨List.mem_of_find?_eq_some h, hkey⟩

variable {r' : MemoryRepository}

theorem appendEventLocked_ok (h : appendEventLocked E r e = .ok r') :
    (r' = r ∧ ∃ old, keyed (r.log e.planID) e.idempotencyKey = some old ∧
      old.payloadHash = e.payloadHash) ∨
    (Appended E (r.log e.planID) e ∧ r' = { r with
      events := r.events.insert e.planID (r.log e.planID ++ [rebase E (r.log e.planID) e])
      dirty := true }) := by
  unfold appendEventLocked at h
  split at h
  · cases h
  · simp only [then_ok] at h
    obtain ⟨-, h⟩ := h
    split at h
    · rename_i old hold
      split at h
      · rename_i hpayload
        exact .inl ⟨(Except.ok.inj h).symm, old, hold, by simpa using hpayload⟩
      · cases h
    · rename_i hnone
      simp only [then_ok, pure_ok, (rebase_scope _).1, (rebase_scope _).2] at h
      obtain ⟨-, -, hchain, rfl⟩ := h
      refine .inr ⟨⟨fun old hold hne heq => ?_, hchain⟩, rfl⟩
      have hold' := List.find?_eq_none.mp hnone old hold
      simp [hne, heq] at hold'

variable {k : String}

theorem restore_insert :
    restore before (before.insert k v) k = before := by
  refine GoMap.ext_get fun k' => ?_
  unfold restore
  split
  · rename_i w hw
    simp only [GoMap.get_set]
    split
    · rename_i hk; rw [← hk, hw]
    · rfl
  · rename_i hw
    simp only [GoMap.get_delete, GoMap.get_set]
    split
    · rename_i hk; rw [← hk, hw]
    · rfl

/-- What a commit can do: nothing that a reader sees, store the projection for
an event the log already has, or store it with the event appended. -/
inductive Committed (E : EventHost) (r : MemoryRepository) (e : Event) (p : PlanProjection) :
    Except Err Unit → MemoryRepository → Prop
  | refused (err : Err) (r' : MemoryRepository) (plans : r'.plans = r.plans)
    (projections : r'.projections = r.projections) (logs : ∀ k, r'.log k = r.log k) :
    Committed E r e p (.error err) r'
  | repeated (old : Event) (r' : MemoryRepository) (scope : p.planID = e.planID)
    (found : keyed (r.log e.planID) e.idempotencyKey = some old)
    (payload : old.payloadHash = e.payloadHash)
    (plans : r'.plans = r.plans) (projections : r'.projections = r.projections.insert p.planID p)
    (logs : r'.events = r.events) : Committed E r e p (.ok ()) r'
  | appended (r' : MemoryRepository) (scope : p.planID = e.planID)
    (facts : Appended E (r.log e.planID) e) (plans : r'.plans = r.plans)
    (projections : r'.projections = r.projections.insert p.planID p)
    (logs : r'.events =
      r.events.insert e.planID (r.log e.planID ++ [rebase E (r.log e.planID) e])) :
    Committed E r e p (.ok ()) r'

theorem persistLocked_ok (h : r.persistLocked fault = .ok r') :
    r'.plans = r.plans ∧ r'.projections = r.projections ∧ r'.events = r.events := by
  unfold persistLocked at h
  split at h
  · cases h; exact ⟨rfl, rfl, rfl⟩
  · split at h
    · cases h
    · cases h; exact ⟨rfl, rfl, rfl⟩

theorem log_insert (k' : String) (h : r'.events = r.events.insert k l) :
    r'.log k' = if k = k' then l else r.log k' := by
  unfold log
  rw [h, GoMap.get_set]
  split <;> rfl

theorem commit_cases (E : EventHost) (r : MemoryRepository) (e : Event) (p : PlanProjection)
    (fault : Option Err) :
    Committed E r e p (commitEventProjection E r e p fault).1
      (commitEventProjection E r e p fault).2 := by
  unfold commitEventProjection commitEventProjectionChange Change.guarded
  split
  · exact .refused _ _ rfl rfl fun _ => rfl
  · rename_i u hcheck
    have hscope : p.planID = e.planID := by
      simp only [commitCheck, then_ok, ensure_ok] at hcheck
      have h := hcheck.1
      simp only [Bool.not_eq_true', Bool.or_eq_false_iff, bne_eq_false_iff_eq] at h
      exact h.2.symm
    split
    · exact .refused _ _ rfl rfl fun _ => rfl
    · rename_i r₁ happ
      have hparts : r₁.plans = r.plans ∧ r₁.projections = r.projections := by
        rcases appendEventLocked_ok happ with ⟨rfl, -⟩ | ⟨-, rfl⟩ <;> exact ⟨rfl, rfl⟩
      simp only [Change.settle]
      split
      · rename_i r₂ hsave
        obtain ⟨h1, h2, h3⟩ := persistLocked_ok hsave
        rcases appendEventLocked_ok happ with ⟨rfl, old, hfound, hpayload⟩ | ⟨hfacts, rfl⟩
        · exact .repeated old r₂ hscope hfound hpayload h1 h2 h3
        · exact .appended r₂ hscope hfacts h1 h2 h3
      · refine .refused _ _ hparts.1 ?_ fun k => ?_
        · rw [hparts.2]
          exact restore_insert
        · rcases appendEventLocked_ok happ with ⟨rfl, -⟩ | ⟨-, rfl⟩
          · rw [log_insert k rfl]
            split
            · rename_i hk; rw [hk]
            · rfl
          · rw [log_insert k GoMap.set_set]
            split
            · rename_i hk; rw [hk]
            · rfl

def Keeps (k : String) (r r' : MemoryRepository) : Prop :=
  r'.projections[k]? = r.projections[k]? ∧ r'.log k = r.log k

theorem Keeps.of_eq (hp : r'.projections = r.projections) (he : r'.events = r.events) :
    Keeps k r r' :=
  ⟨by rw [hp], by unfold log; rw [he]⟩

theorem Keeps.trans (h : Keeps k r r') (h' : Keeps k r' r'') :
    Keeps k r r'' := ⟨h'.1.trans h.1, h'.2.trans h.2⟩

theorem appendEventLocked_keeps (hk : e.planID ≠ k) (h : appendEventLocked E r e = .ok r') :
    Keeps k r r' := by
  rcases appendEventLocked_ok h with ⟨rfl, -⟩ | ⟨-, rfl⟩
  · exact .of_eq rfl rfl
  · refine ⟨rfl, ?_⟩
    rw [log_insert k rfl, if_neg hk]

theorem lifecycleEvent_planID (plan : RequirementExecutionPlan) (e : Event) :
    (lifecycleEvent E plan e).planID = e.planID := by
  unfold lifecycleEvent
  split <;> rfl

theorem createPlanWithEventChange_keeps (plan : RequirementExecutionPlan) (hk : plan.id ≠ k) :
    (createPlanWithEventChange E r plan e).All (Keeps k r) := by
  have hsame : Keeps k r r := .of_eq rfl rfl
  unfold createPlanWithEventChange
  split
  · exact .refuse hsame
  · split
    · exact .refuse hsame
    · rename_i hscope
      have he : (lifecycleEvent E plan e).planID ≠ k := by
        simp only [Bool.or_eq_true, bne_iff_ne, not_or, not_not] at hscope
        rw [lifecycleEvent_planID, hscope.1.1]
        exact hk
      simp only
      split
      · split
        · exact .refuse hsame
        · unfold retryEventChange
          split
          · exact .refuse hsame
          · rename_i r₁ happ
            refine .write (appendEventLocked_keeps he happ) ⟨rfl, ?_⟩
            rw [log_insert k rfl, if_neg he]
      · split
        · exact .refuse hsame
        · split
          · refine .refuse ⟨?_, rfl⟩
            simp only [GoMap.get_delete, if_neg hk]
          · rename_i r₁ happ
            refine .write ?_ ⟨?_, ?_⟩
            · have hentered := appendEventLocked_keeps he happ
              simp only [Keeps, GoMap.get_set, if_neg hk] at hentered
              exact hentered
            · simp only [GoMap.get_delete, if_neg hk]
            · unfold log
              simp only [GoMap.get_delete, if_neg hk]

theorem createPlanWithEvent_keeps (r : MemoryRepository) (plan : RequirementExecutionPlan)
    (e : Event) (fault : Option Err) (hk : plan.id ≠ k) :
    Keeps k r (createPlanWithEvent E r plan e fault).2 := by
  refine (createPlanWithEventChange_keeps plan hk).settle fun w s hsaved hw => ?_
  obtain ⟨-, hp, he⟩ := persistLocked_ok hsaved
  exact hw.trans (.of_eq hp he)

def Chained (E : EventHost) (r : MemoryRepository) : Prop :=
  ∀ planID, ∃ workspaceID, validateEventChain E (r.log planID) planID workspaceID = .ok ()

theorem chained_empty : Chained E {} := fun _ => ⟨"", rfl⟩

theorem Chained.insert (h : r.Chained E)
    (hl : validateEventChain E l planID ws = .ok ()) (he : r'.events = r.events.insert planID l) :
    r'.Chained E := by
  intro k
  rw [log_insert k he]
  split
  · rename_i hk; exact ⟨ws, hk ▸ hl⟩
  · exact h k

end MemoryRepository

end Adro.Orchestration
