import Adro.Control.Delivery

/-!
# Calls that fail

A call that returns an error takes its writes back. Most calls restore what they
met; the others delete or enter what they assume to be new: a plan created with its
event deletes its creation key, projection and log, a commit leaves an entry for
the plan's log, an enqueue deletes by id. Where these assumptions hold a failed call
leaves the repository as it was, up to the mark that there is something to save,
and later calls do what they would have done without it.
-/

namespace Adro.Control

open Adro.Go Adro.Orchestration

namespace Repository

structure Unchanged (r r' : Repository) : Prop extends SameTables r r' where
  revision : r'.revision = r.revision

/-- The repository up to its mark for unsaved changes, which may have been set. -/
structure Similar (r r' : Repository) : Prop where
  same : r' = { r with dirty := r'.dirty }
  dirty : r.dirty = true → r'.dirty = true

theorem Similar.refl (r : Repository) : r.Similar r := ⟨rfl, id⟩

theorem Similar.unchanged {r r' : Repository} (h : r.Similar r') : r.Unchanged r' := by
  rw [h.same]
  exact ⟨⟨rfl, rfl, rfl, rfl, rfl, rfl, rfl⟩, rfl⟩

/-- What a call writes: it is marked, or is what the call met. -/
structure Follows (r w : Repository) : Prop where
  revision : w.revision = r.revision
  durable : w.durable = r.durable
  marked : w.dirty = true ∨ w = r

/-- What a call leaves is the repository it met, up to its mark, where `p` holds, and has other
maps where it does not. -/
structure LeftAs (r : Repository) (p : Prop) (left : Repository) : Prop where
  similar : p → r.Similar left
  needed : r.Unchanged left → p

theorem leftAs_same {r : Repository} (hp : p) : r.LeftAs p r := ⟨fun _ => .refl r, fun _ => hp⟩

end Repository

section Core

variable (E : EventHost) (m : MemoryRepository) (plan : RequirementExecutionPlan) (e : Event)

/-- A new plan passes every check that comes before its event is appended. -/
def admits : Bool :=
  (MemoryRepository.planCheck E plan).isOk &&
    !(e.planID != plan.id || e.workspaceID != plan.workspaceID || e.type == "") &&
    !m.plans.contains plan.id &&
    !(m.storedHash plan != "" && m.storedHash plan != plan.planHash)

/-- A plan that was entered is taken back: its creation key and projection are deleted. -/
def withoutPlan : MemoryRepository :=
  { m with keys := m.deleteKey plan, projections := m.projections.erase plan.id }

/-- An event that was appended is taken back: the log of before is entered. -/
def relogged (planID : String) : MemoryRepository :=
  { m with events := m.events.insert planID (m.log planID) }

end Core

namespace Repository

section

variable (H : ControlHost) (r : Repository)

def idsKept : Bool := r.outbox.all fun k x => x.id == k

/-- The creation key and the projection of a new plan are not in use. -/
def planFree (plan : RequirementExecutionPlan) : Bool :=
  (plan.idempotencyKey == "" || (r.keys[MemoryRepository.planKey plan]?).isNone) &&
    (r.projections[plan.id]?).isNone

def copied : Bool :=
  (imageMap (·.image H.short) r.agents).isSome && (imageMap (·.image H.short) r.squads).isSome

/-- Nothing of the bundle is entered into a map that was not copied. -/
def EntersNothing (ws : String) (bundle : DefinitionBundle) (now : Time) : Prop :=
  let a := r.enterAgents H ws now bundle.agents
  let s := r.enterSquads H ws a.2.entries bundle.squads
  ((imageMap (·.image H.short) r.agents).isSome = true ∨ a.2.created = 0) ∧
    ((imageMap (·.image H.short) r.squads).isSome = true ∨ a.1.isOk = false ∨ s.2.created = 0)

/-- When a call that is refused leaves the maps as they were. -/
def Keeps : Call → Prop
  | .createPlanWithEvent plan e =>
    admits H.toEventHost r.toMemoryRepository plan e = true → r.planFree plan = true
  | .importDefinitionBundle ws bundle _ now =>
    (bundleCheck H (trimSpace ws) bundle).isOk = true → r.EntersNothing H (trimSpace ws) bundle now
  | _ => True

/-- When a call whose snapshot cannot be written takes its writes back: entries it deletes are
its own, and entries it writes back were there. -/
def Restores : Call → Prop
  | .createPlanWithEvent plan _ =>
    if r.plans.contains plan.id then r.events.contains plan.id = true
    else r.planFree plan = true ∧ r.events[plan.id]? = none
  | .commitEventProjection e _ => r.events.contains e.planID = true
  | .enqueueOutbox record clock => r.outbox[enqueueID record clock]? = none
  | .claimOutbox planID _ _ now clock order =>
    let selected := (r.candidates planID (instant now clock) order).foldl preferred {}
    ∀ item ∈ r.outbox[selected.id]?, r.outbox.contains item.id = true
  | .claimOutboxByID id .. => ∀ item ∈ r.outbox[trimSpace id]?, r.outbox.contains item.id = true
  | .ackOutbox id .. | .failOutbox id .. =>
    ∀ item ∈ r.outbox[trimSpace id]?, r.outbox[item.id]? = some item
  | .importDefinitionBundle ws bundle _ now => r.EntersNothing H (trimSpace ws) bundle now
  | _ => True

/-- What a call that writes nothing takes for granted. -/
def steady : Call → Bool
  | .createPlanWithEvent plan _ => r.plans.contains plan.id || r.planFree plan
  | .importDefinitionBundle .. => r.copied H
  | _ => true

/-- What a call takes for granted that takes its writes back. -/
def restorable : Call → Bool
  | .createPlanWithEvent plan _ =>
    if r.plans.contains plan.id then r.events.contains plan.id
    else r.planFree plan && (r.events[plan.id]?).isNone
  | .commitEventProjection e _ => r.events.contains e.planID
  | .enqueueOutbox record clock =>
    !record.trimmed.complete || (r.enqueued record.trimmed).isSome ||
      (r.outbox[enqueueID record clock]?).isNone
  | .claimOutbox .. | .claimOutboxByID .. | .ackOutbox .. | .failOutbox .. => r.idsKept
  | .importDefinitionBundle .. => r.copied H
  | _ => true

end

end Repository

variable {H : ControlHost} {r : Repository}

section Core

variable {m : MemoryRepository}

/-- The same for the part of the repository that the plans are in. -/
structure CoreFollows (m w : MemoryRepository) : Prop where
  durable : w.durable = m.durable
  marked : w.dirty = true ∨ w = m

theorem appendEventLocked_follows
    (h : MemoryRepository.appendEventLocked E m e = .ok m') : CoreFollows m m' := by
  rcases MemoryRepository.appendEventLocked_ok h with ⟨rfl, -⟩ | ⟨-, rfl⟩
  · exact ⟨rfl, .inr rfl⟩
  · exact ⟨rfl, .inl rfl⟩

theorem insert_log_self :
    m.events.insert planID (m.log planID) = m.events ↔ m.events.contains planID = true := by
  rw [GoMap.set_eq_self, ← Std.ExtTreeMap.isSome_getElem?_eq_contains]
  unfold MemoryRepository.log
  cases m.events[planID]? <;> simp

theorem deleteKey_self : m.deleteKey plan = m.keys ↔
    plan.idempotencyKey = "" ∨ m.keys[MemoryRepository.planKey plan]? = none := by
  unfold MemoryRepository.deleteKey
  split
  · simp_all
  · rename_i hkey
    simp only [GoMap.erase_eq_self]
    simp_all

section

variable (plan : RequirementExecutionPlan) (e : Event)

theorem retryEventChange_leaves :
    (retryEventChange E m e).Leaves (CoreFollows m) (· = m) (· = relogged m e.planID) := by
  unfold retryEventChange
  cases happ : MemoryRepository.appendEventLocked E m e with
  | error err => exact .refuse rfl
  | ok appended => exact .write (appendEventLocked_follows happ) rfl

theorem appendEventChange_leaves :
    (appendEventChange E m e).Leaves (CoreFollows m) (· = m) (· = m) := by
  unfold appendEventChange
  cases happ : MemoryRepository.appendEventLocked E m e with
  | error err => exact .refuse rfl
  | ok appended => exact .write (appendEventLocked_follows happ) rfl

theorem saveProjectionChange_leaves :
    (saveProjectionChange m p).Leaves (CoreFollows m) (· = m) (· = m) := by
  refine Change.Leaves.guarded rfl (.write ⟨rfl, .inl rfl⟩ ?_)
  simp only [MemoryRepository.restore_insert]

theorem commitEventProjectionChange_leaves (p : PlanProjection) :
    (commitEventProjectionChange E m e p).Leaves (CoreFollows m) (· = m)
      (· = relogged m e.planID) := by
  refine Change.Leaves.guarded rfl ?_
  cases happ : MemoryRepository.appendEventLocked E m e with
  | error err => exact .refuse rfl
  | ok appended =>
    refine .write ⟨(appendEventLocked_follows happ).durable, .inl rfl⟩ ?_
    rcases MemoryRepository.appendEventLocked_ok happ with ⟨rfl, -⟩ | ⟨-, rfl⟩
    · simp only [MemoryRepository.restore_insert, relogged]
    · simp only [MemoryRepository.restore_insert, GoMap.set_set, relogged]

theorem createPlanChange_leaves :
    (createPlanChange E m plan).Leaves (CoreFollows m) (· = m) (· = m) := by
  unfold createPlanChange
  cases MemoryRepository.planCheck E plan with
  | error err => exact .refuse rfl
  | ok projection =>
    simp only
    split
    · split
      · exact .refuse rfl
      · exact .reply rfl
    · split
      · exact .refuse rfl
      · exact .write ⟨rfl, .inl rfl⟩ rfl

theorem createPlanWithEventChange_leaves {P Q : MemoryRepository → Prop}
    (hrefused : admits E m plan e = false → P m)
    (hback : admits E m plan e = true → P (withoutPlan m plan))
    (hold : m.plans.contains plan.id = true → Q (relogged m plan.id))
    (hnew : m.plans.contains plan.id = false →
      Q { withoutPlan m plan with events := m.events.erase plan.id }) :
    (createPlanWithEventChange E m plan e).Leaves (CoreFollows m) P Q := by
  unfold createPlanWithEventChange
  cases hcheck : MemoryRepository.planCheck E plan with
  | error err => exact .refuse (hrefused (by simp [admits, hcheck, Except.isOk, Except.toBool]))
  | ok projection =>
    simp only
    split
    · rename_i hscope
      exact .refuse (hrefused
        (by simp only [admits, hscope, Bool.not_true, Bool.and_false, Bool.false_and]))
    · rename_i hscope
      have hplan : e.planID = plan.id := by
        simp only [Bool.not_eq_true, Bool.or_eq_false_iff, bne_eq_false_iff_eq] at hscope
        exact hscope.1.1
      cases hp : m.plans[plan.id]? with
      | some existing =>
        have hstored : m.plans.contains plan.id = true := by
          rw [← Std.ExtTreeMap.isSome_getElem?_eq_contains, hp]
          rfl
        have hm : P m := hrefused (by simp [admits, hstored])
        simp only
        split
        · exact .refuse hm
        · refine (retryEventChange_leaves _).imp (fun _ h => h ▸ hm) fun _ h => ?_
          rw [h, MemoryRepository.lifecycleEvent_planID, hplan]
          exact hold hstored
      | none =>
        have hstored : m.plans.contains plan.id = false := by
          rw [← Std.ExtTreeMap.isSome_getElem?_eq_contains, hp]
          rfl
        simp only
        split
        · rename_i hhash
          exact .refuse (hrefused (by simp only [admits, hhash, Bool.not_true, Bool.and_false]))
        · rename_i hhash
          generalize happ : MemoryRepository.appendEventLocked E _ _ = appended
          cases appended with
          | error err =>
            refine .refuse (hback ?_)
            simp only [admits, hcheck, Except.isOk, Except.toBool,
              Bool.eq_false_of_not_eq_true hscope,
              hstored, Bool.eq_false_of_not_eq_true hhash, Bool.not_false, Bool.and_self]
          | ok appended =>
            exact .write ⟨(appendEventLocked_follows happ).durable, .inl rfl⟩ (hnew hstored)

end

end Core

theorem leaves_core {c : Change MemoryRepository ρ} {P Q : Repository → Prop}
    (h : c.Leaves (CoreFollows r.toMemoryRepository) (fun m => P (r.withCore m))
      fun m => Q (r.withCore m)) :
    (c.map r.withCore).Leaves r.Follows P Q := by
  refine h.map (fun m hm => ?_) (fun _ h => h) fun _ h => h
  refine ⟨rfl, hm.durable, hm.marked.imp id fun hm => ?_⟩
  rw [hm]
  rfl

theorem idsKept_iff : r.idsKept = true ↔ Keyed r.outbox := by
  unfold Repository.idsKept Keyed
  rw [GoMap.all_iff]
  simp

theorem planFree_iff : r.planFree plan = true ↔
    r.deleteKey plan = r.keys ∧ r.projections.erase plan.id = r.projections := by
  rw [deleteKey_self, GoMap.erase_eq_self]
  simp [Repository.planFree]

theorem leftWith_copied (h : r.copied H = true) (agents : GoMap AgentDefinition)
    (squads : GoMap SquadDefinition) : r.leftWith H agents squads = r := by
  simp only [Repository.copied, Bool.and_eq_true] at h
  simp only [Repository.leftWith, h.1, h.2, if_true]

section Entered

variable {α : Type} {I : Importer α} {p p' : Progress α}

theorem importOne_grows (h : I.importOne i p a = .ok p') :
    (p'.created = p.created ∧ p'.entries = p.entries) ∨
      (p'.created = p.created + 1 ∧ p'.entries.size = p.entries.size + 1) := by
  simp only [Importer.importOne, then_ok, ensure_ok] at h
  obtain ⟨-, -, h⟩ := h
  split at h
  · simp only [then_ok, pure_ok] at h
    obtain ⟨-, rfl⟩ := h
    exact .inl ⟨rfl, rfl⟩
  · rename_i hnone
    cases pure_ok.1 h
    refine .inr ⟨rfl, ?_⟩
    have hmem : I.key a ∉ p.entries := by
      rw [Std.ExtTreeMap.mem_iff_isSome_getElem?, hnone]
      simp
    simp [Std.ExtTreeMap.size_insert, hmem]

/-- Every definition that is entered is new, so the number of them says whether there is one. -/
theorem importAll_grows (I : Importer α) (i : Nat) (p : Progress α) (l : List α) : ∃ n : Nat,
    (I.importAll i p l).2.created = p.created + n ∧
      (I.importAll i p l).2.entries.size = p.entries.size + n ∧
      (n = 0 → (I.importAll i p l).2.entries = p.entries) := by
  induction l generalizing i p with
  | nil => exact ⟨0, by simp [Importer.importAll], rfl, fun _ => rfl⟩
  | cons a rest ih =>
    unfold Importer.importAll
    cases hone : I.importOne i p a with
    | error err => exact ⟨0, by simp, rfl, fun _ => rfl⟩
    | ok p' =>
      obtain ⟨n, hcreated, hsize, hsame⟩ := ih (i + 1) p'
      rcases importOne_grows hone with ⟨hc, he⟩ | ⟨hc, he⟩
      · exact ⟨n, by rw [hcreated, hc], by rw [hsize, he], fun hn => by rw [hsame hn, he]⟩
      · exact ⟨n + 1, by rw [hcreated, hc]; push_cast; omega, by rw [hsize, he]; omega, nofun⟩

theorem importAll_same {entries : GoMap α} :
    (I.importAll i { entries } l).2.entries = entries ↔
    (I.importAll i { entries } l).2.created = 0 := by
  obtain ⟨n, hcreated, hsize, hsame⟩ := importAll_grows I i { entries } l
  rw [hcreated]
  constructor
  · intro h
    rw [h] at hsize
    simp only at hsize ⊢
    omega
  · intro h
    exact hsame (by simp only at h; omega)

end Entered

section LeftAs

theorem leftAs_outbox {outbox : GoMap OutboxRecord} (hdirty : r.dirty = true → dirty = true)
    (h : outbox = r.outbox ↔ p) : r.LeftAs p { r with outbox, dirty } := by
  refine ⟨fun hp => ?_, fun hsame => h.1 hsame.outbox⟩
  rw [h.2 hp]
  exact ⟨rfl, hdirty⟩

theorem leftAs_relogged (planID : String) :
    r.LeftAs (r.events.contains planID = true)
      (r.withCore (relogged r.toMemoryRepository planID)) := by
  refine ⟨fun h => ?_, fun h => insert_log_self.1 h.events⟩
  rw [relogged, insert_log_self.2 h]
  exact .refl r

theorem leftAs_withoutPlan (plan : RequirementExecutionPlan) :
    r.LeftAs (r.planFree plan = true) (r.withCore (withoutPlan r.toMemoryRepository plan)) := by
  refine ⟨fun h => ?_, fun h => planFree_iff.2 ⟨h.keys, h.projections⟩⟩
  obtain ⟨hkeys, hprojections⟩ := planFree_iff.1 h
  rw [withoutPlan, hkeys, hprojections]
  exact .refl r

theorem leftAs_newPlan (plan : RequirementExecutionPlan) :
    r.LeftAs (r.planFree plan = true ∧ r.events[plan.id]? = none)
      (r.withCore { withoutPlan r.toMemoryRepository plan with
        events := r.events.erase plan.id }) := by
  refine ⟨fun h => ?_, fun h => ⟨planFree_iff.2 ⟨h.keys, h.projections⟩,
    GoMap.erase_eq_self.1 h.events⟩⟩
  obtain ⟨hkeys, hprojections⟩ := planFree_iff.1 h.1
  rw [withoutPlan, hkeys, hprojections, GoMap.erase_of_none h.2]
  exact .refl r

theorem entered_agents (h : (imageMap (·.image H.short) r.agents).isSome = false) (ws : String)
    (bundle : DefinitionBundle) (now : Time) :
    (r.entered H ws bundle now).1 = r.agents ↔
    (r.enterAgents H ws now bundle.agents).2.created = 0 := by
  have hnone : imageMap (·.image H.short) r.agents = none := by simpa using h
  simp only [Repository.entered, Repository.enterAgents, hnone, Option.getD_none]
  exact importAll_same

theorem entered_squads (h : (imageMap (·.image H.short) r.squads).isSome = false) (ws : String)
    (bundle : DefinitionBundle) (now : Time) :
    (r.entered H ws bundle now).2 = r.squads ↔
      (r.enterAgents H ws now bundle.agents).1.isOk = false ∨
        (r.enterSquads H ws (r.enterAgents H ws now bundle.agents).2.entries
          bundle.squads).2.created = 0 := by
  have hnone : imageMap (·.image H.short) r.squads = none := by simpa using h
  simp only [Repository.entered]
  cases (r.enterAgents H ws now bundle.agents).1.isOk with
  | false => simp
  | true =>
    simp only [if_true, Bool.true_eq_false, false_or, Repository.enterSquads, hnone,
      Option.getD_none]
    exact importAll_same

theorem leftAs_entered (ws : String) (bundle : DefinitionBundle) (now : Time) :
    r.LeftAs (r.EntersNothing H ws bundle now)
      (r.leftWith H (r.entered H ws bundle now).1 (r.entered H ws bundle now).2) := by
  have hagents := entered_agents (H := H) (r := r)
  have hsquads := entered_squads (H := H) (r := r)
  unfold Repository.EntersNothing Repository.leftWith
  constructor
  · rintro ⟨ha, hs⟩
    have ha' : (if (imageMap (·.image H.short) r.agents).isSome then r.agents
        else (r.entered H ws bundle now).1) = r.agents := by
      split
      · rfl
      · rename_i hcopy
        exact (hagents (by simpa using hcopy) ws bundle now).2 (ha.resolve_left hcopy)
    have hs' : (if (imageMap (·.image H.short) r.squads).isSome then r.squads
        else (r.entered H ws bundle now).2) = r.squads := by
      split
      · rfl
      · rename_i hcopy
        exact (hsquads (by simpa using hcopy) ws bundle now).2 (hs.resolve_left hcopy)
    rw [ha', hs']
    exact .refl r
  · intro h
    refine ⟨or_iff_not_imp_left.2 fun hcopy => ?_, or_iff_not_imp_left.2 fun hcopy => ?_⟩
    · exact (hagents (by simpa using hcopy) ws bundle now).1 (by simpa [hcopy] using h.agents)
    · exact (hsquads (by simpa using hcopy) ws bundle now).1 (by simpa [hcopy] using h.squads)

end LeftAs

/-- What a call leaves that writes nothing, and what one leaves whose write is taken back. -/
theorem change_leftAs (c : Call) :
    (c.change H r).Leaves r.Follows (r.LeftAs (r.Keeps H c)) (r.LeftAs (r.Restores H c)) := by
  have hr {p : Prop} (hp : p) : r.LeftAs p r := Repository.leftAs_same hp
  cases c
  case flush => exact .write ⟨rfl, rfl, .inr rfl⟩ (hr trivial)
  all_goals refine Change.Leaves.returning ?_
  case saveAgent =>
    exact saveAgent_leaves (hr trivial) (fun _ => ⟨rfl, rfl, .inl rfl⟩) (hr trivial) _ _
  case saveSquad =>
    exact saveSquad_leaves (hr trivial) (fun _ => ⟨rfl, rfl, .inl rfl⟩) (hr trivial) _ _
  case createPlan plan =>
    exact leaves_core ((createPlanChange_leaves plan).imp (fun _ h => h ▸ hr trivial)
      fun _ h => h ▸ hr trivial)
  case createPlanWithEvent plan e =>
    refine leaves_core (createPlanWithEventChange_leaves plan e ?_ ?_ ?_ ?_)
    · exact fun hrefused => hr fun h => absurd (hrefused.symm.trans h) nofun
    · intro hadmits
      simpa [Repository.Keeps, hadmits] using leftAs_withoutPlan plan
    · intro hplan
      simpa [Repository.Restores, hplan] using leftAs_relogged plan.id
    · intro hplan
      simpa [Repository.Restores, hplan] using leftAs_newPlan plan
  case saveProjection p =>
    exact leaves_core (saveProjectionChange_leaves.imp (fun _ h => h ▸ hr trivial)
      fun _ h => h ▸ hr trivial)
  case appendEvent e =>
    exact leaves_core ((appendEventChange_leaves e).imp (fun _ h => h ▸ hr trivial)
      fun _ h => h ▸ hr trivial)
  case commitEventProjection e p =>
    exact leaves_core ((commitEventProjectionChange_leaves e p).imp (fun _ h => h ▸ hr trivial)
      fun _ h => h ▸ leftAs_relogged e.planID)
  case importDefinitionBundle ws bundle dryRun now =>
    refine importDefinitionBundle_leaves _ _ _ _ ?_ (fun _ _ => ⟨rfl, rfl, .inl rfl⟩) ?_
    · exact fun hrefused => hr fun h => absurd (hrefused.symm.trans h) nofun
    · intro hchecked
      have hleft := leftAs_entered (H := H) (r := r) (trimSpace ws) bundle now
      exact ⟨by simpa [Repository.Keeps, hchecked] using hleft, hleft⟩
  all_goals
    have hw (outbox : GoMap OutboxRecord) : r.Follows { r with outbox, dirty := true } :=
      ⟨rfl, rfl, .inl rfl⟩
  case enqueueOutbox record clock =>
    exact enqueueOutbox_leaves (hr trivial) hw record clock fun _ _ _ h => leftAs_outbox id h
  case claimOutbox =>
    refine claimOutbox_leaves (hr trivial) hw _ _ _ _ _ _ fun item outbox hitem h => ?_
    exact leftAs_outbox (fun _ => rfl) (by simpa [Repository.Restores, hitem] using h)
  case claimOutboxByID =>
    refine claimOutboxByID_leaves (hr trivial) hw _ _ _ _ _ fun item outbox hitem h => ?_
    exact leftAs_outbox (fun _ => rfl) (by simpa [Repository.Restores, hitem] using h)
  case ackOutbox =>
    refine settleOutbox_leaves (hr trivial) hw _ _ _ _ fun item outbox hitem h => ?_
    exact leftAs_outbox (fun _ => rfl) (by simpa [Repository.Restores, hitem] using h)
  case failOutbox =>
    refine Change.Leaves.guarded (hr trivial) (settleOutbox_leaves (hr trivial) hw _ _ _ _ ?_)
    intro item outbox hitem h
    exact leftAs_outbox (fun _ => rfl) (by simpa [Repository.Restores, hitem] using h)

theorem keeps_of_steady (h : r.steady H c = true) : r.Keeps H c := by
  cases c with
  | createPlanWithEvent plan e =>
    intro hadmits
    simp only [admits, Bool.and_eq_true, Bool.not_eq_true'] at hadmits
    simpa [Repository.steady, hadmits.1.2] using h
  | importDefinitionBundle =>
    simp only [Repository.steady, Repository.copied, Bool.and_eq_true] at h
    exact fun _ => ⟨.inl h.1, .inl h.2⟩
  | _ => trivial

theorem restores_of_restorable (hc : ∀ record clock, c ≠ .enqueueOutbox record clock)
    (h : r.restorable H c = true) : r.Restores H c := by
  cases c with
  | createPlanWithEvent plan e =>
    simp only [Repository.restorable] at h
    simp only [Repository.Restores]
    split at h
    · rename_i hplan
      rwa [if_pos hplan]
    · rename_i hplan
      rw [if_neg hplan]
      simpa using h
  | commitEventProjection => exact h
  | enqueueOutbox record clock => exact absurd rfl (hc record clock)
  | claimOutbox | claimOutboxByID =>
    intro item hitem
    rw [idsKept_iff.1 h _ item hitem, ← Std.ExtTreeMap.isSome_getElem?_eq_contains, hitem]
    rfl
  | ackOutbox | failOutbox =>
    intro item hitem
    rw [idsKept_iff.1 h _ item hitem]
    exact hitem
  | importDefinitionBundle =>
    simp only [Repository.restorable, Repository.copied, Bool.and_eq_true] at h
    exact ⟨.inl h.1, .inl h.2⟩
  | _ => trivial

/-- What a call leaves that writes nothing, and what one leaves that can be taken back. -/
theorem change_leaves (c : Call) (h : r.steady H c = true) :
    (c.change H r).Leaves r.Follows r.Similar fun u => r.restorable H c = true → r.Similar u := by
  by_cases hc : ∃ record clock, c = .enqueueOutbox record clock
  · obtain ⟨record, clock, rfl⟩ := hc
    refine (enqueueOutbox_leaves (.refl r)
      (fun _ => ⟨rfl, rfl, .inl rfl⟩) record clock ?_).returning
    intro outbox hcomplete hnone hiff hrestorable
    rw [hiff.2 (by simpa [Repository.restorable, hcomplete, hnone] using hrestorable)]
    exact .refl r
  · refine (change_leftAs c).imp (fun _ hl => hl.similar (keeps_of_steady h)) fun _ hu hr =>
      hu.similar ?_
    exact restores_of_restorable (fun record clock heq => hc ⟨record, clock, heq⟩) hr

theorem steady_of_restorable (h : r.restorable H c = true) : r.steady H c = true := by
  cases c with
  | createPlanWithEvent plan e =>
    simp only [Repository.restorable] at h
    simp only [Repository.steady, Bool.or_eq_true]
    split at h
    · rename_i hplan
      exact .inl hplan
    · exact .inr (Bool.and_eq_true_iff.mp h).1
  | importDefinitionBundle => exact h
  | _ => rfl

/-- The repository, marked where `d` says so. No call reads the mark. -/
def Repository.touch (d : Bool) (r : Repository) : Repository := { r with dirty := r.dirty || d }

def touchCore (d : Bool) (m : MemoryRepository) : MemoryRepository :=
  { m with dirty := m.dirty || d }

theorem Repository.sameTables_touch : r.SameTables (r.touch d) :=
  ⟨rfl, rfl, rfl, rfl, rfl, rfl, rfl⟩

theorem Repository.Similar.eq_touch (h : r.Similar r') : ∃ d, r' = r.touch d := by
  have hdirty : (r.dirty || r'.dirty) = r'.dirty := by
    cases hr : r.dirty with
    | false => rfl
    | true => rw [h.dirty hr]; rfl
  refine ⟨r'.dirty, ?_⟩
  rw [Repository.touch, hdirty]
  exact h.same

section

variable {σ τ υ ρ ρ' : Type} {c : Change σ ρ} {f : σ → τ}

theorem Change.map_returning : (c.returning g).map f = (c.map f).returning g := by
  cases c <;> rfl

theorem Change.map_guarded {r : σ} :
    (Change.guarded check r c).map f = Change.guarded check (f r) (c.map f) := by
  cases check <;> rfl

theorem Change.map_map : (c.map f).map g = c.map fun x => g (f x) := by
  cases c <;> rfl

end

variable {d : Bool}

section Core

open MemoryRepository

theorem appendEventLocked_touch (e : Event) :
    appendEventLocked E (touchCore d m) e = (appendEventLocked E m e).map (touchCore d) := by
  unfold appendEventLocked
  simp only [show (touchCore d m).log e.planID = m.log e.planID from rfl,
    show (touchCore d m).plans = m.plans from rfl]
  cases m.plans[e.planID]? with
  | none => rfl
  | some plan =>
    simp only
    generalize ensure (e.workspaceID == plan.workspaceID) _ = scope
    cases scope with
    | error err => rfl
    | ok _ =>
      simp only [bind, Except.bind]
      split
      · split <;> rfl
      · split
        · rfl
        · split
          · rfl
          · split <;> rfl

theorem appendEventChange_touch :
    appendEventChange E (touchCore d m) e = (appendEventChange E m e).map (touchCore d) := by
  unfold appendEventChange
  rw [appendEventLocked_touch]
  cases appendEventLocked E m e <;> rfl

theorem retryEventChange_touch :
    retryEventChange E (touchCore d m) e = (retryEventChange E m e).map (touchCore d) := by
  unfold retryEventChange
  rw [appendEventLocked_touch]
  cases appendEventLocked E m e <;> rfl

theorem saveProjectionChange_touch :
    saveProjectionChange (touchCore d m) p = (saveProjectionChange m p).map (touchCore d) := by
  unfold saveProjectionChange
  rw [Change.map_guarded]
  rfl

theorem commitEventProjectionChange_touch :
    commitEventProjectionChange E (touchCore d m) e p =
      (commitEventProjectionChange E m e p).map (touchCore d) := by
  unfold commitEventProjectionChange
  rw [Change.map_guarded, appendEventLocked_touch]
  cases appendEventLocked E m e <;> rfl

theorem createPlanChange_touch (plan : RequirementExecutionPlan) :
    createPlanChange E (touchCore d m) plan = (createPlanChange E m plan).map (touchCore d) := by
  unfold createPlanChange
  simp only [show (touchCore d m).storedHash plan = m.storedHash plan from rfl,
    show (touchCore d m).plans = m.plans from rfl]
  cases planCheck E plan with
  | error err => rfl
  | ok projection =>
    simp only
    split
    · split <;> rfl
    · split <;> rfl

theorem createPlanWithEventChange_touch (plan : RequirementExecutionPlan) (e : Event) :
    createPlanWithEventChange E (touchCore d m) plan e =
      (createPlanWithEventChange E m plan e).map (touchCore d) := by
  unfold createPlanWithEventChange
  simp only [show (touchCore d m).storedHash plan = m.storedHash plan from rfl,
    show (touchCore d m).enterKey plan = m.enterKey plan from rfl,
    show (touchCore d m).plans = m.plans from rfl]
  cases planCheck E plan with
  | error err => rfl
  | ok projection =>
    simp only
    split
    · rfl
    · cases m.plans[plan.id]? with
      | some existing =>
        simp only
        split
        · rfl
        · exact retryEventChange_touch
      | none =>
        simp only
        split
        · rfl
        · have happ := appendEventLocked_touch (E := E) (d := d) (m := { m with
            keys := m.enterKey plan
            plans := m.plans.insert plan.id plan
            projections := m.projections.insert plan.id projection }) (lifecycleEvent E plan e)
          simp only [touchCore] at happ ⊢
          rw [happ]
          generalize appendEventLocked E _ _ = appended
          cases appended <;> rfl

end Core

theorem saveSquad_touch :
    (r.touch d).saveSquad s expected = (r.saveSquad s expected).map (.touch d) := by
  have hcheck : (r.touch d).saveSquadCheck s expected = r.saveSquadCheck s expected := by
    unfold Repository.saveSquadCheck
    rw [show (r.touch d).validatePublishedSquadLocked = r.validatePublishedSquadLocked from
      validatePublishedSquadLocked_congr rfl rfl]
    rfl
  unfold Repository.saveSquad
  rw [Change.map_guarded, hcheck]
  rfl

theorem claimOutboxLocked_touch (id owner : String) (ttl : Duration) :
    (r.touch d).claimOutboxLocked H id owner ttl now =
      (r.claimOutboxLocked H id owner ttl now).map (.touch d) := by
  unfold Repository.claimOutboxLocked
  rw [show (r.touch d).outbox = r.outbox from rfl]
  cases r.outbox[id]? with
  | none => rfl
  | some item =>
    simp only
    split
    · rfl
    · split <;> rfl

theorem settleOutbox_touch (id owner : String) (settle : OutboxRecord → OutboxRecord) :
    (r.touch d).settleOutbox id owner now settle =
      (r.settleOutbox id owner now settle).map (.touch d) := by
  unfold Repository.settleOutbox
  rw [show (r.touch d).outbox = r.outbox from rfl]
  cases r.outbox[trimSpace id]? with
  | none => rfl
  | some item =>
    simp only
    split <;> rfl

theorem importDefinitionBundle_touch : (r.touch d).importDefinitionBundle H ws bundle dryRun now =
      (r.importDefinitionBundle H ws bundle dryRun now).map (.touch d) := by
  have hsquads (agents : GoMap AgentDefinition) :
      (r.touch d).enterSquads H (trimSpace ws) agents bundle.squads =
        r.enterSquads H (trimSpace ws) agents bundle.squads := by
    unfold Repository.enterSquads
    simp only [show (r.touch d).squads = r.squads from rfl]
    rw [squadImporter_congr]
    rfl
  unfold Repository.importDefinitionBundle
  simp only [hsquads, show (r.touch d).enterAgents H (trimSpace ws) now bundle.agents =
    r.enterAgents H (trimSpace ws) now bundle.agents from rfl]
  split
  · rfl
  · split
    · rfl
    · split
      · rfl
      · split <;> rfl

theorem change_touch (c : Call) : c.change H (r.touch d) = (c.change H r).map (.touch d) := by
  have hcore {ρ : Type} {c : Change MemoryRepository ρ} :
      (c.map (touchCore d)).map (r.touch d).withCore = (c.map r.withCore).map (.touch d) := by
    rw [Change.map_map, Change.map_map]
    rfl
  cases c
  all_goals
    simp only [Call.change, Change.map_returning]
    congr 1
  case saveAgent a expected =>
    unfold Repository.saveAgent
    rw [Change.map_guarded]
    rfl
  case saveSquad s expected => exact saveSquad_touch
  case createPlan plan => exact (congrArg _ (createPlanChange_touch plan)).trans hcore
  case createPlanWithEvent plan e =>
    exact (congrArg _ (createPlanWithEventChange_touch plan e)).trans hcore
  case saveProjection p => exact (congrArg _ saveProjectionChange_touch).trans hcore
  case appendEvent e => exact (congrArg _ appendEventChange_touch).trans hcore
  case commitEventProjection e p =>
    exact (congrArg _ commitEventProjectionChange_touch).trans hcore
  case enqueueOutbox record clock =>
    unfold Repository.enqueueOutbox
    simp only [show (r.touch d).enqueued record.trimmed = r.enqueued record.trimmed from rfl]
    split
    · rfl
    · split
      · split <;> rfl
      · rfl
  case claimOutbox planID owner ttl now clock order =>
    unfold Repository.claimOutbox
    rw [Change.map_guarded]
    simp only [show ∀ now, (r.touch d).candidates planID now order =
      r.candidates planID now order from
      fun _ => rfl]
    split
    · rfl
    · rw [claimOutboxLocked_touch]
  case claimOutboxByID id owner ttl now clock =>
    exact (congrArg _ (claimOutboxLocked_touch ..)).trans Change.map_guarded.symm
  case ackOutbox id owner now clock deliveryErr => exact settleOutbox_touch ..
  case failOutbox id owner now clock reason =>
    exact (congrArg _ (settleOutbox_touch ..)).trans Change.map_guarded.symm
  case importDefinitionBundle ws bundle dryRun now => exact importDefinitionBundle_touch

/-- A change that succeeds in the marked repository does the same in the other. -/
theorem Change.settle_touch {c : Change Repository ρ}
    (hok : ((c.map (.touch d)).settle (Repository.persistLocked · fault)).1 = .ok value) :
    (c.settle (Repository.persistLocked · fault)).1 = .ok value ∧
      Repository.SameTables (c.settle (Repository.persistLocked · fault)).2
        ((c.map (.touch d)).settle (Repository.persistLocked · fault)).2 := by
  cases c with
  | refuse err left => cases hok
  | reply v left => exact ⟨hok, Repository.sameTables_touch⟩
  | write w u v failure =>
    have hsaved : ∃ s, w.persistLocked fault = .ok s := by
      cases hp : w.persistLocked fault with
      | ok s => exact ⟨s, rfl⟩
      | error err =>
        -- What cannot be saved here cannot be saved there.
        simp only [Repository.persistLocked] at hp
        split at hp
        · cases hp
        · rename_i hdirty
          simp only [Bool.or_eq_true, Bool.not_eq_true', not_or] at hdirty
          simp only [Change.map, Repository.touch, hdirty.1, hdirty.2] at hok
          cases fault with
          | none => cases hp
          | some e => cases hok
    obtain ⟨s, hs⟩ := hsaved
    simp only [Change.map, Change.settle, hs] at hok ⊢
    cases hp : (w.touch d).persistLocked fault with
    | error err =>
      rw [hp] at hok
      cases hok
    | ok s' =>
      rw [hp] at hok
      exact ⟨hok, (Repository.persistLocked_tables hs).symm.trans
        (Repository.sameTables_touch.trans (Repository.persistLocked_tables hp))⟩

section

variable {σ ρ : Type} {P : σ → Prop} {persist : σ → Except Err σ}

def Change.Refused : Change σ ρ → Prop
  | .refuse .. => True
  | _ => False

/-- The snapshot of what the change writes cannot be written. -/
def Change.Unsaved (persist : σ → Except Err σ) : Change σ ρ → Prop
  | .write written .. => ∃ err, persist written = .error err
  | _ => False

/-- What fails is a refusal or a write that is taken back. -/
theorem Change.failed_iff {c : Change σ ρ} (h : c.Leaves W (fun s => P s ↔ p) fun s => P s ↔ q) :
    (∀ err, (c.settle persist).1 = .error err → P (c.settle persist).2) ↔
      (c.Refused → p) ∧ (c.Unsaved persist → q) := by
  cases h with
  | refuse h => simp [Change.settle, Change.Refused, Change.Unsaved, h]
  | reply h => simp [Change.settle, Change.Refused, Change.Unsaved]
  | @write written undone value failure hw hu =>
    cases hp : persist written <;> simp [Change.settle, Change.Refused, Change.Unsaved, hp, hu]

end

/-- The maps and the revision are as they were, and a later call that succeeds does what it would
have done in the repository as it was. -/
def Repository.Forgets (H : ControlHost) (r left : Repository) : Prop :=
  r.Unchanged left ∧ ∀ next answer, (perform H left next).1 = .ok answer →
    (perform H r next).1 = .ok answer ∧ (step H r next).SameTables (step H left next)

theorem Repository.LeftAs.forgets (h : r.LeftAs p left) : r.Forgets H left ↔ p := by
  refine ⟨fun hleft => h.needed hleft.1,
    fun hp => ⟨(h.similar hp).unchanged, fun next answer hok => ?_⟩⟩
  obtain ⟨d, htouch⟩ := (h.similar hp).eq_touch
  rw [htouch] at hok ⊢
  unfold step perform at *
  rw [change_touch] at hok ⊢
  exact Change.settle_touch hok

end Adro.Control
