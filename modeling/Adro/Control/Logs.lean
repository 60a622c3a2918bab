import Adro.Control.Atomic

/-!
# Event logs over whole runs

What any run of repository calls leaves of the event logs, with refused, repeated and
unsaved calls among them.
-/

namespace Adro.Control

open Adro.Go Adro.Orchestration MemoryRepository

/-- Every log is a valid chain with each key once, and only a stored plan has events. -/
structure Integral (E : EventHost) (m : MemoryRepository) : Prop where
  chained : m.Chained E
  keys : ∀ k, (m.log k).Pairwise fun old e =>
    e.idempotencyKey ≠ "" → old.idempotencyKey ≠ e.idempotencyKey
  planned : ∀ k : String, m.plans[k]? = none → m.log k = []

structure Extends (E : EventHost) (m m' : MemoryRepository) : Prop where
  integral : Integral E m'
  logs : ∀ k, m.log k <+: m'.log k

variable {E : EventHost} {m m' s : MemoryRepository}

theorem Extends.trans (h : Extends E m s) (h' : Extends E s m') : Extends E m m' :=
  ⟨h'.integral, fun k => (h.logs k).trans (h'.logs k)⟩

theorem Integral.same (hm : Integral E m)
    (hp : ∀ k : String, m'.plans[k]? = none → m.plans[k]? = none) (hl : ∀ k, m'.log k = m.log k) :
    Extends E m m' where
  integral := {
    chained := fun k => hl k ▸ hm.chained k
    keys := fun k => hl k ▸ hm.keys k
    planned := fun k hk => (hl k).trans (hm.planned k (hp k hk)) }
  logs := fun k => hl k ▸ List.prefix_rfl

theorem Extends.kept (h : Extends E m m') (hp : s.plans = m'.plans) (he : s.events = m'.events) :
    Extends E m s :=
  h.trans (h.integral.same (fun k hk => hp ▸ hk) fun k => by rw [log, he, log])

theorem log_restored (h : m'.events = m.events.insert planID (m.log planID)) (k : String) :
    m'.log k = m.log k := by
  rw [log_insert k h]
  split
  · rename_i hk; rw [hk]
  · rfl

section
variable (hm : Integral E m)
include hm

theorem Integral.left : Extends E m m := hm.same (fun _ h => h) fun _ => rfl

theorem Integral.append (h : appendEventLocked E m e = .ok m') : Extends E m m' := by
  have hknown : m.plans[e.planID]? ≠ none := by
    intro hnone
    simp [appendEventLocked, hnone] at h
  rcases appendEventLocked_ok h with ⟨rfl, -⟩ | ⟨ha, hm'⟩
  · exact hm.left
  · have hkey : (rebase E (m.log e.planID) e).idempotencyKey = e.idempotencyKey := by
      unfold rebase
      simp only
      split <;> rfl
    have hev := congrArg events hm'
    refine ⟨⟨hm.chained.insert ha.chain hev, fun k => ?_, fun k hk => ?_⟩, fun k => ?_⟩ <;>
      rw [log_insert k hev] <;> split
    · simpa [List.pairwise_append, hkey] using ⟨hm.keys _, ha.fresh⟩
    · exact hm.keys k
    · subst hm'
      exact absurd (‹e.planID = k› ▸ hk) hknown
    · subst hm'
      exact hm.planned k hk
    · exact ‹e.planID = k› ▸ List.prefix_append _ _
    · exact List.prefix_rfl

theorem Integral.enter (hp : s.plans = m.plans.insert planID plan) (he : s.events = m.events) :
    Extends E m s :=
  hm.same (fun k hk => by grind [GoMap.get_set]) fun k => by rw [log, he, log]

theorem Integral.create (h : appendEventLocked E s e = .ok m')
    (hp : s.plans = m.plans.insert planID plan) (he : s.events = m.events) : Extends E m m' :=
  (hm.enter hp he).trans ((hm.enter hp he).integral.append h)

theorem appendEventChange_extends : (appendEventChange E m e).All (Extends E m) := by
  unfold appendEventChange
  split
  · exact .refuse hm.left
  · exact .write (hm.append ‹_›) hm.left

theorem saveProjectionChange_extends : (saveProjectionChange m p).All (Extends E m) :=
  .guarded hm.left (.write (hm.left.kept rfl rfl) (hm.left.kept rfl rfl))

theorem commitEventProjectionChange_extends :
    (commitEventProjectionChange E m e p).All (Extends E m) := by
  refine .guarded hm.left ?_
  split
  · exact .refuse hm.left
  · rename_i appended happ
    refine .write ((hm.append happ).kept rfl rfl) ?_
    rcases appendEventLocked_ok happ with ⟨rfl, -⟩ | ⟨-, rfl⟩
    · exact hm.same (fun _ h => h) (log_restored rfl)
    · exact hm.same (fun _ h => h) (log_restored GoMap.set_set)

theorem createPlanChange_extends : (createPlanChange E m plan).All (Extends E m) := by
  unfold createPlanChange
  split
  · exact .refuse hm.left
  · split
    · split
      · exact .refuse hm.left
      · exact .reply hm.left
    · split
      · exact .refuse hm.left
      · exact .write (hm.enter rfl rfl) hm.left

theorem createPlanWithEventChange_extends :
    (createPlanWithEventChange E m plan e).All (Extends E m) := by
  unfold createPlanWithEventChange
  split
  · exact .refuse hm.left
  · split
    · exact .refuse hm.left
    · simp only
      split
      · split
        · exact .refuse hm.left
        · unfold retryEventChange
          split
          · exact .refuse hm.left
          · exact .write (hm.append ‹_›) (hm.same (fun _ h => h) (log_restored rfl))
      · rename_i hnone
        split
        · exact .refuse hm.left
        · split
          · exact .refuse (hm.left.kept rfl rfl)
          · rename_i happ
            refine .write ((hm.create happ rfl rfl).kept rfl rfl)
              (hm.same (fun _ h => h) fun k => ?_)
            -- The plan was not stored, so the log that is deleted was empty.
            have hempty := hm.planned _ hnone
            grind [log, GoMap.get_delete]

end

variable {H : ControlHost} {r : Repository}

theorem step_extends (hr : Integral H.toEventHost r.toMemoryRepository) (q : Request) :
    Extends H.toEventHost r.toMemoryRepository (step H r q).toMemoryRepository := by
  refine step_all (P := fun r' => Extends _ _ r'.toMemoryRepository) ?_
    fun w s hs h => h.kept hs.plans hs.events
  cases q.call
  case saveAgent =>
    exact (saveAgent_leaves hr.left (fun _ => .kept hr.left rfl rfl) hr.left ..).returning
  case saveSquad =>
    exact (saveSquad_leaves hr.left (fun _ => .kept hr.left rfl rfl) hr.left ..).returning
  case importDefinitionBundle =>
    exact (importDefinitionBundle_leaves _ _ _ _
      (fun _ => hr.left) (fun _ _ => .kept hr.left rfl rfl)
      fun _ => ⟨hr.left, hr.left⟩).returning
  case flush => exact .write hr.left hr.left
  case enqueueOutbox | claimOutbox | claimOutboxByID | ackOutbox | failOutbox =>
    exact change_outboxed _ rfl fun _ _ => .kept hr.left rfl rfl
  all_goals
    refine Change.Leaves.returning
      (Change.Leaves.map (fun _ h => h) (fun _ h => h) (fun _ h => h) ?_)
  case createPlan => exact createPlanChange_extends hr
  case createPlanWithEvent => exact createPlanWithEventChange_extends hr
  case saveProjection => exact saveProjectionChange_extends hr
  case appendEvent => exact appendEventChange_extends hr
  case commitEventProjection => exact commitEventProjectionChange_extends hr

end Adro.Control
