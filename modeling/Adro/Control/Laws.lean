import Adro.Control.Calls

/-!
# What a call can change

What a change leaves says what a call keeps, whatever becomes of its snapshot. The
calls on the outbox keep everything else, and the other calls keep the outbox.
-/

namespace Adro.Control

open Adro.Go Adro.Orchestration

namespace Repository

/-- The parts of the repository that a snapshot holds. -/
structure SameTables (r r' : Repository) : Prop where
  plans : r'.plans = r.plans
  projections : r'.projections = r.projections
  keys : r'.keys = r.keys
  events : r'.events = r.events
  agents : r'.agents = r.agents
  squads : r'.squads = r.squads
  outbox : r'.outbox = r.outbox

theorem SameTables.refl (r : Repository) : SameTables r r := ⟨rfl, rfl, rfl, rfl, rfl, rfl, rfl⟩

theorem SameTables.symm (h : SameTables r r') : SameTables r' r :=
  ⟨h.plans.symm, h.projections.symm, h.keys.symm, h.events.symm, h.agents.symm, h.squads.symm,
    h.outbox.symm⟩

theorem SameTables.trans (h : SameTables r r') (h' : SameTables r' r'') :
    SameTables r r'' :=
  ⟨h'.plans.trans h.plans, h'.projections.trans h.projections, h'.keys.trans h.keys,
    h'.events.trans h.events, h'.agents.trans h.agents, h'.squads.trans h.squads,
    h'.outbox.trans h.outbox⟩

theorem persistLocked_tables (h : r.persistLocked fault = .ok r') : SameTables r r' := by
  unfold persistLocked at h
  split at h
  · cases h; exact .refl r
  · split at h
    · cases h
    · cases h; exact ⟨rfl, rfl, rfl, rfl, rfl, rfl, rfl⟩

end Repository

variable {H : ControlHost} {r : Repository}

/-- What all states a call can leave have in common, where saving keeps it. -/
theorem step_all {P : Repository → Prop} (h : (q.call.change H r).All P)
    (hsave : ∀ w s, w.SameTables s → P w → P s) : P (step H r q) :=
  h.settle fun w s hs hw => hsave w s (Repository.persistLocked_tables hs) hw

def Call.outboxed : Call → Bool
  | .enqueueOutbox .. | .claimOutbox .. | .claimOutboxByID .. | .ackOutbox .. | .failOutbox .. =>
      true
  | _ => false

def Keyed (outbox : GoMap OutboxRecord) : Prop :=
  ∀ (k : String) x, outbox[k]? = some x → x.id = k

section
variable {W P Q : Repository → Prop} (hr : P r)
include hr

theorem saveAgent_leaves (hw : ∀ agents, W { r with agents, dirty := true }) (hu : Q r)
    (a : AgentDefinition) (expected : Int) : (r.saveAgent H a expected).Leaves W P Q := by
  apply Change.Leaves.guarded hr
  refine .write (hw _) ?_
  simp only [MemoryRepository.restore_insert]
  exact hu

theorem saveSquad_leaves (hw : ∀ squads, W { r with squads, dirty := true }) (hu : Q r)
    (s : SquadDefinition) (expected : Int) : (r.saveSquad s expected).Leaves W P Q := by
  apply Change.Leaves.guarded hr
  refine .write (hw _) ?_
  simp only [MemoryRepository.restore_insert]
  exact hu

/-- What an import has entered when it ends; a refused agent ends it before the squads. -/
def Repository.entered (H : ControlHost) (r : Repository) (ws : String) (bundle : DefinitionBundle)
    (now : Time) : GoMap AgentDefinition × GoMap SquadDefinition :=
  let a := r.enterAgents H ws now bundle.agents
  (a.2.entries,
    if a.1.isOk then (r.enterSquads H ws a.2.entries bundle.squads).2.entries else r.squads)

omit hr in
theorem importDefinitionBundle_leaves (ws : String) (bundle : DefinitionBundle)
    (dryRun : Bool) (now : Time)
    (hr : (Repository.bundleCheck H (trimSpace ws) bundle).isOk = false → P r)
    (hw : ∀ agents squads, W { r with agents, squads, dirty := true })
    (hleft : (Repository.bundleCheck H (trimSpace ws) bundle).isOk = true →
      let out := r.entered H (trimSpace ws) bundle now
      P (r.leftWith H out.1 out.2) ∧ Q (r.leftWith H out.1 out.2)) :
    (r.importDefinitionBundle H ws bundle dryRun now).Leaves W P Q := by
  unfold Repository.importDefinitionBundle
  simp only
  cases hcheck : Repository.bundleCheck H (trimSpace ws) bundle with
  | error err => exact .refuse (hr (by rw [hcheck]; rfl))
  | ok digest =>
    replace hleft := hleft (by rw [hcheck]; rfl)
    simp only [Repository.entered] at hleft ⊢
    split
    · next err a ha =>
      simp only [ha] at hleft
      exact .refuse hleft.1
    · next a ha =>
      simp only [ha] at hleft
      split
      · next err s hs =>
        simp only [Except.isOk, Except.toBool, hs, if_true] at hleft
        exact .refuse hleft.1
      · next s hs =>
        simp only [Except.isOk, Except.toBool, hs, if_true] at hleft
        split
        · exact .reply hleft.1
        · exact .write (hw _ _) hleft.2

section
variable (hw : ∀ outbox, W { r with outbox, dirty := true })
include hw

theorem enqueueOutbox_leaves (record : OutboxRecord) (clock : EnqueueClock)
    (hu : ∀ outbox, record.trimmed.complete = true → r.enqueued record.trimmed = none →
      (outbox = r.outbox ↔ r.outbox[enqueueID record clock]? = none) → Q { r with outbox }) :
    (r.enqueueOutbox H record clock).Leaves W P Q := by
  unfold Repository.enqueueOutbox
  simp only
  split
  · exact .refuse hr
  · rename_i hcomplete
    split
    · split
      · exact .refuse hr
      · exact .reply hr
    · rename_i hnone
      refine .write (hw _) (hu _ (by simpa using hcomplete) hnone ?_)
      rw [GoMap.erase_set, GoMap.erase_eq_self]
      rfl

theorem claimOutboxLocked_leaves (id owner : String) (ttl : Duration) (now : Time)
    (hu : ∀ item outbox, r.outbox[id]? = some item →
      (outbox = r.outbox ↔ r.outbox.contains item.id = true) → Q { r with outbox, dirty := true }) :
    (r.claimOutboxLocked H id owner ttl now).Leaves W P Q := by
  unfold Repository.claimOutboxLocked
  split
  · exact .refuse hr
  · rename_i item hitem
    split
    · exact .refuse hr
    · split
      · exact .refuse hr
      · refine .write (hw _) (hu item _ hitem ?_)
        rw [GoMap.set_set, GoMap.set_eq_self, ← Std.ExtTreeMap.isSome_getElem?_eq_contains]
        cases r.outbox[item.id]? <;> simp

theorem claimOutbox_leaves (planID owner : String) (ttl : Duration) (now clock : Time)
    (order : List String)
    (hu : ∀ item outbox, r.outbox[((r.candidates planID (Repository.instant now clock) order).foldl
        Repository.preferred {}).id]? = some item →
      (outbox = r.outbox ↔ r.outbox.contains item.id = true) → Q { r with outbox, dirty := true }) :
    (r.claimOutbox H planID owner ttl now clock order).Leaves W P Q := by
  apply Change.Leaves.guarded hr
  simp only
  split
  · exact .refuse hr
  · exact claimOutboxLocked_leaves hr hw _ owner ttl _ hu

theorem claimOutboxByID_leaves (id owner : String) (ttl : Duration) (now clock : Time)
    (hu : ∀ item outbox, r.outbox[trimSpace id]? = some item →
      (outbox = r.outbox ↔ r.outbox.contains item.id = true) → Q { r with outbox, dirty := true }) :
    (r.claimOutboxByID H id owner ttl now clock).Leaves W P Q := by
  apply Change.Leaves.guarded hr
  exact claimOutboxLocked_leaves hr hw _ owner ttl _ hu

theorem settleOutbox_leaves (id owner : String) (now : Time) (settle : OutboxRecord → OutboxRecord)
    (hu : ∀ item outbox, r.outbox[trimSpace id]? = some item →
      (outbox = r.outbox ↔ r.outbox[item.id]? = some item) → Q { r with outbox, dirty := true }) :
    (r.settleOutbox id owner now settle).Leaves W P Q := by
  unfold Repository.settleOutbox
  split
  · exact .refuse hr
  · rename_i item hitem
    split
    · exact .refuse hr
    · exact .write (hw _) (hu item _ hitem (by rw [GoMap.set_set, GoMap.set_eq_self]))

end

end

/-- A checked write leaves the repository it met, what it takes back, or what it wrote. -/
theorem settle_guarded {check : Except Err Unit} {written undone : Repository} {value : Answer}
    {P : Except Err Answer → Repository → Prop} (fault : Option Err) (hr : ∀ err, P (.error err) r)
    (hu : ∀ err, check = .ok () → P (.error err) undone)
    (hw : ∀ s, check = .ok () → written.SameTables s → P (.ok value) s) :
    let out := ((Change.guarded check r (.write written undone ())).returning
      fun _ : Unit => value).settle (Repository.persistLocked · fault)
    P out.1 out.2 := by
  cases check with
  | error err => exact hr err
  | ok _ =>
    simp only [Change.guarded, Change.returning, Change.settle]
    split
    · rename_i saved hsaved
      exact hw saved rfl (Repository.persistLocked_tables hsaved)
    · rename_i err _
      exact hu err rfl

/-- A call on the outbox leaves everything else; what its writes are taken back to does not
matter here. -/
theorem change_outboxed {P : Repository → Prop} (c : Call) (h : c.outboxed = true)
    (hP : ∀ outbox dirty, P { r with outbox, dirty }) : (c.change H r).All P := by
  have hr : P r := hP r.outbox r.dirty
  have hw (outbox : GoMap OutboxRecord) : P { r with outbox, dirty := true } := hP _ _
  cases c
  case enqueueOutbox => exact (enqueueOutbox_leaves hr hw _ _ fun _ _ _ _ => hP _ _).returning
  case claimOutbox => exact (claimOutbox_leaves hr hw _ _ _ _ _ _ fun _ _ _ _ => hP _ _).returning
  case claimOutboxByID =>
    exact (claimOutboxByID_leaves hr hw _ _ _ _ _ fun _ _ _ _ => hP _ _).returning
  case ackOutbox => exact (settleOutbox_leaves hr hw _ _ _ _ fun _ _ _ _ => hP _ _).returning
  case failOutbox =>
    exact (Change.Leaves.guarded hr
      (settleOutbox_leaves hr hw _ _ _ _ fun _ _ _ _ => hP _ _)).returning
  all_goals cases h

theorem change_keeps_outbox (c : Call) (h : c.outboxed = false) :
    (c.change H r).All fun r' => r'.outbox = r.outbox := by
  cases c
  case flush => exact .write rfl rfl
  case enqueueOutbox | claimOutbox | claimOutboxByID | ackOutbox | failOutbox =>
    exact absurd h (by simp [Call.outboxed])
  all_goals refine Change.Leaves.returning ?_
  case saveAgent => apply saveAgent_leaves <;> intros <;> rfl
  case saveSquad => apply saveSquad_leaves <;> intros <;> rfl
  case importDefinitionBundle =>
    exact importDefinitionBundle_leaves _ _ _ _ (fun _ => rfl) (fun _ _ => rfl) fun _ => ⟨rfl, rfl⟩
  all_goals exact Change.All.map fun _ => rfl

/-- Calls that enter a definition, or a bundle of them. -/
def Call.saves : Call → Bool
  | .saveAgent .. | .saveSquad .. => true
  | _ => false

def Call.imports : Call → Bool
  | .importDefinitionBundle .. => true
  | _ => false

theorem change_keeps_definitions (c : Call) (h : c.saves = false) (h' : c.imports = false) :
    (c.change H r).All fun r' => r'.agents = r.agents ∧ r'.squads = r.squads := by
  cases c
  case saveAgent | saveSquad => exact absurd h (by simp [Call.saves])
  case importDefinitionBundle => exact absurd h' (by simp [Call.imports])
  case flush => exact .write ⟨rfl, rfl⟩ ⟨rfl, rfl⟩
  case enqueueOutbox | claimOutbox | claimOutboxByID | ackOutbox | failOutbox =>
    exact change_outboxed _ rfl fun _ _ => ⟨rfl, rfl⟩
  all_goals exact (Change.All.map fun _ => ⟨rfl, rfl⟩).returning

/-- What a call other than an import does to the definitions. -/
inductive Defined (H : ControlHost) (r : Repository) :
    Call → Except Err Answer → GoMap AgentDefinition → GoMap SquadDefinition → Prop
  | quiet {c : Call} {out : Except Err Answer} (fails : out.isOk = true → c.saves = false) :
    Defined H r c out r.agents r.squads
  | agent {a : AgentDefinition} {expected : Int}
      (checked : r.saveAgentCheck H a expected = .ok ()) :
    Defined H r (.saveAgent a expected) (.ok .done)
      (r.agents.insert (Repository.key3 a.workspaceID a.id a.revision) a) r.squads
  | squad {s : SquadDefinition} {expected : Int} (checked : r.saveSquadCheck s expected = .ok ()) :
    Defined H r (.saveSquad s expected) (.ok .done)
      r.agents (r.squads.insert (Repository.key3 s.workspaceID s.id s.revision) s)

section Congruence

variable {r' : Repository}

theorem latestSquadLocked_congr (h : r'.squads = r.squads) :
    r'.latestSquadLocked = r.latestSquadLocked := by
  unfold Repository.latestSquadLocked
  rw [h]

theorem latestAgentLocked_congr (h : r'.agents = r.agents) :
    r'.latestAgentLocked = r.latestAgentLocked := by
  unfold Repository.latestAgentLocked
  rw [h]

theorem validateSquadGraphRefsLocked_congr (h : r'.squads = r.squads) :
    r'.validateSquadGraphRefsLocked fuel = r.validateSquadGraphRefsLocked fuel := by
  induction fuel with
  | zero => rfl
  | succ fuel ih =>
    simp only [Repository.validateSquadGraphRefsLocked, ih, latestSquadLocked_congr h]

theorem validatePublishedSquadLocked_congr (hagents : r'.agents = r.agents)
    (hsquads : r'.squads = r.squads) :
    r'.validatePublishedSquadLocked = r.validatePublishedSquadLocked := by
  have hmembers : r'.memberAgentCheck = r.memberAgentCheck := by
    unfold Repository.memberAgentCheck
    rw [latestAgentLocked_congr hagents]
  have hnested : r'.memberSquadCheck = r.memberSquadCheck := by
    unfold Repository.memberSquadCheck
    rw [latestSquadLocked_congr hsquads]
  have hnodes : r'.nodeRefCheck = r.nodeRefCheck := by
    unfold Repository.nodeRefCheck Repository.agentLocked Repository.squadLocked
    rw [latestAgentLocked_congr hagents, latestSquadLocked_congr hsquads, hagents, hsquads]
  unfold Repository.validatePublishedSquadLocked
  rw [hmembers, hnested, hnodes, hsquads, validateSquadGraphRefsLocked_congr hsquads]

theorem squadImporter_congr (hagents : r'.agents = r.agents) :
    r'.squadImporter ws visible = r.squadImporter ws visible := by
  have hcheck (entries : GoMap SquadDefinition) :
      ({ r' with squads := visible entries } : Repository).validatePublishedSquadLocked =
        ({ r with squads := visible entries } : Repository).validatePublishedSquadLocked :=
    validatePublishedSquadLocked_congr hagents rfl
  unfold Repository.squadImporter
  simp only [hcheck]

end Congruence

theorem saveSquadCheck_eq :
    r.saveSquadCheck s expected =
      (if s.status == .draft then s.validateDraft else s.validate) >>= fun _ =>
        (if s.status == .published then r.validatePublishedSquadLocked s else pure ()) >>= fun _ =>
          Repository.revisionCheck "squad" (·.revision)
            (fun x => x.id == s.id && x.workspaceID == s.workspaceID) s.revision expected
            r.squads := by
  unfold Repository.saveSquadCheck
  cases s.status == .draft <;> cases s.status == .published <;> rfl

theorem saveSquadCheck_parts (h : r.saveSquadCheck s expected = .ok ()) :
    s.identified = .ok () ∧ (s.status = .published → r.validatePublishedSquadLocked s = .ok ()) ∧
      Repository.revisionCheck "squad" (·.revision)
        (fun x => x.id == s.id && x.workspaceID == s.workspaceID) s.revision expected r.squads =
          .ok () := by
  rw [saveSquadCheck_eq] at h
  obtain ⟨hvalid, h⟩ := then_ok.mp h
  obtain ⟨hpublished, hnew⟩ := then_ok.mp h
  refine ⟨?_, fun hs => by simpa [hs] using hpublished, hnew⟩
  split at hvalid
  · exact (then_ok.mp hvalid).1
  · exact (then_ok.mp hvalid).1

theorem perform_saveAgent (a : AgentDefinition) (expected : Int) (fault : Option Err) :
    let out := perform H r ⟨.saveAgent a expected, fault⟩
    Defined H r (.saveAgent a expected) out.1 out.2.agents out.2.squads := by
  simp only [perform, Call.change, Repository.saveAgent]
  refine settle_guarded (P := fun out r' => Defined H r (.saveAgent a expected) out r'.agents
    r'.squads) fault (fun err => .quiet (by simp [Except.toBool])) ?_ ?_
  · intro err _
    simp only [MemoryRepository.restore_insert]
    exact .quiet (by simp [Except.toBool])
  · intro s hchecked hs
    rw [hs.agents, hs.squads]
    exact .agent hchecked

theorem perform_saveSquad (s : SquadDefinition) (expected : Int) (fault : Option Err) :
    let out := perform H r ⟨.saveSquad s expected, fault⟩
    Defined H r (.saveSquad s expected) out.1 out.2.agents out.2.squads := by
  refine settle_guarded (P := fun out r' => Defined H r (.saveSquad s expected) out r'.agents
    r'.squads) fault (fun err => .quiet (by simp [Except.toBool])) ?_ ?_
  · intro err _
    simp only [MemoryRepository.restore_insert]
    exact .quiet (by simp [Except.toBool])
  · intro r' hchecked hs
    rw [hs.agents, hs.squads]
    exact .squad hchecked

theorem perform_defined (q : Request) (h : q.call.imports = false) :
    Defined H r q.call (perform H r q).1 (perform H r q).2.agents (perform H r q).2.squads := by
  obtain ⟨c, fault⟩ := q
  cases hs : c.saves with
  | false =>
    have hkeep := step_all (q := ⟨c, fault⟩) (change_keeps_definitions (H := H) (r := r) c hs h)
      fun w s hws hw => ⟨hws.agents.trans hw.1, hws.squads.trans hw.2⟩
    rw [show (perform H r ⟨c, fault⟩).2.agents = _ from hkeep.1,
      show (perform H r ⟨c, fault⟩).2.squads = _ from hkeep.2]
    exact .quiet fun _ => hs
  | true =>
    cases c with
    | saveAgent a expected => exact perform_saveAgent a expected fault
    | saveSquad s expected => exact perform_saveSquad s expected fault
    | _ => exact absurd hs (by simp [Call.saves])

end Adro.Control
