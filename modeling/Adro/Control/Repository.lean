import Adro.Control.Definitions

/-!
# The control repository

The plans, projections and logs of the orchestration repository with the
workspace's agents and squads, the outbox and the revision of the snapshot.
-/

namespace Adro.Control

open Adro.Go Adro.Orchestration

structure Repository extends MemoryRepository where
  agents : GoMap AgentDefinition := ∅
  squads : GoMap SquadDefinition := ∅
  outbox : GoMap OutboxRecord := ∅
  revision : Int := 0

/-- The snapshot is written when a path is set and something has changed. The
revision of a snapshot counts its writes and does not reach the end of its range. -/
def Repository.persistLocked (r : Repository) (fault : Option Err) : Except Err Repository :=
  if !r.durable || !r.dirty then .ok r
  else
    match fault with
    | some e => .error e
    | none => .ok { r with dirty := false, revision := r.revision + 1 }

def Repository.withCore (r : Repository) (m : MemoryRepository) : Repository :=
  { r with toMemoryRepository := m }

/-- The ids of the squads that a squad nests: its members', then its nodes'. -/
def SquadDefinition.refs (s : SquadDefinition) : List String :=
  (s.members.map (·.squadID)).filter (· != "") ++
    (s.graph.nodes.filterMap (·.squadRef)).map (·.id)

namespace Repository

variable (H : ControlHost) (r : Repository)

def flush : Change Repository Unit := .write r r ()

section

variable (ws id : String) (rev : Int)

def key3 : String := ws ++ ":" ++ id ++ ":" ++ toString rev

/-- The entry with the greatest positive revision among those that pass. -/
def latestIn {α : Type} (revision : α → Int) (p : α → Bool) (m : GoMap α) : Option α :=
  m.toList.foldl (fun out e =>
    if p e.2 && revision e.2 > (out.map revision).getD 0 then some e.2 else out) none

def latestAgentLocked : Option AgentDefinition :=
  (latestIn (·.revision) (fun a => a.workspaceID == ws && a.id == id) r.agents).filter (·.id != "")

def latestSquadLocked : Option SquadDefinition :=
  (latestIn (·.revision) (fun s => s.workspaceID == ws && s.id == id) r.squads).filter (·.id != "")

def agentLocked : Option AgentDefinition :=
  if rev > 0 then r.agents[key3 ws id rev]? else r.latestAgentLocked ws id

def squadLocked : Option SquadDefinition :=
  if rev > 0 then r.squads[key3 ws id rev]? else r.latestSquadLocked ws id

def getAgent : Except Err AgentDefinition :=
  match r.agentLocked ws id rev with
  | some a => .ok (a.clone H.short)
  | none => .error Sentinel.notFound.err

def getSquad : Except Err SquadDefinition :=
  match r.squadLocked ws id rev with
  | some s => .ok (s.clone H.short)
  | none => .error Sentinel.notFound.err

end

/-- The revision is new, and follows the expected one where one is given. -/
def revisionCheck {α : Type} (kind : String) (revision : α → Int) (same : α → Bool) (rev : Int)
    (expected : Int) (m : GoMap α) : Except Err Unit := do
  ensure (!m.any fun _ x => same x && revision x == rev)
    (errorNew (kind ++ " revision already exists"))
  if expected > 0 then
    let found := ((latestIn revision same m).map revision).getD 0
    ensure (found == expected) (errorNew (kind ++ " revision conflict: expected " ++
      toString expected ++ ", found " ++ toString found))

def saveAgentCheck (a : AgentDefinition) (expected : Int) : Except Err Unit := do
  a.validate H
  revisionCheck "agent" (·.revision) (fun x => x.id == a.id && x.workspaceID == a.workspaceID)
    a.revision expected r.agents

def saveAgent (a : AgentDefinition) (expected : Int) : Change Repository Unit :=
  .guarded (r.saveAgentCheck H a expected) r <|
    let k := key3 a.workspaceID a.id a.revision
    let written := { r with agents := r.agents.insert k a, dirty := true }
    .write written { written with
      agents := MemoryRepository.restore r.agents written.agents k, dirty := r.dirty } ()

/-- The walk over the nested squads of a squad at a depth below the saved one,
with the keys on the way down. A nested id is resolved to its latest revision. It
does not go deeper than there are stored squads, so with fuel for each of them
and two more it does not run out. -/
def validateSquadGraphRefsLocked :
    Nat → SquadDefinition → Int → List String → Except Err Unit
  | 0, _, _, _ => .error (errorNew "")
  | fuel + 1, s, depth, visiting => do
    let limit := s.policy.maxNestingDepth
    ensure (!(limit > 0 && depth > limit))
      (errorNew ("squad " ++ s.id ++ " nesting depth exceeded"))
    let key := key3 s.workspaceID s.id s.revision
    ensure (!visiting.contains key) (errorNew ("squad " ++ s.id ++ " nested cycle detected"))
    eachOk (fun nestedID =>
      match r.latestSquadLocked s.workspaceID nestedID with
      | none =>
        throw (errorNew ("squad " ++ s.id ++ " nested squad " ++ nestedID ++ " unavailable"))
      | some nested => do
        ensure (nested.status == .published)
          (errorNew ("squad " ++ s.id ++ " nested squad " ++ nestedID ++ " unavailable"))
        ensure (!(limit > 0 && depth + 1 > limit)) (errorNew
          ("squad " ++ s.id ++ " nested squad " ++ nestedID ++ " exceeds max_nesting_depth"))
        validateSquadGraphRefsLocked fuel nested (depth + 1) (key :: visiting)) s.refs

section

variable (s : SquadDefinition) (i : Nat)

/-- The latest revision of a member's agent is active and has the capabilities. -/
def memberAgentCheck (m : SquadMember) : Except Err Unit :=
  if m.agentID == "" then pure ()
  else
    match r.latestAgentLocked s.workspaceID m.agentID with
    | none => throw (errorNew (indexed "members" i ".agent_id.unavailable"))
    | some agent => do
      ensure (agent.status == .active) (errorNew (indexed "members" i ".agent_id.inactive"))
      eachOk (fun c => ensure (!c.required || agent.capabilities.any (·.name == c.name))
        (errorNew (indexed "members" i (".capability_constraints." ++ c.name ++ ".unavailable"))))
        m.capabilityConstraints

def memberSquadCheck (m : SquadMember) : Except Err Unit :=
  if m.squadID == "" then pure ()
  else do
    ensure (m.squadID != s.id) (errorNew (indexed "members" i ".squad_id.self_reference"))
    match r.latestSquadLocked s.workspaceID m.squadID with
    | none => throw (errorNew (indexed "members" i ".squad_id.unavailable"))
    | some nested =>
      ensure (nested.status == .published) (errorNew (indexed "members" i ".squad_id.unavailable"))
      ensure (!(s.policy.maxNestingDepth > 0 &&
        nested.policy.maxNestingDepth ≥ s.policy.maxNestingDepth))
        (errorNew (indexed "members" i ".squad_id.nesting_depth_exceeded"))

/-- The agent and the squad of a node exist in the revision asked for. -/
def nodeRefCheck (n : WorkflowNode) : Except Err Unit := do
  ensure (n.agentRef.all fun ref =>
    (r.agentLocked s.workspaceID ref.id ref.revision).any (·.status == .active))
    (errorNew (indexed "graph.nodes" i ".agent_ref.unavailable"))
  ensure (n.squadRef.all fun ref =>
    (r.squadLocked s.workspaceID ref.id ref.revision).any (·.status == .published))
    (errorNew (indexed "graph.nodes" i ".squad_ref.unavailable"))

def validatePublishedSquadLocked : Except Err Unit := do
  ensure (countSquadLeaders s.members == 1)
    (errorNew "published squad requires exactly one leader agent")
  r.validateSquadGraphRefsLocked (r.squads.size + 2) s 0 []
  eachSeen (·.id) (fun i _ m => do
    r.memberAgentCheck s i m
    r.memberSquadCheck s i m) 0 [] s.members
  eachSeen (·.id) (fun i _ n => r.nodeRefCheck s i n) 0 [] s.graph.nodes

def saveSquadCheck (expected : Int) : Except Err Unit := do
  if s.status == .draft then s.validateDraft else s.validate
  if s.status == .published then r.validatePublishedSquadLocked s
  revisionCheck "squad" (·.revision) (fun x => x.id == s.id && x.workspaceID == s.workspaceID)
    s.revision expected r.squads

def saveSquad (expected : Int) : Change Repository Unit :=
  .guarded (r.saveSquadCheck s expected) r <|
    let k := key3 s.workspaceID s.id s.revision
    let written := { r with squads := r.squads.insert k s, dirty := true }
    .write written { written with
      squads := MemoryRepository.restore r.squads written.squads k, dirty := r.dirty } ()

end

end Repository

namespace Repository

variable (H : ControlHost) (r : Repository)

def createPlan (plan : RequirementExecutionPlan) : Change Repository Unit :=
  (createPlanChange H.toEventHost r.toMemoryRepository plan).map r.withCore

def createPlanWithEvent (plan : RequirementExecutionPlan) (e : Event) : Change Repository Unit :=
  (createPlanWithEventChange H.toEventHost r.toMemoryRepository plan e).map r.withCore

def saveProjection (p : PlanProjection) : Change Repository Unit :=
  (saveProjectionChange r.toMemoryRepository p).map r.withCore

def appendEvent (e : Event) : Change Repository Unit :=
  (appendEventChange H.toEventHost r.toMemoryRepository e).map r.withCore

def commitEventProjection (e : Event) (p : PlanProjection) : Change Repository Unit :=
  (commitEventProjectionChange H.toEventHost r.toMemoryRepository e p).map r.withCore

variable {r} {fault : Option Err}

theorem persistLocked_core (m : MemoryRepository) :
    ((r.withCore m).persistLocked fault).map (·.toMemoryRepository) = m.persistLocked fault := by
  unfold persistLocked MemoryRepository.persistLocked withCore
  split
  · rfl
  · cases fault <;> rfl

/-- A call on plans and logs does to them what the orchestration repository does. -/
theorem settle_core (c : Change MemoryRepository ρ) :
    ((c.map r.withCore).settle (·.persistLocked fault)).map id (·.toMemoryRepository) =
      c.settle (·.persistLocked fault) := by
  cases c with
  | refuse err left => rfl
  | reply value left => rfl
  | write written undone value failure =>
    simp only [Change.map, Change.settle, ← persistLocked_core (r := r) written]
    cases (r.withCore written).persistLocked fault <;> rfl

end Repository

end Adro.Control
