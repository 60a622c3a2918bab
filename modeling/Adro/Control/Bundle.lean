import Adro.Control.Repository

/-!
# Definition bundles

`ImportDefinitionBundle` enters the definitions of a bundle into copies of the
repository's maps, checks them all, and writes once. A copy is made through JSON,
and a map one of whose definitions has no JSON text is not copied: the import then
works on the repository's own map. Published squads are checked against the
candidate agents but against the repository's squads.
-/

namespace Adro.Control

open Adro.Go Adro.Orchestration

variable (H : ControlHost)

/-- The definitions in the order of their keys, under the current format. -/
def DefinitionBundle.digest (b : DefinitionBundle) : Option String :=
  H.bundleDigest { b with
    format := definitionBundleFormat
    agents := b.agents.mergeSort fun x y =>
      Repository.key3 x.workspaceID x.id x.revision ≤ Repository.key3 y.workspaceID y.id y.revision
    squads := b.squads.mergeSort fun x y =>
      Repository.key3 x.workspaceID x.id x.revision ≤ Repository.key3 y.workspaceID
        y.id y.revision }

/-- The candidate map, the keys the bundle has named, and the counts so far. -/
structure Progress (α : Type) where
  entries : GoMap α
  seen : List String := []
  created : Int := 0
  skipped : Int := 0

/-- How a kind of definition is imported. `check` may look at the entries so far,
`adopt` takes over what does not count as a conflict with the stored one. -/
structure Importer (α : Type) where
  kind : String
  id : α → String
  key : α → String
  check : GoMap α → α → Except Err Unit
  adopt : α → α → α
  deepEqual : α → α → Bool

namespace Importer

variable {α : Type} (I : Importer α)

def path (i : Nat) : String := indexed (I.kind ++ "s") i ""

def importOne (i : Nat) (p : Progress α) (a : α) : Except Err (Progress α) := do
  (I.check p.entries a).mapError (wrapErr (I.path i ++ " " ++ quote (I.id a)))
  ensure (!p.seen.contains (I.key a))
    (errorNew (I.path i ++ ": duplicate " ++ I.kind ++ " revision " ++ I.key a))
  let seen := I.key a :: p.seen
  match p.entries[I.key a]? with
  | some existing =>
    ensure (I.deepEqual existing (I.adopt existing a)) (errorNew (I.path i ++ ": " ++ I.kind ++
      " revision " ++ I.key a ++ " conflicts with existing definition"))
    pure { p with seen, skipped := p.skipped + 1 }
  | none => pure { p with seen, entries := p.entries.insert (I.key a) a, created := p.created + 1 }

/-- The definitions are entered in order up to the first that is refused. -/
def importAll : Nat → Progress α → List α → Except Err Unit × Progress α
  | _, p, [] => (.ok (), p)
  | i, p, a :: rest =>
    match I.importOne i p a with
    | .error err => (.error err, p)
    | .ok p => importAll (i + 1) p rest

end Importer

/-- An agent as it is entered: in the workspace, with its defaults. -/
def AgentDefinition.imported (ws : String) (now : Time) (a : AgentDefinition) : AgentDefinition :=
  let a := a.clone H.short
  let createdAt := if a.createdAt.isZero then now else a.createdAt
  { a with
    workspaceID := ws
    revision := if a.revision == 0 then 1 else a.revision
    status := if a.status == .unset then .active else a.status
    createdAt := createdAt
    updatedAt := if a.updatedAt.isZero then createdAt else a.updatedAt }

def SquadDefinition.imported (ws : String) (s : SquadDefinition) : SquadDefinition :=
  let s := s.clone H.short
  { s with
    workspaceID := ws
    revision := if s.revision == 0 then 1 else s.revision
    status := if s.status == .unset then .published else s.status }

namespace Repository

variable (r : Repository)

def agentImporter (ws : String) : Importer AgentDefinition where
  kind := "agent"
  id a := a.id
  key a := key3 ws a.id a.revision
  check _ a := do
    a.validate H
    validatePortableExecutorBinding H a.executorBinding
  adopt existing a := { a with createdAt := existing.createdAt, updatedAt := existing.updatedAt }
  deepEqual := AgentDefinition.deepEqual

/-- `visible` is the map the nested squads are looked up in. -/
def squadImporter (ws : String) (visible : GoMap SquadDefinition → GoMap SquadDefinition) :
    Importer SquadDefinition where
  kind := "squad"
  id s := s.id
  key s := key3 ws s.id s.revision
  check entries s := do
    s.validate
    if s.status == .published then
      ({ r with squads := visible entries } : Repository).validatePublishedSquadLocked s
  adopt _ s := s
  deepEqual := SquadDefinition.deepEqual

def bundleCheck (ws : String) (bundle : DefinitionBundle) : Except Err String := do
  ensure (ws != "") (errorNew "workspace_id is required")
  ensure (bundle.format == definitionBundleFormat)
    (errorNew ("unsupported bundle format " ++ quote bundle.format))
  ensure (!(bundle.agents.isEmpty && bundle.squads.isEmpty))
    (errorNew "bundle must contain at least one definition")
  match bundle.digest H with
  | none => throw (errorNew "digest bundle: json: unsupported value")
  | some digest => pure digest

/-- The agents are entered into a copy of the repository's. -/
def enterAgents (ws : String) (now : Time) (agents : List AgentDefinition) :
    Except Err Unit × Progress AgentDefinition :=
  (agentImporter H ws).importAll 0
  { entries := (imageMap (·.image H.short) r.agents).getD r.agents }
    (agents.map (·.imported H ws now))

/-- The squads are entered once the repository's agents are the candidate ones. -/
def enterSquads (ws : String) (agents : GoMap AgentDefinition) (squads : List SquadDefinition) :
    Except Err Unit × Progress SquadDefinition :=
  let copy := imageMap (·.image H.short) r.squads
  (squadImporter { r with agents } ws fun entries =>
    if copy.isSome then r.squads else entries).importAll 0 { entries := copy.getD r.squads }
    (squads.map (·.imported H ws))

/-- A map that was not copied keeps what has been entered into it. -/
def leftWith (agents : GoMap AgentDefinition) (squads : GoMap SquadDefinition) : Repository :=
  { r with
    agents := if (imageMap (·.image H.short) r.agents).isSome then r.agents else agents
    squads := if (imageMap (·.image H.short) r.squads).isSome then r.squads else squads }

def importReport (bundle : DefinitionBundle) (digest : String) (dryRun : Bool)
    (a : Progress AgentDefinition) (s : Progress SquadDefinition) : DefinitionImportReport where
  format := definitionBundleFormat
  digest := digest
  agentCount := bundle.agents.length
  squadCount := bundle.squads.length
  createdAgents := a.created
  createdSquads := s.created
  skippedAgents := a.skipped
  skippedSquads := s.skipped
  dryRun := dryRun

def importDefinitionBundle (workspaceID : String) (bundle : DefinitionBundle) (dryRun : Bool)
    (now : Time) : Change Repository DefinitionImportReport :=
  let ws := trimSpace workspaceID
  match bundleCheck H ws bundle with
  | .error err => .refuse err r
  | .ok digest =>
    match r.enterAgents H ws now bundle.agents with
    | (.error err, a) => .refuse err (r.leftWith H a.entries r.squads)
    | (.ok _, a) =>
      match r.enterSquads H ws a.entries bundle.squads with
      | (.error err, s) => .refuse err (r.leftWith H a.entries s.entries)
      | (.ok _, s) =>
        let report := importReport bundle digest dryRun a s
        if dryRun then .reply report (r.leftWith H a.entries s.entries)
        else .write { r with agents := a.entries, squads := s.entries, dirty := true }
          (r.leftWith H a.entries s.entries) report (wrapErr "persist definition bundle")

end Repository

end Adro.Control
