import Adro.Orchestration.Repository

/-!
# Agents, squads and outbox intents

The definitions a workspace keeps and the intents its workers deliver. A
definition is a profile, which compares by equality, and a graph, whose
predicates hold dynamically typed values. `body` stands for the fields that are
only stored and compared. A copy made by `cloneValue` is the value its JSON text
decodes to, or the value itself when it has none.
-/

namespace Adro.Control

open Adro.Go Adro.Orchestration

deriving instance DecidableEq for VersionedRef, SchemaRef, RetryPolicy, MergePolicy, RepairPolicy

inductive AgentStatus
  | unset | draft | active | disabled | archived
  | other (name : String)
  deriving DecidableEq, Repr

inductive SquadStatus
  | unset | draft | published | disabled | archived
  | other (name : String)
  deriving DecidableEq, Repr

inductive OutboxStatus
  | unset | pending | leased | acked | failed
  | other (name : String)
  deriving DecidableEq, Repr

def AgentStatus.text : AgentStatus → String
  | .unset => ""
  | .draft => "draft"
  | .active => "active"
  | .disabled => "disabled"
  | .archived => "archived"
  | .other name => name

def SquadStatus.text : SquadStatus → String
  | .unset => ""
  | .draft => "draft"
  | .published => "published"
  | .disabled => "disabled"
  | .archived => "archived"
  | .other name => name

/-- An intent in one of these is not delivered any more. -/
def OutboxStatus.final : OutboxStatus → Bool
  | .acked | .failed => true
  | _ => false

structure ConversationStarter where
  label : String := ""
  prompt : String := ""
  deriving DecidableEq

structure AgentAccessPolicy where
  mode : String := ""
  memberIDs : List String := []
  deriving DecidableEq

structure DisabledRuntimeSkill where
  runtimeID : String := ""
  provider : String := ""
  root : String := ""
  key : String := ""
  plugin : String := ""
  deriving DecidableEq

structure CapabilityRef where
  name : String := ""
  version : String := ""
  deriving DecidableEq

structure ToolPolicy where
  allowed : List String := []
  denied : List String := []
  deriving DecidableEq

structure EnvironmentReference where
  name : String := ""
  secretRef : String := ""
  deriving DecidableEq

structure ExecutorBinding where
  providerID : String := ""
  thinkingLevel : String := ""
  serviceTier : String := ""
  customArgs : List String := []
  runtimeConfig : GoMap String := ∅
  environment : List EnvironmentReference := []
  providerVersion : String := ""
  binaryDigest : String := ""
  requiredCaps : List String := []
  deriving DecidableEq

structure AgentProfile where
  id : String := ""
  workspaceID : String := ""
  revision : Int := 0
  name : String := ""
  description : String := ""
  conversationStarters : List ConversationStarter := []
  accessPolicy : AgentAccessPolicy := {}
  skillIDs : List String := []
  disabledRuntimeSkills : List DisabledRuntimeSkill := []
  mcpServerIDs : List String := []
  capabilities : List CapabilityRef := []
  toolPolicy : ToolPolicy := {}
  executorBinding : ExecutorBinding := {}
  concurrencyBudget : Budget := {}
  inputSchema : SchemaRef := {}
  outputSchema : SchemaRef := {}
  status : AgentStatus := .unset
  createdAt : Time := 0
  updatedAt : Time := 0
  body : String := ""
  deriving DecidableEq

structure AgentDefinition extends AgentProfile where
  graph : WorkflowGraph := {}

structure CapabilityConstraint where
  name : String := ""
  required : Bool := false
  deriving DecidableEq

structure SquadMember where
  id : String := ""
  agentID : String := ""
  squadID : String := ""
  role : String := ""
  leader : Bool := false
  inputSchema : SchemaRef := {}
  outputSchema : SchemaRef := {}
  capabilityConstraints : List CapabilityConstraint := []
  maxAttempts : Int := 0
  budget : Budget := {}
  deriving DecidableEq

structure SquadPolicy where
  maxNestingDepth : Int := 0
  budget : Budget := {}
  toolPolicy : ToolPolicy := {}
  deriving DecidableEq

structure SquadProfile where
  id : String := ""
  workspaceID : String := ""
  name : String := ""
  revision : Int := 0
  publishedVersion : Int := 0
  members : List SquadMember := []
  policy : SquadPolicy := {}
  status : SquadStatus := .unset
  body : String := ""
  deriving DecidableEq

structure SquadDefinition extends SquadProfile where
  graph : WorkflowGraph := {}

structure OutboxRecord where
  id : String := ""
  planID : String := ""
  workspaceID : String := ""
  kind : String := ""
  idempotencyKey : String := ""
  traceParent : String := ""
  traceState : String := ""
  payload : GoMap Value := ∅
  status : OutboxStatus := .unset
  owner : String := ""
  leaseExpiresAt : Time := 0
  attempts : Int := 0
  maxAttempts : Int := 0
  lastError : String := ""
  createdAt : Time := 0
  updatedAt : Time := 0

def defaultOutboxMaxAttempts : Int := 8

def definitionBundleFormat : String := "adro.workspace-definitions.v1"

structure DefinitionBundle where
  format : String := ""
  sourceWorkspaceID : String := ""
  agents : List AgentDefinition := []
  squads : List SquadDefinition := []

structure DefinitionImportReport where
  format : String := ""
  digest : String := ""
  agentCount : Int := 0
  squadCount : Int := 0
  createdAgents : Int := 0
  createdSquads : Int := 0
  skippedAgents : Int := 0
  skippedSquads : Int := 0
  dryRun : Bool := false
  deriving DecidableEq

/-- What the repository takes from outside, beside what the log does: the lower
case of a character, the JSON text of an intent's payload and the digest of a
bundle's text. The last two fail where the value has no JSON text. -/
structure ControlHost extends EventHost where
  lower : Char → Char
  payloadText : GoMap Value → Option String
  bundleDigest : DefinitionBundle → Option String

mutual
def predicateImage (short : Rat → Rat) : Predicate → Option Predicate
  | .mk kind field op value children => do
    let value ← value.image short
    let children ← predicateImages short children
    pure (.mk kind field op value children)
def predicateImages (short : Rat → Rat) : List Predicate → Option (List Predicate)
  | [] => some []
  | c :: cs => do
    let c ← predicateImage short c
    let cs ← predicateImages short cs
    pure (c :: cs)
end

section

variable (short : Rat → Rat)

def nodeImage (n : WorkflowNode) : Option WorkflowNode :=
  (predicateImage short n.gatePolicy.predicate).map fun p =>
    { n with gatePolicy := { n.gatePolicy with predicate := p } }

def edgeImage (e : WorkflowEdge) : Option WorkflowEdge :=
  (predicateImage short e.predicate).map fun p => { e with predicate := p }

def graphImage (g : WorkflowGraph) : Option WorkflowGraph := do
  let nodes ← g.nodes.mapM (nodeImage short)
  let edges ← g.edges.mapM (edgeImage short)
  pure { g with nodes, edges }

def AgentDefinition.image (a : AgentDefinition) : Option AgentDefinition :=
  if a.createdAt.encodes && a.updatedAt.encodes then
    (graphImage short a.graph).map fun graph => { a with graph }
  else none

def SquadDefinition.image (s : SquadDefinition) : Option SquadDefinition :=
  (graphImage short s.graph).map fun graph => { s with graph }

def OutboxRecord.image (r : OutboxRecord) : Option OutboxRecord :=
  if r.leaseExpiresAt.encodes && r.createdAt.encodes && r.updatedAt.encodes then
    (imageFields short r.payload).map fun payload => { r with payload }
  else none

/-- `cloneValue`. -/
def AgentDefinition.clone (a : AgentDefinition) : AgentDefinition :=
  (a.image short).getD a

def SquadDefinition.clone (s : SquadDefinition) : SquadDefinition :=
  (s.image short).getD s

def OutboxRecord.clone (r : OutboxRecord) : OutboxRecord :=
  (r.image short).getD r

end

/-- The image of a map; there is none when an entry has none. -/
def imageMap {α : Type} (image : α → Option α) (m : GoMap α) : Option (GoMap α) :=
  if m.all fun _ v => (image v).isSome then some (m.filterMap fun _ v => image v) else none

mutual
def predicateDeepEqual : Predicate → Predicate → Bool
  | .mk kind field op value children, .mk kind' field' op' value' children' =>
    kind == kind' && field == field' && op == op' && value.deepEqual value' &&
      predicatesDeepEqual children children'
def predicatesDeepEqual : List Predicate → List Predicate → Bool
  | [], [] => true
  | p :: ps, q :: qs => predicateDeepEqual p q && predicatesDeepEqual ps qs
  | _, _ => false
end

def nodeDeepEqual (a b : WorkflowNode) : Bool :=
  a.id == b.id && a.kind == b.kind && a.agentRef == b.agentRef && a.squadRef == b.squadRef &&
    a.inputContract == b.inputContract && a.outputContract == b.outputContract &&
    a.contextMaxTokens == b.contextMaxTokens && a.retryPolicy == b.retryPolicy &&
    a.timeout == b.timeout && a.budget == b.budget && a.joinPolicy == b.joinPolicy &&
    a.joinQuorum == b.joinQuorum && a.joinFailurePolicy == b.joinFailurePolicy &&
    predicateDeepEqual a.gatePolicy.predicate b.gatePolicy.predicate &&
    a.gatePolicy.requiredEvidence == b.gatePolicy.requiredEvidence &&
    a.gatePolicy.failureCode == b.gatePolicy.failureCode &&
    a.mergePolicy == b.mergePolicy && a.repairPolicy == b.repairPolicy

def edgeDeepEqual (a b : WorkflowEdge) : Bool :=
  a.id == b.id && a.fromID == b.fromID && a.toID == b.toID && a.on == b.on &&
    predicateDeepEqual a.predicate b.predicate && a.priority == b.priority &&
    a.maxTraversals == b.maxTraversals && a.requiredEvidence == b.requiredEvidence &&
    a.loopGroup == b.loopGroup && a.fanOut == b.fanOut

def allPairs {α : Type} (f : α → α → Bool) : List α → List α → Bool
  | [], [] => true
  | a :: as, b :: bs => f a b && allPairs f as bs
  | _, _ => false

def graphDeepEqual (g h : WorkflowGraph) : Bool :=
  g.id == h.id && g.version == h.version && g.entryNodeIDs == h.entryNodeIDs &&
    g.exitNodeIDs == h.exitNodeIDs && allPairs nodeDeepEqual g.nodes h.nodes &&
    allPairs edgeDeepEqual g.edges h.edges

/-- `reflect.DeepEqual` on definitions. -/
def AgentDefinition.deepEqual (a b : AgentDefinition) : Bool :=
  a.toAgentProfile == b.toAgentProfile && graphDeepEqual a.graph b.graph

def SquadDefinition.deepEqual (a b : SquadDefinition) : Bool :=
  a.toSquadProfile == b.toSquadProfile && graphDeepEqual a.graph b.graph

end Adro.Control
