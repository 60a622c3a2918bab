import Adro.Control.Model
import Adro.Orchestration.Executor

/-!
# Checks of definitions

`AgentDefinition.Validate`, `SquadDefinition.Validate` and `ValidateDraft`, and
the check of an imported executor binding, with their error texts. The source
ranges over a map in two of the checks, so which of several offenders it names
is not determined; here the entries come in key order.
-/

namespace Adro.Control

open Adro.Go Adro.Orchestration

/-- `strings.ToLower`. -/
def toLower (H : ControlHost) (s : String) : String := String.ofList (s.toList.map H.lower)

def letterOrUnderscore (c : Char) : Bool := ('a' ≤ c && c ≤ 'z') || ('A' ≤ c && c ≤ 'Z') || c == '_'

def decimalDigit (c : Char) : Bool := '0' ≤ c && c ≤ '9'

/-- A name whose first character is a letter or an underscore, and every later
one that, a digit or one of `more`. -/
def nameMatches (more : List Char) (s : String) : Bool :=
  match s.toList with
  | [] => false
  | c :: cs => letterOrUnderscore c &&
      cs.all fun c => letterOrUnderscore c || decimalDigit c || more.contains c

def environmentNamePattern (s : String) : Bool := nameMatches [] s

def runtimeConfigKeyPattern (s : String) : Bool := nameMatches ['.', '-'] s

def splitOnChar (sep : Char) : List Char → List (List Char)
  | [] => [[]]
  | c :: cs =>
    if c == sep then [] :: splitOnChar sep cs
    else
      match splitOnChar sep cs with
      | [] => [[c]]
      | part :: rest => (c :: part) :: rest

/-- One element of a path: `.` and the empty one are dropped, `..` takes the
last element back where there is one. The elements so far are reversed. -/
def cleanElement (rooted : Bool) (out : List (List Char)) (part : List Char) : List (List Char) :=
  if part == [] || part == ['.'] then out
  else if part == ['.', '.'] then
    match out with
    | last :: rest => if last == ['.', '.'] then part :: out else rest
    | [] => if rooted then [] else [part]
  else part :: out

/-- `path.Clean`. -/
def pathClean (s : String) : String :=
  let rooted := s.toList.head? == some '/'
  let parts := ((splitOnChar '/' s.toList).foldl (cleanElement rooted) []).reverse
  let text := List.intercalate ['/'] parts
  if rooted then String.ofList ('/' :: text) else if text == [] then "." else String.ofList text

/-- `strings.ReplaceAll(s, "\\\\", "/")`: two backslashes become a slash. -/
def slashPairs : List Char → List Char
  | '\\' :: '\\' :: cs => '/' :: slashPairs cs
  | c :: cs => c :: slashPairs cs
  | [] => []

def hasPrefix (s start : String) : Bool := start.toList.isPrefixOf s.toList

def policyOverlap (p : ToolPolicy) : String :=
  let denied := (p.denied.map trimSpace).filter (· != "")
  ((p.allowed.map trimSpace).find? denied.contains).getD ""

def validateOverlap (p : ToolPolicy) (owner : String) : Except Err Unit :=
  ensure (policyOverlap p == "")
    (errorNew (owner ++ " tool policy allows and denies " ++ quote (policyOverlap p)))

def validateDistinct (empty : Nat → String) (duplicated : String → String) (values : List String) :
    Except Err Unit :=
  eachSeen id (fun i seen value => do
    ensure (value != "") (errorNew (empty i))
    ensure (!seen.contains value) (errorNew (duplicated value))) 0 [] (values.map trimSpace)

def validatePresent (message : Nat → String) (values : List String) : Except Err Unit :=
  eachSeen id (fun i _ value => ensure (!blank value) (errorNew (message i))) 0 [] values

def indexed (path : String) (i : Nat) (rest : String) : String :=
  path ++ "[" ++ toString i ++ "]" ++ rest

variable (H : ControlHost)

section

variable (i : Nat) (seen : List String) (b : ExecutorBinding)

def validateStarter (s : ConversationStarter) : Except Err Unit := do
  let label := trimSpace s.label
  let prompt := trimSpace s.prompt
  ensure (!(label == "" || prompt == ""))
    (errorNew (indexed "agent conversation_starters" i " requires label and prompt"))
  ensure (!(label.length > 80 || prompt.length > 4000))
    (errorNew (indexed "agent conversation_starters" i " exceeds its size limit"))
  ensure (!seen.contains (toLower H label))
    (errorNew ("agent conversation starter label " ++ quote label ++ " is duplicated"))

def validateAccess (p : AgentAccessPolicy) : Except Err Unit := do
  let mode := toLower H (trimSpace p.mode)
  if ["", "private", "workspace"].contains mode then
    ensure p.memberIDs.isEmpty
      (errorNew "agent member access requires access_policy.mode members")
  else if mode == "members" then
    ensure (!p.memberIDs.isEmpty)
      (errorNew "agent members access requires at least one member_id")
  else
    throw (errorNew ("agent access policy mode " ++ quote mode ++ " is invalid"))
  validateDistinct (fun i => indexed "agent access_policy.member_ids" i " is empty")
    (fun value => "agent access policy member_id " ++ quote value ++ " is duplicated") p.memberIDs

def validateIDs (field : String) (values : List String) : Except Err Unit :=
  validateDistinct (fun i => "agent " ++ indexed field i " is empty")
    (fun value => "agent " ++ field ++ " value " ++ quote value ++ " is duplicated") values

def DisabledRuntimeSkill.trimmed (s : DisabledRuntimeSkill) : DisabledRuntimeSkill where
  runtimeID := trimSpace s.runtimeID
  provider := trimSpace s.provider
  root := trimSpace s.root
  key := trimSpace s.key
  plugin := trimSpace s.plugin

def DisabledRuntimeSkill.identity (s : DisabledRuntimeSkill) : String :=
  let t := s.trimmed
  "\x00".intercalate [t.runtimeID, t.provider, t.root, t.key, t.plugin]

def validateSkill (skill : DisabledRuntimeSkill) : Except Err Unit := do
  let s := skill.trimmed
  let path := "agent disabled_runtime_skills"
  ensure (!(s.runtimeID == "" || s.provider == ""))
    (errorNew (indexed path i " requires runtime_id and provider"))
  ensure (["provider", "universal", "plugin"].contains s.root)
    (errorNew (indexed path i ".root is invalid"))
  let cleaned := pathClean (String.ofList (slashPairs s.key.toList))
  ensure (!(s.key == "" || hasPrefix s.key "/" || cleaned == "." || cleaned == ".." ||
    hasPrefix cleaned "../" || cleaned != s.key)) (errorNew (indexed path i ".key is invalid"))
  ensure ((s.root == "plugin") == (s.plugin != ""))
    (errorNew (indexed path i ".plugin does not match its root"))
  ensure (!seen.contains skill.identity)
    (errorNew ("agent disabled runtime Skill " ++ quote s.key ++ " is duplicated"))

def AgentStatus.valid : AgentStatus → Bool
  | .draft | .active | .disabled | .archived => true
  | _ => false

def thinkingLevels : List String :=
  ["none", "minimal", "low", "medium", "high", "xhigh", "max", "off", "on"]

def secretFragments : List String :=
  ["secret", "token", "password", "credential", "api_key", "apikey"]

def validateRuntimeConfig (key value : String) : Except Err Unit := do
  ensure (runtimeConfigKeyPattern key)
    (errorNew ("agent runtime_config key " ++ quote key ++ " is invalid"))
  ensure (!secretFragments.any (containsText (toLower H key)))
    (errorNew ("agent runtime_config key " ++ quote key ++
      " must use environment secret references"))
  ensure (!(value.utf8ByteSize > 1024 || value.toList.any ['\r', '\n', '\x00'].contains))
    (errorNew ("agent runtime_config value for " ++ quote key ++ " is invalid"))

def validateEnvironment (ref : EnvironmentReference) : Except Err Unit := do
  let name := trimSpace ref.name
  let secretRef := trimSpace ref.secretRef
  ensure (environmentNamePattern name) (errorNew (indexed "agent environment" i ".name is invalid"))
  ensure (hasPrefix secretRef "env:" &&
    environmentNamePattern (String.ofList (secretRef.toList.drop 4)))
    (errorNew (indexed "agent environment" i ".secret_ref is invalid"))
  ensure (!seen.contains name)
    (errorNew ("agent environment name " ++ quote name ++ " is duplicated"))

def validateExecutor : Except Err Unit := do
  validatePresent (fun i => indexed "agent executor required_caps" i " is empty") b.requiredCaps
  let level := trimSpace b.thinkingLevel
  ensure (level == "" || thinkingLevels.contains level)
    (errorNew ("agent executor thinking_level " ++ quote level ++ " is invalid"))
  let tier := trimSpace b.serviceTier
  ensure (["", "priority", "flex"].contains tier)
    (errorNew ("agent executor service_tier " ++ quote tier ++ " is invalid"))
  validatePresent (fun i => indexed "agent executor custom_args" i " is empty") b.customArgs

def validateRuntime : Except Err Unit := do
  ensure (b.runtimeConfig.size ≤ 32)
    (errorNew "agent runtime_config cannot contain more than 32 entries")
  eachOk (fun e => validateRuntimeConfig H e.1 e.2) b.runtimeConfig.toList
  ensure (b.environment.length ≤ 64)
    (errorNew "agent environment cannot contain more than 64 references")
  eachSeen (fun ref => trimSpace ref.name) validateEnvironment 0 [] b.environment

def AgentDefinition.validate (a : AgentDefinition) : Except Err Unit := do
  ensure (!(blank a.id || blank a.workspaceID || blank a.name))
    (errorNew "agent id, workspace_id and name are required")
  ensure (a.revision ≥ 1) (errorNew "agent revision must be positive")
  ensure (a.description.length ≤ 255) (errorNew "agent description cannot exceed 255 characters")
  ensure (a.conversationStarters.length ≤ 3)
    (errorNew "agent cannot have more than three conversation starters")
  eachSeen (fun s => toLower H (trimSpace s.label)) (validateStarter H) 0 [] a.conversationStarters
  validateAccess H a.accessPolicy
  validateIDs "mcp_server_ids" a.mcpServerIDs
  validateIDs "skill_ids" a.skillIDs
  ensure (a.disabledRuntimeSkills.length ≤ 256)
    (errorNew "agent cannot disable more than 256 runtime Skills")
  eachSeen DisabledRuntimeSkill.identity validateSkill 0 [] a.disabledRuntimeSkills
  ensure a.status.valid (errorNew ("agent status " ++ quote a.status.text ++ " is invalid"))
  validateBudget a.concurrencyBudget "agent concurrency budget"
  ensure (!(a.inputSchema.version < 0 || a.outputSchema.version < 0))
    (errorNew "agent schema versions cannot be negative")
  validateOverlap a.toolPolicy "agent"
  ensure (!(a.status == .active && (blank a.executorBinding.providerID || blank a.inputSchema.id ||
    blank a.outputSchema.id))) (errorNew "active agent requires executor binding and schemas")
  validatePresent (fun i => indexed "agent capabilities" i ".name is required")
    (a.capabilities.map (·.name))
  validateExecutor a.executorBinding
  if a.graph.nodes.isEmpty then pure ()
  else (validateGraph a.graph).mapError (wrapErr "agent graph")
  validateRuntime H a.executorBinding

def credentialFragments : List String :=
  ["token", "secret", "password", "passwd", "cookie", "api-key", "apikey", "credential"]

/-- The part of an argument before its first `=`. -/
def argumentName (arg : String) : String :=
  toLower H (trimSpace (String.ofList (arg.toList.takeWhile (· != '='))))

def validatePortableExecutorBinding : Except Err Unit := do
  ensure (blank b.providerVersion && blank b.binaryDigest)
    (errorNew "provider_version and binary_digest are machine observations and cannot be imported")
  eachOk (fun arg => ensure (!credentialFragments.any (containsText (argumentName H arg)))
    (errorNew ("custom argument " ++ quote (argumentName H arg) ++
      " may contain a credential and cannot be imported"))) b.customArgs

end

def SquadMember.validate (m : SquadMember) : Except Err Unit := do
  ensure (!(blank m.id || (blank m.agentID && blank m.squadID) || blank m.role))
    (errorNew "squad member id, exactly one agent_id/squad_id, and role are required")
  ensure (m.agentID == "" || m.squadID == "")
    (errorNew "squad member cannot reference agent and squad together")
  ensure (m.maxAttempts ≥ 0) (errorNew "max_attempts cannot be negative")
  validateBudget m.budget "squad member budget"
  ensure (!(m.inputSchema.version < 0 || m.outputSchema.version < 0))
    (errorNew "squad member schema versions cannot be negative")
  ensure (!(m.leader && m.agentID == "")) (errorNew "squad leader must reference an agent")

def countSquadLeaders (members : List SquadMember) : Nat := members.countP (·.leader)

def validateSquadPolicy (p : SquadPolicy) : Except Err Unit := do
  ensure (!(p.maxNestingDepth < 0 || p.maxNestingDepth > 8))
    (errorNew "squad max_nesting_depth must be between 0 and 8")
  validateBudget p.budget "squad policy budget"
  validateOverlap p.toolPolicy "squad"

def SquadProfile.identified (s : SquadProfile) : Except Err Unit :=
  ensure (!(blank s.id || blank s.workspaceID || blank s.name))
    (errorNew "squad id, workspace_id and name are required")

/-- A revision is not asked for here, only of drafts. -/
def SquadDefinition.validate (s : SquadDefinition) : Except Err Unit := do
  s.identified
  eachSeen (·.id) (fun i seen m => do
    m.validate.mapError (wrapErr (indexed "members" i ""))
    ensure (!seen.contains m.id) (errorNew (indexed "members" i ".id.duplicate"))) 0 [] s.members
  ensure (!(s.status == .published && countSquadLeaders s.members != 1))
    (errorNew "published squad requires exactly one leader")
  validateSquadPolicy s.policy
  validateGraph s.graph

def SquadDefinition.validateDraft (s : SquadDefinition) : Except Err Unit := do
  s.identified
  ensure (s.revision ≥ 1) (errorNew "squad revision must be positive")
  ensure (s.status == .draft)
    (errorNew ("draft validation requires draft status, got " ++ quote s.status.text))
  validateSquadPolicy s.policy

end Adro.Control
