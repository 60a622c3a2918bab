import Adro.Go.Json
import Adro.Go.Text
import Adro.Orchestration.Events

/-!
# Provider snapshots

What a worker reads out of a provider's snapshot: the result marker in its
output, the evidence of tool calls, and the transition it reports for the
attempt. The output is scanned line by line; only agent messages and final
results of a structured output, or plain lines, can carry the marker.
-/

namespace Adro.Orchestration

open Adro.Go Adro.Go.Decoder

structure WorkerHost extends EventHost where
  lower : Char → Char

structure ToolEvent where
  callID : String := ""
  name : String := ""
  phase : String := ""

structure RunSnapshot where
  status : String := ""
  lastEventID : String := ""
  executorPath : String := ""
  outputSHA256 : String := ""
  output : String := ""
  error : String := ""
  toolEvents : List ToolEvent := []
  inputTokens : Int := 0
  outputTokens : Int := 0
  estimatedCost : F64 := .finite 0

variable (W : WorkerHost)

def normalized (s : String) : String := toLower W.lower (removeChar '_' (trimSpace s))

def isCommandExecutionName (name : String) : Bool := normalized W name == "commandexecution"

def recordPhase (requireCommand : Bool) (pairs : GoMap (GoMap Bool)) (e : ToolEvent) :
    GoMap (GoMap Bool) :=
  if blank e.callID || (requireCommand && !isCommandExecutionName W e.name) then pairs
  else
    let phases := (pairs[e.callID]?).getD ∅
    let phase := toLower W.lower (trimSpace e.phase)
    pairs.insert e.callID
      (if phase == "before" || phase == "after" then phases.insert phase true else phases)

def hasProviderToolEvidence (s : RunSnapshot) : Bool :=
  let output := toLower W.lower (removeChar '_' s.output)
  let path := s.executorPath.toList
  let executor := String.ofList (trimSuffix (baseName path) (extension path))
  let commands := containsText output "commandexecution"
  let requireCommand := equalFold W.fold executor "codex" || commands
  if !commands && requireCommand then false
  else
    (s.toolEvents.foldl (recordPhase W requireCommand) ∅).any fun _ phases =>
      (phases["before"]?).getD false && (phases["after"]?).getD false

def isProviderTerminalResultType (value : String) : Bool :=
  normalized W value == "result" || normalized W value == "finalresult"

def isProviderAgentMessageType (value : String) : Bool :=
  normalized W value == "agentmessage" || normalized W value == "assistantmessage"

section

variable (members : List (String × Value)) (key : String)

def memberOf : Option Value :=
  (members.find? fun m => m.1 == key).map (·.2)

def textMember : Option String :=
  (memberOf members key).bind Value.str?

/-- The member as a one-element list when it is a text that is not blank. -/
def textsOf : List String :=
  match textMember members key with
  | some text => if blank text then [] else [text]
  | none => []

end

mutual
/-- The texts of agent messages and of final results, in the order of the walk. -/
def collectProviderMessageTexts (inMessage : Bool) : Value → List String
  | .list items => collectItems inMessage items
  | .obj members =>
    let typ := (textMember members "type").getD ""
    let message := inMessage || isProviderAgentMessageType W typ
    (if message then textsOf members "text" else []) ++
    (if isProviderTerminalResultType W typ then textsOf members "output" else []) ++
    collectMember message "item" members ++ collectMember message "params" members ++
    collectMember message "payload" members ++ collectMember message "content" members
  | _ => []
def collectItems (inMessage : Bool) : List Value → List String
  | [] => []
  | v :: rest => collectProviderMessageTexts inMessage v ++ collectItems inMessage rest
def collectMember (inMessage : Bool) (key : String) : List (String × Value) → List String
  | [] => []
  | (k, v) :: rest =>
    if k == key then collectProviderMessageTexts inMessage v else collectMember inMessage key rest
end

/-- The object at the front, up to the brace that closes it. -/
def extractJSONObject : Int → Bool → Bool → List Char → Option (List Char)
  | _, _, _, [] => none
  | depth, true, true, c :: cs => (extractJSONObject depth true false cs).map (c :: ·)
  | depth, true, false, c :: cs =>
    (extractJSONObject depth (c != '"') (c == '\\') cs).map (c :: ·)
  | depth, false, escaped, c :: cs =>
    if c == '"' then (extractJSONObject depth true escaped cs).map (c :: ·)
    else if c == '{' then (extractJSONObject (depth + 1) false escaped cs).map (c :: ·)
    else if c == '}' then
      if depth - 1 == 0 then some [c]
      else (extractJSONObject (depth - 1) false escaped cs).map (c :: ·)
    else (extractJSONObject depth false escaped cs).map (c :: ·)

/-- Decoding into a map keeps what an earlier, failed decoding left in it. -/
def unmarshalObject (before : List (String × Value)) (raw : List Char) :
    List (String × Value) × Bool :=
  match unmarshal (String.ofList raw) with
  | some ⟨.obj members, ok⟩ => (members.foldl (fun m e => setMember e.1 e.2 m) before, ok)
  | _ => (before, false)

def parseProviderMarker (text : String) : Option (List (String × Value)) := do
  let rest ← afterLast "ADRO_RESULT_JSON".toList text.toList
  let fragment := trimChars rest
  let fragment := match fragment with
    | c :: cs => if c == '=' || c == ':' then trimChars cs else fragment
    | [] => []
  let raw ← extractJSONObject 0 false false (fragment.dropWhile (· != '{'))
  let (payload, ok) := unmarshalObject [] raw
  if ok then some payload
  else
    let (payload, ok) := unmarshalObject payload (replacePair '\\' '"' ['"'] raw)
    if ok then some payload else none

/-- The first text under the outcome keys that is not blank. -/
def directOutcome (members : List (String × Value)) : Option String :=
  ["adro_outcome", "final_outcome", "outcome"].findSome? fun key =>
    (textsOf members key).head?.map trimSpace

mutual
/-- The outcome of the object under `result`, or of the one nested in it. -/
def nestedOutcome : List (String × Value) → String
  | [] => ""
  | (k, v) :: rest => if k == "result" then resultOutcome v else nestedOutcome rest
def resultOutcome : Value → String
  | .obj members => (directOutcome members).getD (nestedOutcome members)
  | _ => ""
end

def firstOutcome (members : List (String × Value)) : String := resultOutcome (.obj members)

def normalizeProviderOutcome (value : String) : String :=
  let value := toLower W.lower (trimSpace value)
  if ["bug", "defect", "regression"].contains value then "bug"
  else if ["failure", "failed", "fail", "error"].contains value then "failure"
  else if ["pass", "passed", "success", "succeeded", "ok"].contains value then "pass"
  else if ["timeout", "timed_out"].contains value then "timeout"
  else if ["cancel", "cancelled", "canceled"].contains value then "cancelled"
  else ""

def providerStringSlice : Option Value → Option (List String)
  | some (.strs values) => some values
  | some (.list values) => values.mapM fun v => v.str?.filter (!blank ·)
  | _ => none

def candidateTexts (output : String) : List String :=
  let candidates := (scanLines (2 * 2 ^ 20) output).flatMap fun line =>
    let line := trimSpace line
    if line == "" then []
    else
      match unmarshal line with
      | some ⟨value, true⟩ => collectProviderMessageTexts W false value
      | _ => [line]
  if candidates.isEmpty && !blank output then [output] else candidates

def outcomeFields (payload : List (String × Value)) (candidate : String) : GoMap Value :=
  let fields : GoMap Value := match memberOf payload "fields" with
    | some (.obj members) => members.foldl (fun m e => m.insert e.1 e.2) ∅
    | _ => ∅
  let fields := match (textsOf payload "reason_code").head? with
    | some reason => fields.insert "provider_reason_code" (.str (trimSpace reason))
    | none => fields
  let fields := match (textsOf payload "summary").head? with
    | some summary => fields.insert "provider_summary" (.str summary)
    | none => fields
  let fields := match providerStringSlice (memberOf payload "evidence_ids") with
    | some evidence => fields.insert "provider_evidence_ids" (.strs evidence)
    | none => fields
  fields.insert "provider_outcome" (.str candidate)

/-- The outcome and the fields of the marker in a text. -/
def markerOutcome (text : String) : Option (String × GoMap Value) :=
  match parseProviderMarker text with
  | none => none
  | some payload =>
    let candidate := firstOutcome payload
    if candidate == "" then none
    else some (normalizeProviderOutcome W candidate, outcomeFields payload candidate)

/-- The last marker that has an outcome decides. -/
def providerOutcome (output : String) : String × GoMap Value :=
  ((candidateTexts W output).reverse.findSome? (markerOutcome W)).getD ("", ∅)

def providerStringField (fields : GoMap Value) (key : String) : String :=
  trimSpace ((fields[key]?.bind Value.str?).getD "")

def providerStringSliceField (fields : GoMap Value) (key : String) : List String :=
  (providerStringSlice fields[key]?).getD []

def mergeProviderFields (base extra : GoMap Value) : GoMap Value :=
  extra.toList.foldl (fun m e => m.insert e.1 e.2) base

/-- The value at the end unless it is blank or, as it is, in the list. -/
def appendProviderEvidence (values : List String) (addition : String) : List String :=
  let addition := trimSpace addition
  if addition == "" || values.contains addition then values else values ++ [addition]

section

variable (s : RunSnapshot) (runID : String) (m : Marker) (usage : GoMap Value)

def usageFields : GoMap Value :=
  let tokens := i64 (s.inputTokens + s.outputTokens)
  let usage := ((∅ : GoMap Value).insert "tokens" (.int .int64 tokens)).insert "tool_calls"
    (.int .int s.toolEvents.length)
  if (F64.finite 0).lt s.estimatedCost then
    usage.insert "cost_cents" (.int .int64 (s.estimatedCost.mul (.finite 100)).toInt64)
  else usage

structure Report where
  event : String
  result : StructuredResult
  failure : Option FailureReason := none

structure Marker where
  outcome : String
  fields : GoMap Value
  reason : String
  summary : String
  evidence : List String

def RunSnapshot.marker : Marker :=
  let (outcome, fields) := providerOutcome W s.output
  let summary := providerStringField fields "provider_summary"
  { outcome, fields
    reason := providerStringField fields "provider_reason_code"
    summary := if summary == "" then s.output else summary
    evidence := providerStringSliceField fields "provider_evidence_ids" }

def retryableFailure (code message : String) : Option FailureReason :=
  some { code, message, retryable := true }

def reported (event outcome code : String) (evidence : List String) : Report where
  event := event
  result := {
    outcome, reasonCode := m.reason, summary := m.summary
    fields := mergeProviderFields usage m.fields, evidenceIDs := evidence }
  failure := retryableFailure code m.summary

/-- The part of the completed case after the two checks. `failure` is what the
check for a missing result left; only a bug or a failure replaces it. -/
def completedReport (failure : Option FailureReason) : Report :=
  let r :=
    if m.outcome == "bug" then reported m usage "bug" "bug" "provider_reported_bug" m.evidence
    else if m.outcome == "failure" then
      reported m usage "failure" "failure" "provider_reported_failure" m.evidence
    else {
      event := "success"
      result := {
        outcome := "pass", reasonCode := m.reason, summary := m.summary
        fields := if m.fields.isEmpty then usage else mergeProviderFields usage m.fields
        evidenceIDs := m.evidence }
      failure := failure }
  let evidence := appendProviderEvidence r.result.evidenceIDs s.lastEventID
  { r with result := { r.result with
      evidenceIDs :=
        if evidence.isEmpty then ["provider-run:" ++ runID ++ ":completed"] else evidence } }

def missingEvidenceReport : Report :=
  let summary := "provider completed without a matched tool before/after pair"
  { event := "failure"
    result := {
      outcome := "failure", reasonCode := "provider_tool_evidence_missing", summary
      fields := (usage.insert "provider_output_sha256" (.str s.outputSHA256)).insert
        "tool_event_count" (.int .int s.toolEvents.length)
      evidenceIDs := ["provider-run:" ++ runID ++ ":missing-tool-evidence"] }
    failure := retryableFailure "provider_tool_evidence_missing" summary }

def completedStatuses : List String := ["completed", "passed", "success", "succeeded"]

/-- A missing result only sets the failure: the report built for it is
overwritten by the rest of the case. -/
def reportCompleted : Report :=
  if m.outcome == "" then
    completedReport s runID m usage (retryableFailure "provider_result_missing"
      "provider completed without ADRO_RESULT_JSON evidence")
  else if !hasProviderToolEvidence W s then missingEvidenceReport s runID usage
  else completedReport s runID m usage none

def RunSnapshot.normalStatus : String := toLower W.lower (trimSpace s.status)

/-- The transition for a snapshot; none while the run has not ended. -/
def RunSnapshot.report : Option Report :=
  let m := s.marker W
  let usage := usageFields s
  let run := "provider-run:" ++ runID
  let status := s.normalStatus W
  if completedStatuses.contains status then some (reportCompleted W s runID m usage)
  else if ["failed", "error", "failure"].contains status then
    if m.outcome == "bug" then some (reported m usage "bug" "bug" "provider_reported_bug"
      (appendProviderEvidence m.evidence (run ++ ":bug")))
    else some (reported m usage "failure" "failure" "provider_failed"
      (appendProviderEvidence m.evidence (run ++ ":failed")))
  else if ["timed_out", "timeout", "timedout"].contains status then
    some (reported m usage "timeout" "timeout" "provider_timeout"
      (appendProviderEvidence m.evidence (run ++ ":timeout")))
  else if ["cancelled", "canceled"].contains status then
    some {
      event := "cancel"
      result := {
        outcome := "cancelled", summary := s.error, fields := usage
        evidenceIDs := [run ++ ":cancelled"] }
      failure := some { code := "cancelled", message := s.error } }
  else none

end

end Adro.Orchestration
