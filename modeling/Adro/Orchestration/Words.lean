import Adro.Orchestration.Reconcile

/-!
# Whose words decide

The outcome of a structured output is meant to come from the agent's own words:
the texts of its messages and the outputs of final results. When there are none
of these the whole output is searched as one text, and a line whose value the
decoder refuses, for a number that is too large or for its depth, is searched as
it is. A marker in any other field, such as the output of a command, can then decide.
-/

namespace Adro.Orchestration

open Adro.Go Adro.Go.Decoder

section

variable (W : WorkerHost)

def typeOf (members : List (String × Value)) : String := (textMember members "type").getD ""

/-- The text stands in the value as the agent's own: in a message, or as the output
of a final result. -/
inductive Own (text : String) : Bool → Value → Prop
  | message {inMessage : Bool} {members : List (String × Value)}
    (own : (inMessage || isProviderAgentMessageType W (typeOf members)) = true)
    (mem : text ∈ textsOf members "text") : Own text inMessage (.obj members)
  | result {inMessage : Bool} {members : List (String × Value)}
    (own : isProviderTerminalResultType W (typeOf members) = true)
    (mem : text ∈ textsOf members "output") : Own text inMessage (.obj members)
  | item {inMessage : Bool} {items : List Value} {v : Value} (mem : v ∈ items)
    (own : Own text inMessage v) : Own text inMessage (.list items)
  | member {inMessage : Bool} {members : List (String × Value)} {key : String} {v : Value}
    (walked : key ∈ ["item", "params", "payload", "content"])
    (found : memberOf members key = some v)
    (own : Own text (inMessage || isProviderAgentMessageType W (typeOf members)) v) :
    Own text inMessage (.obj members)

def linesOf (output : String) : List String := scanLines (2 * 2 ^ 20) output

/-- Every line that the scanner yields is blank or the JSON text of a value. -/
def Structured (output : String) : Prop :=
  ∀ line ∈ linesOf output, trimSpace line ≠ "" → (jsonValue (trimSpace line)).isSome = true

def OwnText (output text : String) : Prop :=
  ∃ line ∈ linesOf output, ∃ v, jsonValue (trimSpace line) = some v ∧ Own W text false v.value

/-- Some text of the agent has a marker with this outcome. -/
def Told (output outcome : String) : Prop :=
  ∃ text, OwnText W output text ∧ (markerOutcome W text).map Prod.fst = some outcome

/-- An outcome is that of a marker in the agent's own words. -/
def OwnWordsDecide (output : String) : Prop :=
  (providerOutcome W output).1 ≠ "" → Told W output (providerOutcome W output).1

/-- The decoder refuses the line. -/
def Unread (line : String) : Prop :=
  trimSpace line ≠ "" ∧ (unmarshal (trimSpace line)).any Decoded.inRange = false

/-- What is searched of a line: the agent's texts in it, or all of it if it is not read. -/
def Says (line text : String) : Prop :=
  (∃ v, unmarshal (trimSpace line) = some ⟨v, true⟩ ∧ Own W text false v) ∨
    (Unread line ∧ text = trimSpace line)

/-- Nothing is searched of any line. -/
def Silent (output : String) : Prop := ∀ line ∈ linesOf output, ∀ text, ¬ Says W line text

/-- An outcome that the agent does not tell is found in a line that is not read and after which
no line has a marker, or, if nothing is searched of any line, in the output as one text. -/
inductive Misled (output : String) : Prop
  | line (found : String × GoMap Value) (before after : List String) (line : String)
    (place : linesOf output = before ++ line :: after) (unread : Unread line)
    (marker : markerOutcome W (trimSpace line) = some found) (outcome : found.1 ≠ "")
    (untold : ¬ Told W output found.1)
    (last : ∀ later ∈ after, ∀ text, Says W later text → markerOutcome W text = none)
  | whole (found : String × GoMap Value) (present : blank output = false)
    (silent : Silent W output)
    (marker : markerOutcome W output = some found) (outcome : found.1 ≠ "")

end

variable {W : WorkerHost} {text output : String}

theorem mem_collectItems :
    text ∈ collectItems W inMessage items ↔
      ∃ v ∈ items, text ∈ collectProviderMessageTexts W inMessage v := by
  induction items with
  | nil => simp [collectItems]
  | cons v rest ih => simp [collectItems, ih]

theorem mem_collectMember :
    text ∈ collectMember W inMessage key members ↔
      ∃ v, memberOf members key = some v ∧ text ∈ collectProviderMessageTexts W inMessage v := by
  induction members with
  | nil => simp [collectMember, memberOf]
  | cons m rest ih =>
    simp only [collectMember, memberOf, List.find?_cons] at ih ⊢
    cases m.1 == key with
    | true => simp
    | false => exact ih

theorem mem_collect_obj :
    text ∈ collectProviderMessageTexts W inMessage (.obj members) ↔
      ((inMessage || isProviderAgentMessageType W (typeOf members)) = true ∧
        text ∈ textsOf members "text") ∨
      (isProviderTerminalResultType W (typeOf members) = true ∧ text ∈ textsOf members "output") ∨
      ∃ key ∈ ["item", "params", "payload", "content"], ∃ v, memberOf members key = some v ∧
        text ∈ collectProviderMessageTexts W
          (inMessage || isProviderAgentMessageType W (typeOf members)) v := by
  simp only [collectProviderMessageTexts, typeOf, List.mem_append, mem_collectMember,
    List.mem_ite_nil_right, List.exists_mem_cons_iff, List.not_mem_nil, false_and, exists_false,
    or_false, or_assoc]

theorem sizeOf_memberOf (h : memberOf members key = some v) :
    sizeOf v < sizeOf members := by
  obtain ⟨m, hm, rfl⟩ := Option.map_eq_some_iff.mp h
  have := List.sizeOf_lt_of_mem (List.mem_of_find?_eq_some hm)
  cases m
  simp at this ⊢
  omega

theorem own_of_mem (v : Value) (inMessage : Bool)
    (h : text ∈ collectProviderMessageTexts W inMessage v) : Own W text inMessage v :=
  match v with
  | .list items => by
    obtain ⟨v, hv, h⟩ := mem_collectItems.mp h
    exact .item hv (own_of_mem v inMessage h)
  | .obj members => by
    rcases mem_collect_obj.mp h with ⟨hown, h⟩ | ⟨hown, h⟩ | ⟨key, hkey, v, hv, h⟩
    · exact .message hown h
    · exact .result hown h
    · have := sizeOf_memberOf hv
      exact .member hkey hv (own_of_mem v _ h)
  | .null | .bool _ | .str _ | .int _ _ | .float _ _ | .strs _ | .typed _ _ => by
    simp [collectProviderMessageTexts] at h
termination_by sizeOf v

theorem mem_of_own (h : Own W text inMessage v) :
    text ∈ collectProviderMessageTexts W inMessage v := by
  induction h with
  | message own mem => exact mem_collect_obj.mpr (.inl ⟨own, mem⟩)
  | result own mem => exact mem_collect_obj.mpr (.inr (.inl ⟨own, mem⟩))
  | item mem _ ih => exact mem_collectItems.mpr ⟨_, mem, ih⟩
  | member walked found _ ih =>
    exact mem_collect_obj.mpr (.inr (.inr ⟨_, walked, _, found, ih⟩))

variable (W) in
def textsOfLine (line : String) : List String :=
  let line := trimSpace line
  if line == "" then []
  else
    match unmarshal line with
    | some ⟨value, true⟩ => collectProviderMessageTexts W false value
    | _ => [line]

theorem unmarshal_blank : unmarshal "" = none := by decide +kernel

theorem textsOfLine_unread (h : Unread line) : textsOfLine W line = [trimSpace line] := by
  obtain ⟨hne, hunread⟩ := h
  simp only [textsOfLine, beq_iff_eq, hne, if_false]
  split
  · rename_i hv
    rw [hv] at hunread
    cases hunread
  · rfl

theorem mem_textsOfLine : text ∈ textsOfLine W line ↔ Says W line text := by
  by_cases hread : Unread line
  · have hno : ¬ ∃ v, unmarshal (trimSpace line) = some ⟨v, true⟩ ∧ Own W text false v := by
      rintro ⟨v, hv, -⟩
      have hunread := hread.2
      rw [hv] at hunread
      cases hunread
    simp [textsOfLine_unread hread, Says, hread, hno]
  · unfold Says textsOfLine
    simp only [hread, false_and, or_false, beq_iff_eq]
    split
    · rename_i hblank
      simp [hblank, unmarshal_blank]
    · rename_i hblank
      split
      · rename_i v hv
        simp only [hv, Option.some.injEq, Decoded.mk.injEq, and_true, exists_eq_left']
        exact ⟨own_of_mem v false, mem_of_own⟩
      · rename_i hv
        refine absurd ⟨hblank, ?_⟩ hread
        cases hun : unmarshal (trimSpace line) with
        | none => rfl
        | some decoded =>
          obtain ⟨v, _ | _⟩ := decoded
          · rfl
          · exact absurd hun (hv v)

/-- What is said in a line that is read is the agent's own. -/
theorem Says.own (h : Says W line text) (hread : ¬ Unread line) (hline : line ∈ linesOf output) :
    OwnText W output text := by
  obtain ⟨v, hv, hown⟩ := h.resolve_right fun h => hread h.1
  refine ⟨line, hline, ⟨v, true⟩, ?_, hown⟩
  unfold unmarshal at hv
  split at hv
  · cases hv
  · exact hv

/-- Where nothing is searched the agent says nothing. -/
theorem silent_untold (h : Silent W output) :
    ¬ OwnText W output text := by
  rintro ⟨line, hline, ⟨v, inRange⟩, hv, hown⟩
  have hread : ¬ Unread line := fun hunread => h line hline _ (.inr ⟨hunread, rfl⟩)
  have hblank : trimSpace line ≠ "" := fun hblank => by
    rw [hblank, show jsonValue "" = none by decide +kernel] at hv
    cases hv
  have hrange : (unmarshal (trimSpace line)).any Decoded.inRange = true := by
    simpa [Unread, hblank] using hread
  obtain ⟨⟨w, _⟩, hw, rfl⟩ := (Option.any_eq_true _ _).mp hrange
  have hsame : jsonValue (trimSpace line) = some ⟨w, true⟩ := by
    unfold unmarshal at hw
    split at hw
    · cases hw
    · exact hw
  rw [hv] at hsame
  cases hsame
  exact h line hline text (.inl ⟨v, hw, hown⟩)

/-- The last marker is in the last line that has one. -/
theorem last_marker (lines : List String) :
    (lines.flatMap (textsOfLine W)).reverse.findSome? (markerOutcome W) = some found ↔
      ∃ before line after, lines = before ++ line :: after ∧
        (textsOfLine W line).reverse.findSome? (markerOutcome W) = some found ∧
        ∀ later ∈ after, ∀ text, Says W later text → markerOutcome W text = none := by
  have hsilent (line : String) : (textsOfLine W line).reverse.findSome? (markerOutcome W) = none ↔
      ∀ text, Says W line text → markerOutcome W text = none := by
    simp only [List.findSome?_eq_none_iff, List.mem_reverse, mem_textsOfLine]
  -- The search over all texts is a search over the lines, each searched by itself.
  have hlines : (lines.flatMap (textsOfLine W)).reverse.findSome? (markerOutcome W) =
      lines.reverse.findSome? fun line =>
        (textsOfLine W line).reverse.findSome? (markerOutcome W) := by
    rw [List.reverse_flatMap]
    generalize lines.reverse = lines
    induction lines with
    | nil => rfl
    | cons line rest ih =>
      rw [List.flatMap_cons, List.findSome?_append, ih, List.findSome?_cons]
      cases h : (textsOfLine W line).reverse.findSome? (markerOutcome W) <;> simp [h]
  rw [hlines, List.findSome?_eq_some_iff]
  constructor
  · rintro ⟨after, line, before, hplace, hfound, hlast⟩
    refine ⟨before.reverse, line, after.reverse, ?_, hfound, fun later hlater => ?_⟩
    · simpa using congrArg List.reverse hplace
    · exact (hsilent later).mp (hlast later (List.mem_reverse.mp hlater))
  · rintro ⟨before, line, after, rfl, hfound, hlast⟩
    exact ⟨after.reverse, line, before.reverse, by simp, hfound,
      fun later hlater => (hsilent later).mpr (hlast later (List.mem_reverse.mp hlater))⟩

theorem candidateTexts_lines : candidateTexts W output =
    if ((linesOf output).flatMap (textsOfLine W)).isEmpty && !blank output then [output]
    else (linesOf output).flatMap (textsOfLine W) := by
  unfold candidateTexts linesOf
  generalize scanLines (2 * 2 ^ 20) output = lines
  rfl

theorem silent_iff : Silent W output ↔ (linesOf output).flatMap (textsOfLine W) = [] := by
  rw [List.flatMap_eq_nil_iff]
  simp only [Silent, List.eq_nil_iff_forall_not_mem, mem_textsOfLine]

theorem misled_silent (h : Silent W output) : Misled W output ↔
    blank output = false ∧ ∃ found, markerOutcome W output = some found ∧ found.1 ≠ "" := by
  constructor
  · rintro (⟨_, _, _, line, place, unread⟩ | ⟨found, present, _, marker, outcome⟩)
    · exact absurd (.inr ⟨unread, rfl⟩) (h line (by simp [place]) (trimSpace line))
    · exact ⟨present, found, marker, outcome⟩
  · rintro ⟨present, found, marker, outcome⟩
    exact .whole found present h marker outcome

theorem misled_spoken (h : ¬ Silent W output) : Misled W output ↔ ∃ found,
    ((linesOf output).flatMap (textsOfLine W)).reverse.findSome? (markerOutcome W) = some found ∧
      found.1 ≠ "" ∧ ¬ Told W output found.1 := by
  constructor
  · rintro (⟨found, before, after, line, place, unread, marker, outcome, untold,
      last⟩ | ⟨_, _, silent⟩)
    · refine ⟨found, (last_marker _).mpr ⟨before, line, after, place, ?_, last⟩, outcome, untold⟩
      simp [textsOfLine_unread unread, marker]
    · exact absurd silent h
  · rintro ⟨found, hfound, outcome, untold⟩
    obtain ⟨before, line, after, place, hline, last⟩ := (last_marker _).mp hfound
    obtain ⟨text, htext, hmarker⟩ := List.exists_of_findSome?_eq_some hline
    have hsays := mem_textsOfLine.mp (List.mem_reverse.mp htext)
    -- A marker in a line that was read as an event is the agent's own.
    by_cases hread : Unread line
    · rw [textsOfLine_unread hread] at htext
      obtain rfl : text = trimSpace line := by simpa using htext
      exact .line found before after line place hread hmarker outcome untold last
    · refine absurd ⟨text, hsays.own hread (by simp [place]), ?_⟩ untold
      rw [hmarker]
      rfl

/-- One event, the result of a tool. -/
def toolOutput : String :=
  "\x7b\"type\":\"tool_result\",\"result\":" ++
    "\x7b\"ADRO_RESULT_JSON\":\x7b\"outcome\":\"pass\"\x7d\x7d\x7d"

/-- A message of the agent, and the same event with a number that no `float64` is near to. -/
def largeOutput : String :=
  "\x7b\"type\":\"agent_message\",\"text\":\"still at work\"\x7d\n" ++
    "\x7b\"type\":\"tool_result\",\"n\":1e999,\"result\":" ++
    "\x7b\"ADRO_RESULT_JSON\":\x7b\"outcome\":\"pass\"\x7d\x7d\x7d"

theorem not_told (h : ∀ line ∈ linesOf output, ∀ v ∈ jsonValue (trimSpace line),
    ∀ text ∈ collectProviderMessageTexts W false v.value, markerOutcome W text = none) :
    ¬ Told W output outcome := by
  rintro ⟨text, ⟨line, hline, v, hv, hown⟩, hmarker⟩
  rw [h line hline v hv text (mem_of_own hown)] at hmarker
  cases hmarker

end Adro.Orchestration
