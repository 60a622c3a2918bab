import Adro.Go.Map
import Adro.Go.Basic
import Mathlib.Data.List.Perm.Subperm

/-!
# The context manifest and its prompt layer

A manifest selects blocks and carries their prompt segments, as a list of its
own. `Manifest.validate` accepts a list that covers the blocks; it compares some
of the fields of a segment with those of its block, and the order of the segments
only up to the rank of their kinds.
-/

namespace Adro.Context

open Adro.Go

inductive PromptKind
  | systemPolicy
  | workspacePolicy
  | agentRole
  | planNodeContract
  | latestObjective
  | acceptanceCriteria
  | contextMemory
  | toolSchema
  | evidence
  | outputContract
  | other (name : String)
  deriving DecidableEq, Repr

namespace PromptKind

def text : PromptKind → String
  | .systemPolicy => "system_policy"
  | .workspacePolicy => "workspace_policy"
  | .agentRole => "agent_role"
  | .planNodeContract => "plan_node_contract"
  | .latestObjective => "latest_objective"
  | .acceptanceCriteria => "acceptance_criteria"
  | .contextMemory => "context_memory"
  | .toolSchema => "tool_schema"
  | .evidence => "evidence"
  | .outputContract => "output_contract"
  | .other name => name

def ofText (s : String) : PromptKind :=
  ([.systemPolicy, .workspacePolicy, .agentRole, .planNodeContract, .latestObjective,
    .acceptanceCriteria, .contextMemory, .toolSchema, .evidence, .outputContract].find?
    (·.text == s)).getD (.other s)

/-- `promptSegmentRanks`. -/
def rank : PromptKind → Option Nat
  | .systemPolicy => some 10
  | .workspacePolicy => some 20
  | .agentRole => some 30
  | .planNodeContract => some 40
  | .latestObjective => some 50
  | .acceptanceCriteria => some 60
  | .contextMemory => some 70
  | .toolSchema => some 80
  | .evidence => some 90
  | .outputContract => some 100
  | .other _ => none

theorem rank_inj {k k' : PromptKind} {n : Nat} (h : k.rank = some n) (h' : k'.rank = some n) :
    k = k' := by
  cases k <;> cases k' <;> simp_all [rank] <;> omega

end PromptKind

structure Block where
  id : String
  kind : String
  source : String
  content : String
  hash : String
  policy : String
  trust : String
  selectionReason : String
  tokenEstimate : Int
  mandatory : Bool
  metadata : GoMap String

structure PromptSegment where
  id : String
  kind : PromptKind
  version : Int
  hash : String
  trust : String
  mandatory : Bool
  tokenBudget : Int
  sensitivity : String
  source : String
  content : String
  deriving DecidableEq, Repr

structure PromptManifest where
  version : String
  segments : List PromptSegment
  digest : String

/-- The compression records and the time of creation are in no digest and in no check. -/
structure Manifest where
  sessionID : String
  version : Int
  semanticSnapshotVersion : Int
  tokenBudget : Int
  tokenEstimate : Int
  blocks : List Block
  requiredBlockIDs : List String
  omittedRequiredIDs : List String
  compilerVersion : String
  tokenizerID : String
  promptManifest : PromptManifest
  digest : String
  promptManifestHash : String
  parentDigest : String

/-- The hash in hexadecimal, the JSON texts it is taken of, and the case mappings. -/
structure Platform where
  sha256 : String → String
  promptText : PromptManifest → String
  manifestText : Manifest → String
  bindingText : String → PromptManifest → String
  lower : Char → Char
  fold : Char → Char

variable (P : Platform)

def hashBlock (b : Block) : String := P.sha256 b.content

def promptManifestDigest (p : PromptManifest) : String :=
  P.sha256 (P.promptText { p with digest := "" })

def manifestDigest (m : Manifest) : String :=
  P.sha256 (P.manifestText
    { m with
      digest := ""
      promptManifestHash := ""
      promptManifest := { m.promptManifest with digest := "" } })

def promptManifestHash (m : Manifest) : String := P.sha256 (P.bindingText m.digest m.promptManifest)

def promptManifestVersion : String := "prompt-manifest-v1"

def toLower (s : String) : String := String.ofList (s.toList.map P.lower)

def promptKindForBlock (b : Block) : PromptKind :=
  if b.mandatory && equalFold P.fold (trimSpace b.source) "system" then .systemPolicy
  else if b.mandatory && containsText (toLower P b.selectionReason) "objective" then
    .latestObjective
  else
    let kind := toLower P (trimSpace b.kind)
    if ["system", "policy"].contains kind then .systemPolicy
    else if ["tool", "tool_call", "tool_result", "transaction", "tool_schema"].contains kind then
      .toolSchema
    else if ["code", "json", "artifact", "evidence"].contains kind then .evidence
    else if ["turn", "archive", "memory", "summary"].contains kind then .contextMemory
    else .planNodeContract

/-- The kind that the metadata names, or the derived one. -/
def Block.promptKind (b : Block) : PromptKind :=
  let kind := trimSpace (b.metadata["prompt_kind"]?.getD "")
  if kind == "" then promptKindForBlock P b else .ofText kind

def Block.segment (b : Block) : PromptSegment :=
  { id := b.id
    kind := b.promptKind P
    version := 1
    hash := b.hash
    trust := b.trust
    mandatory := b.mandatory
    tokenBudget := b.tokenEstimate
    sensitivity := trimSpace (b.metadata["sensitivity"]?.getD "")
    source := b.source
    content := b.content }

def Block.complete (b : Block) : Bool :=
  b.id != "" && b.source != "" && b.hash != "" && b.policy != "" && b.trust != "" &&
    b.selectionReason != "" && b.tokenEstimate ≥ 1 && !blank b.content

def PromptSegment.rank (s : PromptSegment) : Nat := s.kind.rank.getD 0

/-- Not after in the order of `SliceStable`. -/
def PromptSegment.le (s t : PromptSegment) : Bool :=
  s.rank < t.rank || (s.rank == t.rank && s.id ≤ t.id)

def buildPromptManifest (blocks : List Block) : Except String PromptManifest := do
  eachOk (fun b => do
    ensure (b.promptKind P).rank.isSome
      ("prompt segment " ++ b.id ++ " has unsupported kind " ++ quote (b.promptKind P).text)
    ensure b.complete ("prompt segment " ++ b.id ++ " has incomplete lineage")) blocks
  let manifest : PromptManifest :=
    ⟨promptManifestVersion, (blocks.map (Block.segment P)).mergeSort PromptSegment.le, ""⟩
  .ok { manifest with digest := promptManifestDigest P manifest }

def PromptSegment.complete (s : PromptSegment) : Bool :=
  s.kind.rank.isSome && s.version ≥ 1 && s.id != "" && s.hash != "" && s.trust != "" &&
    s.source != "" && s.tokenBudget ≥ 1 && !blank s.content

def checkSegments : Option Nat → List String → List PromptSegment → Except String Unit
  | _, _, [] => .ok ()
  | last, seen, s :: rest => do
    ensure s.complete ("invalid prompt segment " ++ s.id)
    ensure (last.all (· ≤ s.rank)) "prompt manifest segment order is not canonical"
    ensure (!seen.contains s.id) ("duplicate prompt segment " ++ s.id)
    checkSegments (some s.rank) (s.id :: seen) rest

def PromptManifest.validate (p : PromptManifest) : Except String Unit := do
  ensure (p.version == promptManifestVersion && p.digest != "") "invalid prompt manifest metadata"
  checkSegments none [] p.segments
  ensure (promptManifestDigest P p == p.digest) "prompt manifest digest mismatch"

/-- The fields of a segment that are compared with the block's. -/
def PromptSegment.bound (s : PromptSegment) (b : Block) : Bool :=
  s.hash == b.hash && s.source == b.source && s.content == b.content &&
    s.mandatory == b.mandatory && s.tokenBudget == b.tokenEstimate

namespace Manifest

variable (m : Manifest)

def validatePromptManifestBindings : Except String Unit := do
  ensure (m.promptManifest.segments.length == m.blocks.length)
    ("prompt manifest block coverage mismatch: segments=" ++
      toString m.promptManifest.segments.length ++ " blocks=" ++ toString m.blocks.length)
  eachOk (fun s =>
    match m.blocks.reverse.find? (·.id == s.id) with
    | none => .error ("prompt manifest references unknown block " ++ s.id)
    | some b => do
      ensure (s.bound b) ("prompt manifest binding mismatch for block " ++ s.id)
      ensure (s.kind == b.promptKind P) ("prompt manifest kind mismatch for block " ++ s.id))
    m.promptManifest.segments

def checkBlocks : Except String Unit :=
  eachSeen Block.id (fun _ seen b => do
    ensure (b.id != "") "context block id is required"
    ensure (!seen.contains b.id) ("duplicate context block " ++ b.id)
    ensure (b.hash == hashBlock P b) ("block " ++ b.id ++ " hash mismatch")) 0 [] m.blocks

def mandatoryIDs : List String := ((m.blocks.filter (·.mandatory)).map (·.id)).dedup

def checkRequired : Except String Unit := do
  eachSeen id (fun _ seen id => do
    ensure (!seen.contains id) ("duplicate required context block " ++ id)
    ensure (m.mandatoryIDs.contains id) ("required context block " ++ id ++ " is missing"))
    0 [] m.requiredBlockIDs
  ensure (m.requiredBlockIDs.length == m.mandatoryIDs.length)
    "required context block set is incomplete"

def total : Int := m.blocks.foldl (fun sum b => i64 (sum + b.tokenEstimate)) 0

def validate : Except String Unit := do
  ensure (m.sessionID != "" && m.digest != "" && m.version ≥ 1 && m.semanticSnapshotVersion ≥ 1 &&
    m.tokenBudget ≥ 1 && m.tokenEstimate ≥ 0 && m.tokenEstimate ≤ m.tokenBudget)
    "invalid context manifest"
  ensure (m.compilerVersion != "" && m.tokenizerID != "") "context compiler metadata is required"
  ensure (m.tokenizerID != "model-aware-v1:") "model-aware tokenizer id is incomplete"
  (m.promptManifest.validate P).mapError ("prompt manifest: " ++ ·)
  m.validatePromptManifestBindings P
  ensure m.omittedRequiredIDs.isEmpty "context manifest omits required blocks"
  m.checkBlocks P
  ensure (m.total == m.tokenEstimate)
    ("context token estimate mismatch: got " ++ toString m.tokenEstimate ++ " want " ++
      toString m.total)
  m.checkRequired
  ensure (manifestDigest P m == m.digest) "context manifest digest mismatch"
  ensure (m.promptManifestHash != "" && m.promptManifestHash == Context.promptManifestHash P m)
    "context prompt manifest hash mismatch"

def Exact : Prop :=
  ∃ p, buildPromptManifest P m.blocks = .ok p ∧ m.promptManifest.segments = p.segments

/-- What `validate` does not look at. -/
structure Faithful : Prop where
  lineage : ∀ b ∈ m.blocks, b.policy ≠ "" ∧ b.selectionReason ≠ ""
  fields : ∀ s ∈ m.promptManifest.segments, ∀ b ∈ m.blocks, b.id = s.id →
    s.version = 1 ∧ s.trust = b.trust ∧
    s.sensitivity = trimSpace (b.metadata["sensitivity"]?.getD "")
  ordered : m.promptManifest.segments.Pairwise fun s t => s.kind = t.kind → s.id ≤ t.id

end Manifest

section

variable {P : Platform} {m : Manifest} {last : Option Nat} {segments : List PromptSegment}
  {s t : PromptSegment}

theorem PromptSegment.le_iff :
    s.le t = true ↔ s.rank < t.rank ∨ (s.rank = t.rank ∧ s.id ≤ t.id) := by
  simp [PromptSegment.le]

theorem PromptSegment.le_trans (h : s.le t = true) (h' : t.le u = true) : s.le u = true := by
  rw [PromptSegment.le_iff] at *
  rcases h with h | ⟨h, hid⟩ <;> rcases h' with h' | ⟨h', hid'⟩
  · exact .inl (h.trans h')
  · exact .inl (h' ▸ h)
  · exact .inl (h ▸ h')
  · exact .inr ⟨h.trans h', String.le_trans hid hid'⟩

theorem PromptSegment.le_total (s t : PromptSegment) : (s.le t || t.le s) = true := by
  rw [Bool.or_eq_true, PromptSegment.le_iff, PromptSegment.le_iff]
  rcases Nat.lt_trichotomy s.rank t.rank with h | h | h
  · exact .inl (.inl h)
  · exact (String.le_total s.id t.id).imp (fun hid => .inr ⟨h, hid⟩) fun hid => .inr ⟨h.symm, hid⟩
  · exact .inr (.inl h)

theorem sorted_mergeSort : (segments.mergeSort PromptSegment.le).Pairwise fun s t =>
    s.le t = true := by
  apply List.pairwise_mergeSort
  · exact fun _ _ _ => PromptSegment.le_trans
  · exact PromptSegment.le_total

theorem checkSegments_ok (h : checkSegments last seen segments = .ok ()) :
    (∀ s ∈ segments, s.complete = true ∧ last.all (· ≤ s.rank) = true) ∧
      segments.Pairwise (fun s t => s.rank ≤ t.rank) ∧
      (segments.map (·.id)).Nodup ∧ ∀ s ∈ segments, s.id ∉ seen := by
  induction segments generalizing last seen with
  | nil => simp
  | cons s rest ih =>
    simp only [checkSegments, then_ok, ensure_ok] at h
    obtain ⟨hs, hlast, hseen, hrest⟩ := h
    obtain ⟨hall, hsorted, hnodup, hfresh⟩ := ih hrest
    have hle (t) (ht : t ∈ rest) : s.rank ≤ t.rank := by simpa using (hall t ht).2
    refine ⟨List.forall_mem_cons.mpr ⟨⟨hs, hlast⟩, fun t ht => ⟨(hall t ht).1, ?_⟩⟩,
      List.pairwise_cons.mpr ⟨hle, hsorted⟩, List.nodup_cons.mpr ⟨?_, hnodup⟩,
      List.forall_mem_cons.mpr ⟨by simpa using hseen, fun t ht hm => ?_⟩⟩
    · cases last with
      | none => rfl
      | some n => simpa using le_trans (by simpa using hlast) (hle t ht)
    · intro hm
      obtain ⟨t, ht, hid⟩ := List.mem_map.mp hm
      exact hfresh t ht (hid ▸ List.mem_cons_self)
    · exact hfresh t ht (List.mem_cons_of_mem _ hm)

/-- What an accepted manifest says of its blocks and segments. -/
structure Manifest.Checked (P : Platform) (m : Manifest) : Prop where
  length : m.promptManifest.segments.length = m.blocks.length
  complete : ∀ s ∈ m.promptManifest.segments, s.complete = true
  sorted : m.promptManifest.segments.Pairwise fun s t => s.rank ≤ t.rank
  segmentIDs : (m.promptManifest.segments.map (·.id)).Nodup
  blockIDs : (m.blocks.map (·.id)).Nodup
  bound : ∀ s ∈ m.promptManifest.segments, ∃ b ∈ m.blocks, b.id = s.id ∧ s.bound b = true ∧
    s.kind = b.promptKind P

theorem Manifest.checked (h : m.validate P = .ok ()) : m.Checked P := by
  simp only [Manifest.validate, then_ok, mapError_ok] at h
  obtain ⟨-, -, -, hprompt, hbind, -, hblocks, -⟩ := h
  simp only [PromptManifest.validate, then_ok] at hprompt
  obtain ⟨hall, hsorted, hids, -⟩ := checkSegments_ok hprompt.2.1
  simp only [Manifest.validatePromptManifestBindings, then_ok, ensure_ok, beq_iff_eq,
    eachOk_ok] at hbind
  have hnodup := eachSeen_nodup hblocks fun _ _ _ hb => by
    simp only [then_ok, ensure_ok] at hb
    simpa using hb.2.1
  refine ⟨hbind.1, fun s hs => (hall s hs).1, hsorted, hids, hnodup.1, fun s hs => ?_⟩
  have hone := hbind.2 s hs
  split at hone
  · cases hone
  · rename_i b hfind
    simp only [then_ok, ensure_ok, beq_iff_eq] at hone
    exact ⟨b, List.mem_reverse.mp (List.mem_of_find?_eq_some hfind),
      by simpa using List.find?_some hfind, hone⟩

theorem exact_iff : m.Exact P ↔
    (∀ b ∈ m.blocks, (b.promptKind P).rank.isSome = true ∧ b.complete = true) ∧
      m.promptManifest.segments = (m.blocks.map (Block.segment P)).mergeSort PromptSegment.le := by
  simp only [Manifest.Exact, buildPromptManifest, then_ok, eachOk_ok, ensure_ok, Except.ok.injEq]
  constructor
  · rintro ⟨p, ⟨hall, rfl⟩, hsegs⟩
    exact ⟨hall, hsegs⟩
  · rintro ⟨hall, hsegs⟩
    exact ⟨_, ⟨hall, rfl⟩, hsegs⟩

namespace Manifest.Checked

variable (c : m.Checked P)

include c

variable {b : Block}

theorem block_unique (hb : b ∈ m.blocks) (hb' : b' ∈ m.blocks) (h : b.id = b'.id) :
    b = b' :=
  List.inj_on_of_nodup_map c.blockIDs hb hb' h

theorem rank_some (hs : s ∈ m.promptManifest.segments) : s.kind.rank = some s.rank := by
  have h := c.complete s hs
  simp only [PromptSegment.complete, Bool.and_eq_true] at h
  obtain ⟨n, hn⟩ := Option.isSome_iff_exists.mp h.1.1.1.1.1.1.1
  simp [PromptSegment.rank, hn]

theorem faithful (h : m.Exact P) : m.Faithful := by
  obtain ⟨hcomplete, hsegs⟩ := exact_iff.mp h
  refine ⟨fun b hb => ?_, fun s hs b hb hid => ?_, ?_⟩
  · have := (hcomplete b hb).2
    simp only [Block.complete, Bool.and_eq_true, bne_iff_ne] at this
    exact ⟨this.1.1.1.1.2, this.1.1.2⟩
  · rw [hsegs, List.mem_mergeSort] at hs
    obtain ⟨b', hb', rfl⟩ := List.mem_map.mp hs
    obtain rfl := c.block_unique hb hb' hid
    exact ⟨rfl, rfl, rfl⟩
  · have hsorted : m.promptManifest.segments.Pairwise fun s t => s.le t = true := by
      rw [hsegs]
      exact sorted_mergeSort
    refine hsorted.imp fun {s t} hle hkind => ?_
    rcases PromptSegment.le_iff.mp hle with hlt | ⟨-, hid⟩
    · rw [PromptSegment.rank, hkind] at hlt
      exact absurd hlt (Nat.lt_irrefl _)
    · exact hid

theorem segment_of (f : m.Faithful) (hs : s ∈ m.promptManifest.segments) :
    ∃ b ∈ m.blocks, s = b.segment P := by
  obtain ⟨b, hb, hid, hbound, hkind⟩ := c.bound s hs
  obtain ⟨hversion, htrust, hsens⟩ := f.fields s hs b hb hid
  simp only [PromptSegment.bound] at hbound
  refine ⟨b, hb, ?_⟩
  cases s
  simp_all [Block.segment]

theorem segments_perm (f : m.Faithful) :
    m.promptManifest.segments.Perm (m.blocks.map (Block.segment P)) := by
  refine (List.Nodup.subperm c.segmentIDs.of_map fun s hs => ?_).perm_of_length_le ?_
  · obtain ⟨b, hb, rfl⟩ := c.segment_of f hs
    exact List.mem_map_of_mem hb
  · rw [List.length_map, c.length]

theorem blocks_complete (f : m.Faithful) (hb : b ∈ m.blocks) :
    (b.promptKind P).rank.isSome = true ∧ b.complete = true := by
  have hmem : b.segment P ∈ m.promptManifest.segments :=
    (c.segments_perm f).mem_iff.mpr (List.mem_map_of_mem hb)
  have hs := c.complete _ hmem
  simp only [PromptSegment.complete, Block.segment] at hs
  have hlineage := f.lineage b hb
  simp_all [Block.complete]

theorem exact (f : m.Faithful) : m.Exact P := by
  refine exact_iff.mpr ⟨fun b hb => c.blocks_complete f hb, ?_⟩
  refine List.Perm.eq_of_pairwise ?_ ?_ sorted_mergeSort
    ((c.segments_perm f).trans (List.mergeSort_perm _ _).symm)
  · -- Equal ranks and ids leave one segment.
    intro s t hs ht hst hts
    rw [List.mem_mergeSort, ← (c.segments_perm f).mem_iff] at ht
    refine List.inj_on_of_nodup_map c.segmentIDs hs ht ?_
    rcases PromptSegment.le_iff.mp hst with h | ⟨h, hid⟩ <;>
      rcases PromptSegment.le_iff.mp hts with h' | ⟨h', hid'⟩
    · omega
    · omega
    · omega
    · exact String.le_antisymm hid hid'
  · refine (c.sorted.and f.ordered).imp_of_mem fun {s t} hs ht h => ?_
    rw [PromptSegment.le_iff]
    rcases Nat.lt_or_eq_of_le h.1 with hlt | heq
    · exact .inl hlt
    · exact .inr ⟨heq, h.2 (PromptKind.rank_inj (c.rank_some hs) (heq ▸ c.rank_some ht))⟩

end Manifest.Checked

/-- The prompt layer of an accepted manifest is exactly its blocks where the
fields that are not compared agree. -/
theorem prompt_layer_exact (h : m.validate P = .ok ()) : m.Exact P ↔ m.Faithful :=
  ⟨(Manifest.checked h).faithful, (Manifest.checked h).exact⟩

end

def plain : Platform := ⟨fun _ => "hash", fun _ => "", fun _ => "", fun _ _ => "", id, id⟩

/-- The objective of a user, and the segment it is shown as. -/
def objective : Block :=
  { id := "turn-1"
    kind := "turn"
    source := "user"
    content := "ship it"
    hash := "hash"
    policy := "verbatim"
    trust := "untrusted"
    selectionReason := "latest objective"
    tokenEstimate := 2
    mandatory := true
    metadata := ∅ }

/-- A policy of the system. -/
def policyBlock (id : String) : Block :=
  { objective with
    id := id
    kind := "policy"
    source := "system"
    trust := "trusted"
    selectionReason := "system policy" }

/-- Mandatory blocks of two tokens each, under segments given from outside. -/
def objectiveManifest (blocks : List Block) (segments : List PromptSegment) : Manifest :=
  { sessionID := "session"
    version := 1
    semanticSnapshotVersion := 1
    tokenBudget := 10
    tokenEstimate := 2 * blocks.length
    blocks := blocks
    requiredBlockIDs := blocks.map (·.id)
    omittedRequiredIDs := []
    compilerVersion := "adro-context-v2"
    tokenizerID := "rune4-v1"
    promptManifest := ⟨promptManifestVersion, segments, "hash"⟩
    digest := "hash"
    promptManifestHash := "hash"
    parentDigest := "" }

/-- The policies come before the objective, and among themselves by their ids. -/
def orderedManifest : Manifest :=
  objectiveManifest [objective, policyBlock "policy-2", policyBlock "policy-1"]
    ([policyBlock "policy-1", policyBlock "policy-2", objective].map (Block.segment plain))

theorem objective_exact :
    orderedManifest.validate plain = .ok () ∧ orderedManifest.Exact plain := by
  have hvalid : orderedManifest.validate plain = .ok () := by decide +kernel
  refine ⟨hvalid, (prompt_layer_exact hvalid).mpr ⟨?_, ?_, by decide +kernel⟩⟩
  · simp [orderedManifest, objectiveManifest, policyBlock, objective]
  · simp [orderedManifest, objectiveManifest, policyBlock, objective, Block.segment]

/-- A manifest that shows an untrusted objective as trusted is accepted. -/
theorem trust_forged :
    let m := objectiveManifest [objective] [{ objective.segment plain with trust := "trusted" }]
    m.validate plain = .ok () ∧ ¬ m.Exact plain := by
  refine ⟨by decide +kernel, fun h => ?_⟩
  have hsegs := (exact_iff.mp h).2
  simp [objectiveManifest, objective, Block.segment] at hsegs

end Adro.Context
