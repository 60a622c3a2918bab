import Adro.Control.Laws
import Adro.Lib.Filed

/-!
# Lookups of saved definitions

Agents and squads of all workspaces are filed under one text made of workspace,
id and revision. A run is recorded together with the definitions whose save
succeeded, the last one first; a lookup is compared with that record. Two names
may have the same key, so the comparison is for runs in which no key is used for
two names.
-/

namespace Adro.Control

open Adro.Go Adro.Orchestration Adro.Runs Adro.Lib

structure Name where
  workspaceID : String
  id : String
  revision : Int
  deriving DecidableEq

def Name.key (n : Name) : String := Repository.key3 n.workspaceID n.id n.revision

def AgentDefinition.named (a : AgentDefinition) : Name := ⟨a.workspaceID, a.id, a.revision⟩

def SquadDefinition.named (s : SquadDefinition) : Name := ⟨s.workspaceID, s.id, s.revision⟩

section
variable {α : Type} (named : α → Name)

def ofName (ws id : String) (a : α) : Bool := (named a).workspaceID == ws && (named a).id == id

/-- The definition that was saved last under a name; without a revision, the one of
greatest revision. -/
def lastSaved (saved : List α) (ws id : String) (rev : Int) : Option α :=
  if rev > 0 then saved.find? fun a => named a = ⟨ws, id, rev⟩
  else greatest (fun a => (named a).revision) (ofName named ws id) saved

def lookup (m : GoMap α) (ws id : String) (rev : Int) : Option α :=
  if rev > 0 then m[Repository.key3 ws id rev]?
  else (Repository.latestIn (fun a => (named a).revision) (ofName named ws id) m).filter
    fun a => (named a).id != ""

/-- The key of the name is not in use for another one. -/
def unmixed (m : GoMap α) (n : Name) : Bool := (m[n.key]?).all fun a => named a == n

variable {named} {m : GoMap α} {saved : List α}

/-- What the saved definitions of a kind have in common with the map they are in. -/
structure Kept (named : α → Name) (m : GoMap α) (saved : List α) : Prop where
  filed : Filed (fun a => (named a).key) named m saved
  positive : ∀ a ∈ saved, 0 < (named a).revision
  present : ∀ a ∈ saved, (named a).id ≠ ""

theorem Kept.empty : Kept named (∅ : GoMap α) [] :=
  ⟨.empty, fun _ h => absurd h List.not_mem_nil, fun _ h => absurd h List.not_mem_nil⟩

/-- What a call does to the definitions of a kind: nothing, or it enters a new one,
in a workspace that is not spared. -/
inductive Enters (named : α → Name) (spared : String → Prop) (m : GoMap α) (saved : List α) :
    GoMap α → List α → Prop
  | none : Enters named spared m saved m saved
  | one (a : α) (positive : 0 < (named a).revision) (present : (named a).id ≠ "")
    (new : ∀ (k : String) b, m[k]? = some b → named b ≠ named a)
    (unmixed : unmixed named m (named a) = true) (spares : ¬ spared (named a).workspaceID) :
    Enters named spared m saved (m.insert (named a).key a) (a :: saved)

theorem Kept.enters (h : Kept named m saved) (he : Enters named spared m saved m' saved') :
    Kept named m' saved' := by
  cases he with
  | none => exact h
  | one a hpos hid hnew hkey =>
    constructor
    · apply h.filed.enter
      · intro b hb
        exact hnew _ b ((h.filed.entry _ b).mpr ⟨hb, rfl⟩)
      · cases hm : m[(named a).key]? with
        | none => rfl
        | some b =>
          have hb : named b = named a := by simpa [unmixed, hm] using hkey
          exact absurd hb (hnew _ b hm)
    · exact List.forall_mem_cons.mpr ⟨hpos, h.positive⟩
    · exact List.forall_mem_cons.mpr ⟨hid, h.present⟩

theorem latestIn_greatest (measure : α → Int) (p : α → Bool) (m : GoMap α) :
    Repository.latestIn measure p m = greatest measure p (m.toList.map (·.2)) := by
  simp only [Repository.latestIn, greatest, List.foldl_map]

theorem latestIn_some {measure : α → Int}
    (h : Repository.latestIn measure p m = some a) :
    (∃ k : String, m[k]? = some a) ∧ p a = true := by
  rw [latestIn_greatest] at h
  have hspec := greatest_spec measure p (m.toList.map (·.2))
  rw [h] at hspec
  exact ⟨GoMap.mem_values.mp hspec.1, hspec.2.1⟩

theorem named_eq {ws id : String} (ha : ofName named ws id a = true)
    (hb : ofName named ws id b = true) (hrev : (named a).revision = (named b).revision) :
    named a = named b := by
  simp only [ofName, Bool.and_eq_true, beq_iff_eq] at ha hb
  calc named a = ⟨ws, id, (named a).revision⟩ := by rw [← ha.1, ← ha.2]
    _ = ⟨ws, id, (named b).revision⟩ := by rw [hrev]
    _ = named b := by rw [← hb.1, ← hb.2]

theorem Kept.mem (h : Kept named m saved) : a ∈ m.toList.map (·.2) ↔ a ∈ saved := by
  rw [GoMap.mem_values]
  constructor
  · rintro ⟨k, hk⟩
    exact ((h.filed.entry k a).mp hk).1
  · exact fun ha => ⟨_, (h.filed.entry _ a).mpr ⟨ha, rfl⟩⟩

/-- The scan for the latest revision finds the saved one of greatest revision. -/
theorem Kept.latest (h : Kept named m saved) (ws id : String) :
    Repository.latestIn (fun a => (named a).revision) (ofName named ws id) m =
      greatest (fun a => (named a).revision) (ofName named ws id) saved := by
  rw [latestIn_greatest]
  refine (greatest_spec _ _ _).unique (greatest_spec _ _ _) (fun a _ => h.mem) ?_
  intro a ha b hb hpa hpb hrev
  exact h.filed.eq_of_name (h.mem.mp ha) (h.mem.mp hb) (named_eq hpa hpb hrev)

theorem Kept.lookup (h : Kept named m saved) (ws id : String) (rev : Int)
    (hkey : 0 < rev → unmixed named m ⟨ws, id, rev⟩ = true) :
    lookup named m ws id rev = lastSaved named saved ws id rev := by
  unfold Control.lookup lastSaved
  split
  · rename_i hrev
    have hkey := hkey hrev
    refine h.filed.find (fun a ha => by rw [ha]; rfl) fun a ha => ?_
    have ha : m[(Name.mk ws id rev).key]? = some a := ha
    simpa [unmixed, ha] using hkey
  · rw [h.latest]
    have hspec := greatest_spec (fun a => (named a).revision) (ofName named ws id) saved
    cases hg : greatest (fun a => (named a).revision) (ofName named ws id) saved with
    | none => rfl
    | some a =>
      rw [hg] at hspec
      simp [h.present a hspec.1]

variable {id : String}

/-- What is saved in one workspace does not count for a lookup in another. -/
theorem lastSaved_cons (hws : (named a).workspaceID ≠ ws) :
    lastSaved named (a :: saved) ws id rev = lastSaved named saved ws id rev := by
  unfold lastSaved
  split
  · have : ¬ named a = ⟨ws, id, rev⟩ := fun h => hws (by rw [h])
    rw [List.find?_cons_of_neg (by simpa using this)]
  · have : ofName named ws id a = false := by simp [ofName, hws]
    simp only [greatest, List.foldl_cons, this, Bool.false_and, Bool.false_eq_true, if_false]

theorem Kept.lookup_enters (h : Kept named m saved) (he : Enters named spared m saved m' saved')
    (hws : spared ws) (hkey : 0 < rev → unmixed named m' ⟨ws, id, rev⟩ = true) :
    Control.lookup named m' ws id rev = Control.lookup named m ws id rev := by
  have h' := h.enters he
  cases he with
  | none => rfl
  | one a _ _ _ _ hspares =>
    have hne : (named a).workspaceID ≠ ws := fun he => hspares (he ▸ hws)
    have hbefore (hrev : 0 < rev) : unmixed named m ⟨ws, id, rev⟩ = true := by
      have hafter := hkey hrev
      unfold unmixed at hafter
      rw [GoMap.get_set] at hafter
      split at hafter
      · have hn : named a = ⟨ws, id, rev⟩ := by simpa using hafter
        exact absurd (congrArg Name.workspaceID hn) hne
      · exact hafter
    rw [h'.lookup ws id rev hkey, h.lookup ws id rev hbefore, lastSaved_cons hne]

def answer (copy : α → α) : Option α → Except Err α
  | some a => .ok (copy a)
  | none => .error Sentinel.notFound.err

/-- The answer is the definition itself. -/
def found : Option α → Except Err α := answer fun a => a

theorem lastSaved_mem (h : lastSaved named saved ws id rev = some a) : a ∈ saved := by
  unfold lastSaved at h
  split at h
  · exact List.mem_of_find?_eq_some h
  · have hspec := greatest_spec (fun a => (named a).revision) (ofName named ws id) saved
    rw [h] at hspec
    exact hspec.1

theorem answer_found (h : ∀ a ∈ saved, copy a = a) (ws id : String) (rev : Int) :
    answer copy (lastSaved named saved ws id rev) = found (lastSaved named saved ws id rev) := by
  cases hlast : lastSaved named saved ws id rev with
  | none => rfl
  | some a => exact congrArg Except.ok (h a (lastSaved_mem hlast))

end

variable {H : ControlHost} {r : Repository}

theorem getAgent_answer (ws id : String) :
    r.getAgent H ws id rev =
      answer (·.clone H.short) (lookup AgentDefinition.named r.agents ws id rev) := by
  unfold Repository.getAgent
  rw [show r.agentLocked ws id rev = lookup AgentDefinition.named r.agents ws id rev from rfl]
  cases lookup AgentDefinition.named r.agents ws id rev <;> rfl

theorem getSquad_answer (ws id : String) :
    r.getSquad H ws id rev =
      answer (·.clone H.short) (lookup SquadDefinition.named r.squads ws id rev) := by
  unfold Repository.getSquad
  rw [show r.squadLocked ws id rev = lookup SquadDefinition.named r.squads ws id rev from rfl]
  cases lookup SquadDefinition.named r.squads ws id rev <;> rfl

/-- A run, with the definitions it has saved, the last one first. -/
structure Recorded where
  repo : Repository
  agents : List AgentDefinition := []
  squads : List SquadDefinition := []

def record (H : ControlHost) (w : Recorded) (q : Request) : Recorded :=
  let saved := (perform H w.repo q).1.isOk
  { repo := step H w.repo q
    agents := match q.call with
      | .saveAgent a _ => if saved then a :: w.agents else w.agents
      | _ => w.agents
    squads := match q.call with
      | .saveSquad s _ => if saved then s :: w.squads else w.squads
      | _ => w.squads }

/-- A definition is saved under a key that no other name has; squads have a revision. -/
def Repository.separate (r : Repository) : Call → Bool
  | .saveAgent a _ => unmixed AgentDefinition.named r.agents a.named
  | .saveSquad s _ => unmixed SquadDefinition.named r.squads s.named && decide (0 < s.revision)
  | c => !c.imports

/-- A definition that is saved is its own copy: the values in it are those that its JSON text
is read back as. -/
def Call.Exact (H : ControlHost) : Call → Prop
  | .saveAgent a _ => a.clone H.short = a
  | .saveSquad s _ => s.clone H.short = s
  | _ => True

abbrev Separate (H : ControlHost) (w : Recorded) (run : List Request) : Prop :=
  Meets (record H) (fun w q => w.repo.separate q.call = true ∧ q.call.Exact H) w run

structure Recorded.Sound (H : ControlHost) (w : Recorded) : Prop where
  agents : Kept AgentDefinition.named w.repo.agents w.agents
  squads : Kept SquadDefinition.named w.repo.squads w.squads
  exactAgents : ∀ a ∈ w.agents, a.clone H.short = a
  exactSquads : ∀ s ∈ w.squads, s.clone H.short = s

theorem revisionCheck_new (named : α → Name)
    (h : Repository.revisionCheck kind (fun x => (named x).revision)
      (fun x => (named x).id == n.id && (named x).workspaceID == n.workspaceID)
        n.revision expected m =
        .ok ()) :
    ∀ (k : String) b, m[k]? = some b → named b ≠ n := by
  intro k b hb hn
  have hnone := ensure_ok.mp (then_ok.mp h).1
  simp only [Bool.not_eq_true', ← Bool.not_eq_true] at hnone
  apply hnone
  rw [GoMap.any_iff]
  exact ⟨k, b, hb, by simp [hn]⟩

theorem saveAgentCheck_ok (h : r.saveAgentCheck H a expected = .ok ()) :
    0 < a.revision ∧ a.id ≠ "" ∧
      ∀ (k : String) b, r.agents[k]? = some b → b.named ≠ a.named := by
  obtain ⟨hvalid, hnew⟩ := then_ok.mp h
  obtain ⟨hid, hvalid⟩ := then_ok.mp hvalid
  have hrev := ensure_ok.mp (then_ok.mp hvalid).1
  have hid := ensure_ok.mp hid
  simp only [Bool.not_eq_true', Bool.or_eq_false_iff] at hid
  exact ⟨of_decide_eq_true hrev, ne_empty_of_not_blank hid.1.1,
    revisionCheck_new AgentDefinition.named hnew⟩

theorem saveSquadCheck_ok (h : r.saveSquadCheck s expected = .ok ()) :
    s.id ≠ "" ∧ ∀ (k : String) b, r.squads[k]? = some b → b.named ≠ s.named := by
  obtain ⟨hid, -, hnew⟩ := saveSquadCheck_parts h
  have hid := ensure_ok.mp hid
  simp only [Bool.not_eq_true', Bool.or_eq_false_iff] at hid
  exact ⟨ne_empty_of_not_blank hid.1.1, revisionCheck_new SquadDefinition.named hnew⟩

variable {w : Recorded} {q : Request}

def Call.spares (ws : String) : Call → Bool
  | .saveAgent a _ => a.workspaceID != ws
  | .saveSquad s _ => s.workspaceID != ws
  | _ => true

theorem Repository.separate_imports (h : r.separate c = true) : c.imports = false := by
  cases c with
  | saveAgent | saveSquad => rfl
  | _ => simpa [Repository.separate] using h

theorem record_enters (hok : w.repo.separate q.call = true) :
    Enters AgentDefinition.named (q.call.spares · = true) w.repo.agents w.agents
        (record H w q).repo.agents (record H w q).agents ∧
      Enters SquadDefinition.named (q.call.spares · = true) w.repo.squads w.squads
        (record H w q).repo.squads (record H w q).squads := by
  have hdef := perform_defined (H := H) (r := w.repo) q (Repository.separate_imports hok)
  obtain ⟨c, fault⟩ := q
  simp only [record, step]
  generalize perform H w.repo ⟨c, fault⟩ = out at hdef
  obtain ⟨ans, r'⟩ := out
  generalize r'.agents = agents at hdef
  generalize r'.squads = squads at hdef
  cases hdef with
  | agent checked =>
    obtain ⟨hpos, hid, hnew⟩ := saveAgentCheck_ok checked
    exact ⟨.one _ hpos hid hnew hok (by simp [Call.spares, AgentDefinition.named]), .none⟩
  | squad checked =>
    obtain ⟨hid, hnew⟩ := saveSquadCheck_ok checked
    simp only [Repository.separate, Bool.and_eq_true, decide_eq_true_eq] at hok
    exact ⟨.none, .one _ hok.2 hid hnew hok.1 (by simp [Call.spares, SquadDefinition.named])⟩
  | quiet fails =>
    -- Nothing is stored, so a save that is recorded would not have succeeded.
    constructor
    all_goals
      split
      · rw [if_neg fun hok => absurd (fails hok) (by simp [Call.saves])]
        exact .none
      · exact .none

theorem record_exact (hq : q.call.Exact H) :
    (∀ a ∈ (record H w q).agents, a ∈ w.agents ∨ a.clone H.short = a) ∧
      ∀ s ∈ (record H w q).squads, s ∈ w.squads ∨ s.clone H.short = s := by
  obtain ⟨c, fault⟩ := q
  simp only [record]
  constructor
  all_goals
    intro x hx
    split at hx
    · split at hx
      · rcases List.mem_cons.mp hx with rfl | hx
        · exact .inr hq
        · exact .inl hx
      · exact .inl hx
    · exact .inl hx

theorem definitions_isolated (hagents : r.agents = ∅) (hsquads : r.squads = ∅)
    (run : List Request) (hrun : Separate H ⟨r, [], []⟩ run) :
    let w := exec (record H) ⟨r, [], []⟩ run
    (∀ ws id rev,
      ((0 < rev → unmixed AgentDefinition.named w.repo.agents ⟨ws, id, rev⟩ = true) →
        w.repo.getAgent H ws id rev = found (lastSaved AgentDefinition.named w.agents ws id rev)) ∧
      ((0 < rev → unmixed SquadDefinition.named w.repo.squads ⟨ws, id, rev⟩ = true) →
        w.repo.getSquad H ws id rev = found (lastSaved SquadDefinition.named w.squads ws id rev))) ∧
    ∀ q ws, w.repo.separate q.call = true → q.call.spares ws = true → ∀ id rev,
      ((0 < rev → unmixed AgentDefinition.named (step H w.repo q).agents ⟨ws, id, rev⟩ = true) →
        (step H w.repo q).getAgent H ws id rev = w.repo.getAgent H ws id rev) ∧
      ((0 < rev → unmixed SquadDefinition.named (step H w.repo q).squads ⟨ws, id, rev⟩ = true) →
        (step H w.repo q).getSquad H ws id rev = w.repo.getSquad H ws id rev) := by
  have hsound : (exec (record H) ⟨r, [], []⟩ run).Sound H := by
    refine invariant ?_ (fun w q hw hok => ?_) hrun
    case refine_2 =>
      obtain ⟨hagents, hsquads⟩ := record_exact (w := w) hok.2
      exact ⟨hw.agents.enters (record_enters hok.1).1, hw.squads.enters (record_enters hok.1).2,
        fun a ha => (hagents a ha).elim (hw.exactAgents a) fun h => h,
        fun s hs => (hsquads s hs).elim (hw.exactSquads s) fun h => h⟩
    exact ⟨by rw [hagents]; exact .empty, by rw [hsquads]; exact .empty,
      fun _ h => absurd h List.not_mem_nil, fun _ h => absurd h List.not_mem_nil⟩
  refine ⟨fun ws id rev => ⟨fun hkey => ?_, fun hkey => ?_⟩, ?_⟩
  · rw [getAgent_answer, hsound.agents.lookup ws id rev hkey, answer_found hsound.exactAgents]
  · rw [getSquad_answer, hsound.squads.lookup ws id rev hkey, answer_found hsound.exactSquads]
  · intro q ws hok hws id rev
    obtain ⟨hagents, hsquads⟩ := record_enters (H := H) hok
    simp only [getAgent_answer, getSquad_answer]
    exact ⟨fun hkey => congrArg (answer _) (hsound.agents.lookup_enters hagents hws hkey),
      fun hkey => congrArg (answer _) (hsound.squads.lookup_enters hsquads hws hkey)⟩

def draftSave (ws id name : String) (revision : Int := 1) : Request where
  call := .saveAgent { workspaceID := ws, id, name, revision, status := .draft } 0

/-- The latest revision in a workspace, while another one has the same id. -/
theorem latest_agent_isolated :
    let run := [draftSave "x" "id" "n", draftSave "x" "id" "m" 2, draftSave "y" "id" "o" 3]
    (exec (record plainHost) ⟨{}, [], []⟩ run).repo.getAgent plainHost "x" "id" 0 =
      .ok { workspaceID := "x", id := "id", name := "m", revision := 2, status := .draft } := by
  have hrun : Separate plainHost ⟨{}, [], []⟩
      [draftSave "x" "id" "n", draftSave "x" "id" "m" 2, draftSave "y" "id" "o" 3] :=
    ⟨⟨by decide +kernel, rfl⟩, ⟨by decide +kernel, rfl⟩, ⟨by decide +kernel, rfl⟩, trivial⟩
  exact ((definitions_isolated rfl rfl _ hrun).1 "x" "id" 0).1 (by simp)

/-- An agent saved in one workspace is found in another, and replaced from there. -/
theorem agent_crosses_workspaces :
    let saved := exec (step plainHost) {} [draftSave "a" "b:c" "n"]
    let replaced := exec (step plainHost) {} [draftSave "a" "b:c" "n", draftSave "a:b" "c" "m"]
    (saved.getAgent plainHost "a:b" "c" 1).toOption.map (·.workspaceID) = some "a" ∧
      (replaced.getAgent plainHost "a" "b:c" 1).toOption.map (·.name) = some "m" := by
  decide +kernel

end Adro.Control
