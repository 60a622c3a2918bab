import Adro.Control.Isolation
import Adro.Lib.Acyclic

/-!
# Nested squads

A squad refers to the squads it nests by id, from its members, or by id and
revision, from the nodes of its graph. The dispatcher resolves a reference in the
repository it meets: a revision if one is given, else the latest. A published
squad is checked against the squads stored when it is saved, so the check does not
see what the references to its own id become once it is stored, and it compares
the depth of a nested squad with that squad's own limit.
-/

namespace Adro.Control

open Adro.Go Adro.Orchestration Adro.Runs Adro.Lib Relation

/-- The squads that a squad nests, by id and revision. -/
def SquadDefinition.nested (s : SquadDefinition) : List (String × Int) :=
  ((s.members.map (·.squadID)).filter (· != "")).map (·, 0) ++
    (s.graph.nodes.filterMap (·.squadRef)).map fun ref => (ref.id, ref.revision)

def SquadDefinition.limit (s : SquadDefinition) : Int := s.policy.maxNestingDepth

def SquadDefinition.follows (t s : SquadDefinition) : Bool :=
  t.workspaceID == s.workspaceID && t.nested.any fun ref => ref.1 == s.id && decide (ref.2 ≤ 0)

namespace Repository

variable (r : Repository)

/-- The squad that a reference stands for, as the dispatcher resolves it. -/
def resolve (s : SquadDefinition) (ref : String × Int) : Option SquadDefinition :=
  (r.squadLocked s.workspaceID ref.1 ref.2).filter (·.status == .published)

def Nests (s t : SquadDefinition) : Prop := ∃ ref ∈ s.nested, r.resolve s ref = some t

def Published (s : SquadDefinition) : Prop :=
  s.status = .published ∧ ∃ k : String, r.squads[k]? = some s

/-- The squad would be the latest revision of its id. -/
def leads (s : SquadDefinition) : Bool :=
  decide (((latestIn (fun t => t.named.revision) (ofName SquadDefinition.named s.workspaceID s.id)
    r.squads).map fun t => t.named.revision).getD 0 < s.revision)

/-- What the check of a published squad leaves out. Once it is the latest revision,
nothing it leads to refers to its id alone; and a limit allows only squads that
nest nothing, or have a lower limit, on both sides of the new references. -/
structure Admits (s : SquadDefinition) : Prop where
  avoids : r.leads s = true → ∀ t, ReflTransGen r.Nests s t → t.follows s = false
  below : 0 < s.limit → ∀ t, r.Nests s t → t.nested = [] ∨ (0 < t.limit ∧ t.limit < s.limit)
  above : r.leads s = true → ∀ t, r.Published t → 0 < t.limit → t.follows s = true →
    s.nested = [] ∨ (0 < s.limit ∧ s.limit < t.limit)

/-- Squads are saved under keys of their own, and published ones are admitted. -/
def Careful : Call → Prop
  | .saveSquad s _ =>
    unmixed SquadDefinition.named r.squads s.named = true ∧ (s.status = .published → r.Admits s)
  | c => c.imports = false

end Repository

variable {H : ControlHost} {r r' : Repository} {s t : SquadDefinition}

theorem Repository.Nests.published (h : r.Nests s t) : r.Published t := by
  obtain ⟨ref, -, hres⟩ := h
  obtain ⟨hfound, hstatus⟩ := Option.filter_eq_some_iff.mp hres
  refine ⟨by simpa using hstatus, ?_⟩
  unfold Repository.squadLocked at hfound
  split at hfound
  · exact ⟨_, hfound⟩
  · exact (latestIn_some (Option.filter_eq_some_iff.mp hfound).1).1

def Distinct (squads : GoMap SquadDefinition) : Prop :=
  ∀ (k k' : String) s s', squads[k]? = some s → squads[k']? = some s' → s.named = s'.named → s = s'

theorem latestIn_insert (hfree : m[k]? = none) (hdistinct : Distinct (m.insert k s))
    (ws id : String) :
    Repository.latestIn (fun t => t.named.revision) (ofName SquadDefinition.named ws id)
        (m.insert k s) =
      let old := Repository.latestIn
        (fun t => t.named.revision) (ofName SquadDefinition.named ws id) m
      if ofName SquadDefinition.named ws id s &&
        s.named.revision > (old.map (·.named.revision)).getD 0
      then some s else old := by
  simp only [latestIn_greatest]
  refine (greatest_spec _ _ _).unique ((greatest_spec _ _ _).concat s) (fun a _ => ?_) ?_
  · rw [List.mem_append, GoMap.mem_values, GoMap.mem_values, List.mem_singleton]
    constructor
    · rintro ⟨k', hk'⟩
      rw [GoMap.get_set] at hk'
      split at hk'
      · exact .inr (Option.some.inj hk').symm
      · exact .inl ⟨k', hk'⟩
    · rintro (⟨k', hk'⟩ | rfl)
      · refine ⟨k', ?_⟩
        rw [GoMap.get_set_ne, hk']
        rintro rfl
        rw [hfree] at hk'
        cases hk'
      · exact ⟨k, by rw [GoMap.get_set, if_pos rfl]⟩
  · intro a ha b hb hpa hpb hrev
    obtain ⟨k, hk⟩ := GoMap.mem_values.mp ha
    obtain ⟨k', hk'⟩ := GoMap.mem_values.mp hb
    exact hdistinct k k' _ _ hk hk' (named_eq hpa hpb hrev)

def Repository.Pinned (r : Repository) (s : SquadDefinition) : Prop :=
  ∀ ref ∈ s.nested, 0 < ref.2 → (r.squads[Repository.key3 s.workspaceID ref.1 ref.2]?).isSome = true

/-- What a squad nests after another has been stored: what it did before, or the
new one, by its id alone. -/
theorem nests_insert (hfree : r.squads[k]? = none) (hdistinct : Distinct (r.squads.insert k s))
    (hsquads : r'.squads = r.squads.insert k s) (hpinned : r.Pinned a) (h : r'.Nests a b) :
    r.Nests a b ∨ (b = s ∧ s.status = .published ∧ r.leads s = true ∧ a.follows s = true) := by
  obtain ⟨ref, href, hres⟩ := h
  have hold (hsame : r'.squadLocked a.workspaceID ref.1 ref.2 =
      r.squadLocked a.workspaceID ref.1 ref.2) : r.Nests a b := by
    refine ⟨ref, href, ?_⟩
    rw [← hres]
    unfold Repository.resolve
    rw [hsame]
  by_cases hrev : 0 < ref.2
  · refine .inl (hold ?_)
    have hsome := hpinned ref href hrev
    unfold Repository.squadLocked
    rw [if_pos hrev, if_pos hrev, hsquads, GoMap.get_set_ne]
    rintro rfl
    rw [hfree] at hsome
    cases hsome
  · have hlatest := latestIn_insert hfree hdistinct a.workspaceID ref.1
    simp only at hlatest
    split at hlatest
    · rename_i hnew
      simp only [Bool.and_eq_true, decide_eq_true_eq] at hnew
      obtain ⟨hname, hgreater⟩ := hnew
      simp only [ofName, Bool.and_eq_true, beq_iff_eq] at hname
      unfold Repository.resolve Repository.squadLocked Repository.latestSquadLocked at hres
      rw [if_neg hrev, hsquads] at hres
      obtain ⟨hres, hstatus⟩ := Option.filter_eq_some_iff.mp hres
      have hb : some s = some b := hlatest.symm.trans (Option.filter_eq_some_iff.mp hres).1
      cases hb
      refine .inr ⟨rfl, by simpa using hstatus, ?_, ?_⟩
      · rw [← hname.1, ← hname.2] at hgreater
        exact decide_eq_true hgreater
      · simp only [SquadDefinition.follows, Bool.and_eq_true, beq_iff_eq, List.any_eq_true,
          decide_eq_true_eq]
        exact ⟨hname.1.symm, ref, href, hname.2.symm, not_lt.mp hrev⟩
    · refine .inl (hold ?_)
      unfold Repository.squadLocked Repository.latestSquadLocked
      rw [if_neg hrev, if_neg hrev, hsquads]
      exact congrArg _ hlatest

structure WellNested (r : Repository) : Prop where
  distinct : Distinct r.squads
  pinned : ∀ s, r.Published s → r.Pinned s
  acyclic : Acyclic r.Nests
  limits : ∀ s t, r.Published s → 0 < s.limit → r.Nests s t →
    t.nested = [] ∨ (0 < t.limit ∧ t.limit < s.limit)

theorem Nests_congr (h : r'.squads = r.squads) : r'.Nests = r.Nests := by
  unfold Repository.Nests Repository.resolve Repository.squadLocked Repository.latestSquadLocked
  rw [h]

theorem WellNested.of_squads (h : WellNested r) (hsquads : r'.squads = r.squads) :
    WellNested r' := by
  obtain ⟨hdistinct, hpinned, hacyclic, hlimits⟩ := h
  refine ⟨by rwa [hsquads], ?_, by rwa [Nests_congr hsquads], ?_⟩
  · simpa only [Repository.Published, Repository.Pinned, hsquads] using hpinned
  · simpa only [Repository.Published, Nests_congr hsquads, hsquads] using hlimits

theorem wellNested_empty (h : r.squads = ∅) : WellNested r := by
  have hnone (s : SquadDefinition) : ¬ r.Published s := by
    rintro ⟨-, k, hk⟩
    simp [h] at hk
  refine ⟨?_, fun s hs => absurd hs (hnone s), ?_, fun s t hs => absurd hs (hnone s)⟩
  · intro k k' s s' hs
    simp [h] at hs
  · intro s hcycle
    obtain ⟨t, -, hts⟩ := TransGen.tail'_iff.mp hcycle
    exact hnone s hts.published

/-- The revisions that a published squad's nodes ask for have been looked up. -/
theorem published_pinned (h : r.validatePublishedSquadLocked s = .ok ()) : r.Pinned s := by
  have hnodes := (then_ok.mp (then_ok.mp (then_ok.mp h).2).2).2
  intro ref href hpos
  rcases List.mem_append.mp href with hmember | hnode
  · obtain ⟨id, -, rfl⟩ := List.mem_map.mp hmember
    exact absurd hpos (lt_irrefl _)
  · obtain ⟨v, hv, rfl⟩ := List.mem_map.mp hnode
    obtain ⟨n, hn, hnv⟩ := List.mem_filterMap.mp hv
    obtain ⟨i, seen, hok⟩ := eachSeen_ok hnodes n hn
    have hsquad := ensure_ok.mp (then_ok.mp hok).2
    rw [hnv, Option.all_some, Repository.squadLocked, if_pos hpos] at hsquad
    exact Option.isSome_of_any hsquad

theorem distinct_insert (h : Distinct m)
    (hnew : ∀ (k : String) t, m[k]? = some t → t.named ≠ s.named) : Distinct (m.insert k s) := by
  intro j j' t t' ht ht' hname
  rw [GoMap.get_set] at ht ht'
  split at ht <;> split at ht'
  · exact (Option.some.inj ht).symm.trans (Option.some.inj ht')
  · rw [← Option.some.inj ht] at hname
    exact absurd hname.symm (hnew j' t' ht')
  · rw [← Option.some.inj ht'] at hname
    exact absurd hname (hnew j t ht)
  · exact h j j' t t' ht ht' hname

theorem WellNested.insert (h : WellNested r) (hfree : r.squads[k]? = none)
    (hnew : ∀ (k : String) t, r.squads[k]? = some t → t.named ≠ s.named)
    (hadmits : s.status = .published → r.Pinned s ∧ r.Admits s)
    (hsquads : r'.squads = r.squads.insert k s) : WellNested r' := by
  have hdistinct : Distinct (r.squads.insert k s) := distinct_insert h.distinct hnew
  have hstored (t : SquadDefinition) (ht : r'.Published t) :
      (t = s ∧ s.status = .published) ∨ r.Published t := by
    obtain ⟨hstatus, j, hj⟩ := ht
    rw [hsquads, GoMap.get_set] at hj
    split at hj
    · cases hj
      exact .inl ⟨rfl, hstatus⟩
    · exact .inr ⟨hstatus, j, hj⟩
  have hpinned (t : SquadDefinition) (ht : r'.Published t) : r.Pinned t := by
    rcases hstored t ht with ⟨rfl, hstatus⟩ | hold
    · exact (hadmits hstatus).1
    · exact h.pinned t hold
  have hedge (a b : SquadDefinition) (ha : r'.Published a) (hab : r'.Nests a b) :=
    nests_insert hfree hdistinct hsquads (hpinned a ha) hab
  refine ⟨hsquads ▸ hdistinct, ?_, ?_, ?_⟩
  · intro t ht ref href hpos
    obtain ⟨x, hx⟩ := Option.isSome_iff_exists.mp (hpinned t ht ref href hpos)
    rw [hsquads, GoMap.get_set_ne, hx]
    · rfl
    · rintro rfl
      rw [hfree] at hx
      cases hx
  · -- The new references all lead to the new squad, which does not lead back.
    have hgrafts : Grafts r.Nests r'.Nests r'.Published (fun a => s.status = .published ∧
        r.leads s = true ∧ a.follows s = true) s := by
      refine ⟨hedge, fun a b hab => hab.published, ?_⟩
      rintro a ha ⟨hstatus, hleads, hfollows⟩
      rw [(hadmits hstatus).2.avoids hleads a ha] at hfollows
      cases hfollows
    exact hgrafts.acyclic h.acyclic
  · intro a b ha hlimit hab
    rcases hedge a b ha hab with hold | ⟨rfl, hstatus, hleads, hfollows⟩
    · rcases hstored a ha with ⟨rfl, hstatus⟩ | haold
      · exact (hadmits hstatus).2.below hlimit b hold
      · exact h.limits a b haold hlimit hold
    · rcases hstored a ha with ⟨rfl, -⟩ | haold
      · rw [(hadmits hstatus).2.avoids hleads a .refl] at hfollows
        cases hfollows
      · exact (hadmits hstatus).2.above hleads a haold hlimit hfollows

theorem wellNested_step (h : WellNested r) (hok : r.Careful q.call) : WellNested (step H r q) := by
  have himports : q.call.imports = false := by
    cases hc : q.call with
    | saveSquad => rfl
    | _ =>
      rw [hc] at hok
      exact hok
  have hdef := perform_defined (H := H) (r := r) q himports
  unfold step
  generalize perform H r q = out at hdef
  obtain ⟨ans, r'⟩ := out
  generalize r'.agents = agents at hdef
  generalize hsquads : r'.squads = squads at hdef
  generalize q.call = c at hdef hok
  cases hdef with
  | quiet fails => exact h.of_squads hsquads
  | agent checked => exact h.of_squads hsquads
  | @squad s expected checked =>
    obtain ⟨hunmixed, hadmits⟩ := hok
    obtain ⟨-, hnew⟩ := saveSquadCheck_ok checked
    obtain ⟨-, hpublished, -⟩ := saveSquadCheck_parts checked
    refine h.insert ?_ hnew (fun hs => ⟨published_pinned (hpublished hs), hadmits hs⟩) hsquads
    cases hm : r.squads[Repository.key3 s.workspaceID s.id s.revision]? with
    | none => rfl
    | some t =>
      have ht : t.named = s.named := by
        have hm : r.squads[s.named.key]? = some t := hm
        simpa [unmixed, hm] using hunmixed
      exact absurd ht (hnew _ t hm)

theorem WellNested.chain (h : WellNested r) (hs : r.Published s) (hlimit : 0 < s.limit)
    (chain : List SquadDefinition) (hchain : List.IsChain r.Nests (s :: chain)) :
    (chain.length : Int) ≤ s.limit := by
  have hleaf (a b : SquadDefinition) (ha : a.nested = []) : ¬ r.Nests a b := by
    rintro ⟨ref, href, -⟩
    rw [ha] at href
    cases href
  exact chain_bounded h.limits (fun a b hab => hab.published) hleaf chain s hs hlimit hchain

theorem nesting_well_founded (hempty : r.squads = ∅) (run : List Request)
    (hrun : Meets (step H) (fun r q => r.Careful q.call) r run) :
    let r' := exec (step H) r run
    Acyclic r'.Nests ∧
      ∀ s, r'.Published s → 0 < s.policy.maxNestingDepth → ∀ chain,
      List.IsChain r'.Nests (s :: chain) →
        (chain.length : Int) ≤ s.policy.maxNestingDepth := by
  have h : WellNested (exec (step H) r run) :=
    invariant (wellNested_empty hempty)
      (fun r q hr hok => wellNested_step hr hok) hrun
  exact ⟨h.acyclic, fun s hs hlimit chain hchain => h.chain hs hlimit chain hchain⟩

theorem admits_leaf (h : s.nested = []) : r.Admits s := by
  have hnone (t : SquadDefinition) : ¬ r.Nests s t := by
    rintro ⟨ref, href, -⟩
    rw [h] at href
    cases href
  refine ⟨fun _ t hreach => ?_, fun _ t ht => absurd ht (hnone t), fun _ _ _ _ _ => .inl h⟩
  rcases hreach.cases_head with rfl | ⟨u, hu, -⟩
  · simp [SquadDefinition.follows, h]
  · exact absurd hu (hnone u)

/-- A squad whose id nobody uses without a revision is admitted by its limit alone. -/
theorem admits_unfollowed (hown : s.follows s = false)
    (hothers : (r.squads.all fun _ t => !t.follows s) = true)
    (hbelow : (s.nested.all fun ref => (r.resolve s ref).all fun t =>
      t.nested.isEmpty || (decide (0 < t.limit) && decide (t.limit < s.limit))) = true) :
    r.Admits s := by
  have hstored (t : SquadDefinition) (ht : r.Published t) : t.follows s = false := by
    obtain ⟨-, k, hk⟩ := ht
    simpa using GoMap.all_iff.mp hothers k t hk
  refine ⟨fun _ t hreach => ?_, fun _ t ht => ?_, fun _ t ht _ hf => ?_⟩
  · rcases hreach.cases_tail with rfl | ⟨u, -, hu⟩
    · exact hown
    · exact hstored t hu.published
  · obtain ⟨ref, href, hres⟩ := ht
    have := List.all_eq_true.mp hbelow ref href
    rw [hres] at this
    simpa using this
  · rw [hstored t ht] at hf
    cases hf

def leaderSave : Request where
  call := .saveAgent { workspaceID := "w", id := "leader", name := "leader", revision := 1
                       status := .active, executorBinding := { providerID := "provider" }
                       inputSchema := { id := "in" }, outputSchema := { id := "out" } } 0

/-- A published squad with its leader, which nests squads as members. -/
def team (id : String) (revision : Int) (nested : List String) (limit : Int := 0) :
    SquadDefinition where
  workspaceID := "w"
  id := id
  name := id
  revision := revision
  status := .published
  policy := { maxNestingDepth := limit }
  members := { id := "leader", agentID := "leader", role := "leader", leader := true } ::
    nested.map fun other => { id := other, squadID := other, role := "member" }
  graph := { id := "graph", version := 1, entryNodeIDs := ["gate"], exitNodeIDs := ["gate"]
             nodes := [{ id := "gate", kind := .gate }] }

def teamSave (s : SquadDefinition) : Request where
  call := .saveSquad s 0

/-- A nested squad is published again, without squads of its own. -/
theorem republished_team_nests :
    let r := exec (step plainHost) {} [leaderSave, teamSave (team "c" 1 []),
      teamSave (team "b" 1 ["c"] 1), teamSave (team "c" 2 [])]
    (r.squads.size = 3 ∧ Acyclic r.Nests) ∧
      ∀ chain, List.IsChain r.Nests (team "b" 1 ["c"] 1 :: chain) → (chain.length : Int) ≤ 1 := by
  have hrun : Meets (step plainHost) (fun r q => r.Careful q.call) {} [leaderSave,
      teamSave (team "c" 1 []), teamSave (team "b" 1 ["c"] 1), teamSave (team "c" 2 [])] := by
    refine ⟨rfl, ⟨by decide +kernel, fun _ => admits_leaf rfl⟩, ⟨by decide +kernel, fun _ => ?_⟩,
      ⟨by decide +kernel, fun _ => admits_leaf rfl⟩, trivial⟩
    exact admits_unfollowed (by decide +kernel) (by decide +kernel) (by decide +kernel)
  obtain ⟨hacyclic, hchains⟩ := nesting_well_founded rfl _ hrun
  refine ⟨⟨by decide +kernel, hacyclic⟩, fun chain hchain => ?_⟩
  refine hchains (team "b" 1 ["c"] 1) ⟨rfl, "w:b:1", ?_⟩ (by decide) chain hchain
  rfl

/-- Two squads come to nest each other, and a squad with the limit one comes to have
a chain of two below it. -/
theorem nesting_cycle_accepted :
    let r := exec (step plainHost) {} [leaderSave, teamSave (team "a" 1 []),
      teamSave (team "b" 1 ["a"]), teamSave (team "a" 2 ["b"])]
    let r' := exec (step plainHost) {} [leaderSave, teamSave (team "c" 1 []),
      teamSave (team "b" 1 ["c"]), teamSave (team "a" 1 ["b"] 1)]
    (r.Nests (team "a" 2 ["b"]) (team "b" 1 ["a"]) ∧ r.Nests (team "b" 1 ["a"])
      (team "a" 2 ["b"])) ∧
      r'.Published (team "a" 1 ["b"] 1) ∧
      List.IsChain r'.Nests [team "a" 1 ["b"] 1, team "b" 1 ["c"], team "c" 1 []] := by
  refine ⟨⟨⟨("b", 0), by decide, ?_⟩, ⟨("a", 0), by decide, ?_⟩⟩, ⟨rfl, "w:a:1", ?_⟩, ?_⟩
  · rfl
  · rfl
  · rfl
  · refine .cons_cons ⟨("b", 0), by decide, ?_⟩
      (.cons_cons ⟨("c", 0), by decide, ?_⟩ (.singleton _))
    · rfl
    · rfl

end Adro.Control
