import Adro.Orchestration.Repository
import Adro.Orchestration.Runs

/-!
# Workers on one repository

Workers read a plan's projection and the tail of its log, reduce their copy,
and commit it with an event built on the tail. The reads and the commit are
steps of their own, so other workers come in between. `commits` counts the
commits of each plan that returned nil, and a read notes the count it was made
at: both are history and no step depends on them.
-/

namespace Adro.Orchestration

open Adro.Go Adro.Runs

/-- The projection as it was read and the worker's copy of it. -/
structure Reading where
  plan : RequirementExecutionPlan
  base : PlanProjection
  copy : PlanProjection
  readAt : Nat

structure Tail where
  planID : String
  last : Option Event
  readAt : Nat

structure Peer where
  reading : Option Reading := none
  tail : Option Tail := none

structure Cluster where
  repo : MemoryRepository
  peers : Nat → Peer := fun _ => {}
  commits : String → Nat := fun _ => 0

inductive Action
  | readProjection (w : Nat) (plan : RequirementExecutionPlan)
  | readTail (w : Nat) (planID : String)
  | reduce (w : Nat) (s : Step)
  | commit (w : Nat) (d : Draft) (fault : Option Err)

variable (E : EventHost) {w : Nat} {fault : Option Err}

namespace Cluster

def setPeer (s : Cluster) (w : Nat) (peer : Peer) : Cluster :=
  { s with peers := fun v => if v == w then peer else s.peers v }

/-- The commit of a worker that has read both; any other has nothing to commit. -/
def commitReply (s : Cluster) (w : Nat) (d : Draft) (fault : Option Err) :
    MemoryRepository.Reply :=
  match s.peers w with
  | ⟨some x, some t⟩ =>
    if x.plan.id != t.planID then (.error (errorNew "projection is required"), s.repo)
    else
      match d.event E x.plan t.last with
      | .error err => (.error err, s.repo)
      | .ok e => s.repo.commitEventProjection E e x.copy fault
  | _ => (.error (errorNew "projection is required"), s.repo)

def countCommit (s : Cluster) : Option Reading → Except Err Unit → String → Nat
  | some x, .ok _ => fun k => if x.plan.id = k then s.commits k + 1 else s.commits k
  | _, _ => s.commits

def step (s : Cluster) : Action → Cluster
  | .readProjection w plan =>
    match s.repo.getProjection plan.id with
    | .error _ => s
    | .ok p => s.setPeer w { s.peers w with
        reading := some { plan, base := p, copy := p, readAt := s.commits plan.id } }
  | .readTail w planID => s.setPeer w { s.peers w with
      tail := some {
        planID
        last := (s.repo.listEvents planID 0).getLast?
        readAt := s.commits planID } }
  | .reduce w call =>
    match (s.peers w).reading with
    | none => s
    | some x => s.setPeer w { s.peers w with
        reading := some { x with copy := (call.call E.toHost x.plan x.copy).2 } }
  | .commit w d fault =>
    let reply := s.commitReply E w d fault
    { s.setPeer w {} with
      repo := reply.2
      commits := s.countCommit (s.peers w).reading reply.1 }

/-- A commit that returns nil stores the worker's copy in the place of what the
worker had read, with no commit in between, or leaves what is stored. -/
def Replaces (s : Cluster) : Action → Prop
  | .commit w d fault => ∀ x, (s.peers w).reading = some x →
    (s.commitReply E w d fault).1 = .ok () →
      let stored := fun r : MemoryRepository => r.projections[x.plan.id]?
      (stored s.repo = some x.base ∧ s.commits x.plan.id = x.readAt ∧
        stored (s.commitReply E w d fault).2 = some x.copy) ∨
      stored (s.commitReply E w d fault).2 = stored s.repo
  | _ => True

end Cluster

/-- The two reads saw the same state, a worker that saw an empty log still
finds it empty, and the event's key is not in the log. -/
def Peer.Fresh (r : MemoryRepository) (d : Draft) : Peer → Prop
  | ⟨some x, some t⟩ => x.readAt = t.readAt ∧ (t.last.isNone → (r.log x.plan.id).isEmpty) ∧
    ∀ old ∈ r.log x.plan.id, d.key ≠ "" → old.idempotencyKey ≠ d.key
  | _ => True

instance (r : MemoryRepository) (d : Draft) : (peer : Peer) → Decidable (peer.Fresh r d)
  | ⟨some _, some _⟩ => inferInstanceAs (Decidable (_ ∧ _ ∧ _))
  | ⟨some _, none⟩ => .isTrue trivial
  | ⟨none, _⟩ => .isTrue trivial

def Cluster.Fresh (s : Cluster) : Action → Prop
  | .commit w d _ => (s.peers w).Fresh s.repo d
  | _ => True

instance (s : Cluster) : (a : Action) → Decidable (s.Fresh a)
  | .commit w d _ => inferInstanceAs (Decidable ((s.peers w).Fresh s.repo d))
  | .readProjection .. | .readTail .. | .reduce .. => .isTrue trivial

variable {E} {d : Draft} {plan : RequirementExecutionPlan} {last : Option Event} {e : Event}
  {s : Cluster} {r : MemoryRepository}

/-- On a chained repository the tail read is the last event of the log, and its
sequence is the length of the log. -/
theorem MemoryRepository.Chained.tail (h : r.Chained E) (planID : String) :
    (r.listEvents planID 0).getLast? = (r.log planID).getLast? ∧
      tailSequence (r.log planID).getLast? = (r.log planID).length := by
  obtain ⟨workspaceID, hchain⟩ := h planID
  constructor
  · have hpos := chainFrom_positive hchain
    have hall : r.listEvents planID 0 = r.log planID :=
      List.filter_eq_self.mpr fun e he => by simpa using hpos e he
    rw [hall]
  · cases hlast : (r.log planID).getLast? with
    | none => simp [List.getLast?_eq_none_iff.mp hlast, tailSequence]
    | some e => exact chain_sequence hchain hlast

/-- What a worker has read is still stored while the count stands at its note,
and the log has grown by at least the commits since the tail was read. -/
structure Cluster.Coherent (E : EventHost) (s : Cluster) : Prop where
  chained : s.repo.Chained E
  reading : ∀ w x, (s.peers w).reading = some x → x.readAt ≤ s.commits x.plan.id ∧
    (x.readAt = s.commits x.plan.id → s.repo.projections[x.plan.id]? = some x.base)
  tail : ∀ w t, (s.peers w).tail = some t → 0 ≤ tailSequence t.last ∧
    (t.last ≠ none → 1 ≤ tailSequence t.last) ∧
    s.commits t.planID + tailSequence t.last ≤ t.readAt + (s.repo.log t.planID).length

namespace Cluster

theorem getProjection_ok
    (h : r.getProjection planID = .ok p) : r.projections[planID]? = some p := by
  unfold MemoryRepository.getProjection at h
  split at h
  · rename_i q hq; rw [hq, Except.ok.inj h]
  · cases h

/-- A worker that gives up what it read, or reads again, keeps the others'. -/
theorem Coherent.setPeer (h : s.Coherent E) (w : Nat) (peer : Peer)
    (hreading : ∀ x, peer.reading = some x → x.readAt ≤ s.commits x.plan.id ∧
      (x.readAt = s.commits x.plan.id → s.repo.projections[x.plan.id]? = some x.base))
    (htail : ∀ t, peer.tail = some t → 0 ≤ tailSequence t.last ∧
      (t.last ≠ none → 1 ≤ tailSequence t.last) ∧
      s.commits t.planID + tailSequence t.last ≤ t.readAt + (s.repo.log t.planID).length) :
    (s.setPeer w peer).Coherent E where
  chained := h.chained
  reading := by
    intro v x hx
    simp only [Cluster.setPeer] at hx
    split at hx
    · exact hreading x hx
    · exact h.reading v x hx
  tail := by
    intro v t ht
    simp only [Cluster.setPeer] at ht
    split at ht
    · exact htail t ht
    · exact h.tail v t ht

theorem Coherent.readTail (h : s.Coherent E) (w : Nat) (planID : String) :
    (s.step E (.readTail w planID)).Coherent E := by
  obtain ⟨hlast, hseq⟩ := h.chained.tail planID
  refine h.setPeer w _ (fun x hx => h.reading w x hx) ?_
  rintro t ht
  cases ht
  simp only [hlast]
  refine ⟨by omega, fun hne => ?_, by omega⟩
  have hpos : s.repo.log planID ≠ [] := fun hnil => hne (by simp [hnil])
  have := List.length_pos_iff.mpr hpos
  omega

/-- The commit of a worker that has read both and whose event is built. -/
structure Submits (E : EventHost) (s : Cluster) (w : Nat) (d : Draft) (x : Reading) (t : Tail)
    (e : Event) : Prop where
  peer : s.peers w = ⟨some x, some t⟩
  same : x.plan.id = t.planID
  built : d.event E x.plan t.last = .ok e

theorem Submits.fresh (h : Submits E s w d x t e) (hf : s.Fresh (.commit w d fault)) :
    x.readAt = t.readAt ∧ (t.last.isNone → (s.repo.log x.plan.id).isEmpty) ∧
      ∀ old ∈ s.repo.log x.plan.id, d.key ≠ "" → old.idempotencyKey ≠ d.key := by
  rw [Cluster.Fresh, h.peer] at hf
  exact hf

theorem commitReply_cases :
    (∃ err, s.commitReply E w d fault = (.error err, s.repo)) ∨
    ∃ x t e, Submits E s w d x t e ∧
      MemoryRepository.Committed E s.repo e x.copy (s.commitReply E w d fault).1
        (s.commitReply E w d fault).2 := by
  unfold commitReply
  split
  · rename_i x t hpeer
    split
    · exact .inl ⟨_, rfl⟩
    · rename_i hsame
      split
      · exact .inl ⟨_, rfl⟩
      · rename_i e he
        refine .inr ⟨x, t, e, ⟨hpeer, by simpa using hsame, he⟩, ?_⟩
        exact MemoryRepository.commit_cases E s.repo e x.copy fault
  · exact .inl ⟨_, rfl⟩

/-- A fresh commit that appends was built on the last event of the log, so
nothing was committed since the worker read. -/
theorem Coherent.unseen (h : s.Coherent E) (hf : s.Fresh (.commit w d fault))
    (hsub : Submits E s w d x t e) (happ : MemoryRepository.Appended E (s.repo.log e.planID) e) :
    s.commits x.plan.id = x.readAt := by
  obtain ⟨hplan, -, hseq⟩ := Draft.event_ok hsub.built
  obtain ⟨hsame, hempty, -⟩ := hsub.fresh hf
  have hread := (h.reading w x (by rw [hsub.peer])).1
  obtain ⟨-, hpos, hlog⟩ := h.tail w t (by rw [hsub.peer])
  rw [← hsub.same] at hlog
  suffices hlen : tailSequence t.last = (s.repo.log x.plan.id).length by omega
  cases hlast : t.last with
  | none => simp [List.isEmpty_iff.mp (hempty (by rw [hlast]; rfl)), tailSequence]
  | some prev =>
    rw [hlast] at hpos hseq
    have hlater : 2 ≤ e.sequence := by have := hpos (by simp); omega
    have hchain := happ.chain
    rw [MemoryRepository.rebase_later hlater, hplan] at hchain
    have hlength := chain_sequence (e := e) hchain (by simp)
    simp only [List.length_append, List.length_singleton] at hlength
    omega

theorem Coherent.commit (h : s.Coherent E) (hf : s.Fresh (.commit w d fault)) :
    (s.step E (.commit w d fault)).Coherent E := by
  have hidle := h.setPeer w {} (by simp) (by simp)
  simp only [step]
  rcases commitReply_cases with ⟨err, hr⟩ | ⟨x, t, e, hsub, hr⟩
  · rw [hr]
    cases (s.peers w).reading <;> exact hidle
  · obtain ⟨hplan, hkey, -⟩ := Draft.event_ok hsub.built
    have hnew := (hsub.fresh hf).2.2
    rw [show (s.peers w).reading = some x by rw [hsub.peer]]
    generalize s.commitReply E w d fault = reply at hr
    obtain ⟨res, r'⟩ := reply
    simp only at hr
    cases hr with
    | refused err _ hplans hproj hlogs =>
      refine ⟨fun k => ?_, fun v y hy => ?_, fun v t' ht' => ?_⟩
      · simp only [hlogs]; exact h.chained k
      · simp only [hproj]; exact hidle.reading v y hy
      · simp only [hlogs]; exact hidle.tail v t' ht'
    | repeated old _ hscope hfound =>
      obtain ⟨hmem, hne, hsame⟩ := MemoryRepository.keyed_some hfound
      rw [hplan] at hmem
      rw [hkey] at hne hsame
      exact absurd hsame (hnew old hmem hne)
    | appended _ hscope hfacts hplans hproj hlogs =>
      have hlog k := MemoryRepository.log_insert k hlogs
      have hchain := hfacts.chain
      rw [hplan] at hlog hscope
      refine ⟨h.chained.insert hchain (by rw [hlogs]), fun v y hy => ?_, fun v t' ht' => ?_⟩
      · obtain ⟨hle, hstored⟩ := hidle.reading v y hy
        simp only [hproj, hscope, GoMap.get_set, countCommit]
        split
        · exact ⟨Nat.le_succ_of_le hle,
            fun heq => absurd heq (Nat.ne_of_lt (Nat.lt_succ_of_le hle))⟩
        · exact ⟨hle, hstored⟩
      · obtain ⟨hnonneg, hpos, hgrown⟩ := hidle.tail v t' ht'
        refine ⟨hnonneg, hpos, ?_⟩
        simp only [hlog, countCommit, Cluster.setPeer] at hgrown ⊢
        split
        · rename_i hk
          simp only [hk, List.length_append, List.length_singleton]
          omega
        · exact hgrown

theorem Coherent.step (h : s.Coherent E) (hf : s.Fresh a) : (s.step E a).Coherent E := by
  cases a with
  | readProjection w plan =>
    simp only [Cluster.step]
    split
    · exact h
    · rename_i p hp
      refine h.setPeer w _ ?_ fun t ht => h.tail w t ht
      rintro x hx
      cases hx
      exact ⟨Nat.le_refl _, fun _ => getProjection_ok hp⟩
  | readTail w planID => exact h.readTail w planID
  | reduce w call =>
    simp only [Cluster.step]
    split
    · exact h
    · rename_i x hx
      refine h.setPeer w _ ?_ fun t ht => h.tail w t ht
      rintro y hy
      cases hy
      exact h.reading w x hx
  | commit w d fault => exact h.commit hf

theorem Coherent.replaces (h : s.Coherent E) (hf : s.Fresh a) : s.Replaces E a := by
  cases a with
  | commit w d fault =>
    intro x hx hok
    rcases commitReply_cases with ⟨err, hr⟩ | ⟨y, t, e, hsub, hr⟩
    · rw [hr] at hok; cases hok
    · obtain rfl : y = x := by rw [hsub.peer] at hx; exact Option.some.inj hx
      obtain ⟨hplan, hkey, -⟩ := Draft.event_ok hsub.built
      generalize s.commitReply E w d fault = reply at hr hok
      obtain ⟨res, r'⟩ := reply
      simp only
      cases hr with
      | refused => cases hok
      | repeated old _ hscope hfound =>
        obtain ⟨hmem, hne, hsame⟩ := MemoryRepository.keyed_some hfound
        rw [hplan] at hmem
        rw [hkey] at hne hsame
        exact absurd hsame ((hsub.fresh hf).2.2 old hmem hne)
      | appended _ hscope hfacts hplans hproj hlogs =>
        have hat := h.unseen hf hsub hfacts
        refine .inl ⟨(h.reading w y hx).2 hat.symm, hat, ?_⟩
        rw [hproj, hscope, hplan, GoMap.get_set, if_pos rfl]
  | _ => trivial

end Cluster

/-- In every run whose commits are fresh, each commit that returns nil replaces
what its worker had read. -/
theorem commit_replaces_read (E : EventHost) (r : MemoryRepository) (run : List Action)
    (hr : r.Chained E) (h : Meets (Cluster.step E) Cluster.Fresh { repo := r } run) :
    Meets (Cluster.step E) (Cluster.Replaces E) { repo := r } run :=
  Meets.along (I := Cluster.Coherent E) ⟨hr, by simp, by simp⟩ (fun _ _ h hf => h.step hf)
    (fun _ _ h hf => h.replaces hf) h

def sampleLog : EventHost where
  toHost := sampleHost
  eventSum := fun e => e.id ++ "," ++ toString e.sequence ++ "," ++ e.previousHash
  payloadDigest := fun x => "payload of " ++ (x.map Payload.attemptID).getD ""
  planHash := fun plan => some plan.planHash
  textDigest := id
  traceError := fun _ _ => none
  short := id

def parallelPlan : RequirementExecutionPlan :=
  { samplePlan {
      id := "graph"
      version := 1
      nodes := [agentNode "x", agentNode "y"]
      entryNodeIDs := ["x", "y"]
      exitNodeIDs := ["x", "y"] } with
    workspaceID := "workspace", requirementID := "requirement" }

def parallelRepo : MemoryRepository :=
  (MemoryRepository.createPlan sampleLog {} parallelPlan none).2

def startDraft (nodeID attemptID : String) : Draft where
  origin := { id := "event of " ++ attemptID }
  type := "attempt.started"
  key := "plan:" ++ nodeID ++ ":1"
  payload := { nodeID, attemptID }

/-- One worker's read of both and its start of a node. -/
def prepare (w : Nat) (nodeID attemptID : String) : List Action :=
  [.readProjection w parallelPlan, .readTail w "plan", .reduce w (startCall nodeID attemptID)]

/-- Two workers on a plan whose log is empty, the first of which has committed. -/
def overtaken : Cluster :=
  exec (Cluster.step sampleLog) { repo := parallelRepo }
    (prepare 0 "x" "a" ++ prepare 1 "y" "b" ++ [.commit 0 (startDraft "x" "a") none])

def stores (r : MemoryRepository) (attemptID : String) : Option Bool :=
  r.projections["plan"]?.map fun p => p.attempts.contains attemptID

theorem not_replaces
    (hplan : (s.peers w).reading.map (fun x => (x.plan.id, x.base.attempts.contains attemptID)) =
      some ("plan", false)) (hok : (s.commitReply E w d fault).1 = .ok ())
    (hbefore : stores s.repo attemptID = some true)
    (hafter : stores (s.commitReply E w d fault).2 attemptID = some false) :
    ¬ s.Replaces E (.commit w d fault) := by
  intro h
  obtain ⟨x, hx, heq⟩ := Option.map_eq_some_iff.mp hplan
  obtain ⟨hid, hbase⟩ := Prod.mk.inj heq
  simp only [stores] at hbefore hafter
  rcases h x hx hok with ⟨hread, -, -⟩ | hkept
  · simp only [hid] at hread
    rw [hread] at hbefore
    simp [hbase] at hbefore
  · simp only [hid] at hkept
    rw [hkept, hbefore] at hafter
    cases hafter

/-- The second worker's event has no predecessor, so it is put after the first
worker's; its commit returns nil and the first worker's attempt is gone. -/
theorem rebased_commit_loses_update :
    (MemoryRepository.createPlan sampleLog {} parallelPlan none).1 = .ok () ∧
    stores overtaken.repo "a" = some true ∧
    (overtaken.commitReply sampleLog 1 (startDraft "y" "b") none).1 = .ok () ∧
    stores (overtaken.commitReply sampleLog 1 (startDraft "y" "b") none).2 "a" = some false ∧
    ¬ overtaken.Replaces sampleLog (.commit 1 (startDraft "y" "b") none) := by
  have hok : (overtaken.commitReply sampleLog 1 (startDraft "y" "b") none).1 = .ok () := by rfl
  have hbefore : stores overtaken.repo "a" = some true := by decide +kernel
  have hafter : stores (overtaken.commitReply sampleLog 1 (startDraft "y" "b") none).2 "a" =
    some false := by decide +kernel
  exact ⟨rfl, hbefore, hok, hafter, not_replaces (by decide +kernel) hok hbefore hafter⟩

/-- The log starts with the event of the plan's creation. -/
def announcedRepo : MemoryRepository :=
  match newEvent sampleLog { id := "creation" } none "plan" "workspace" "plan.created" "" {} with
  | .ok e => (MemoryRepository.createPlanWithEvent sampleLog {} parallelPlan e none).2
  | .error _ => {}

/-- The second worker's first commit comes too late; it reads again. -/
def retriedRun : List Action :=
  prepare 0 "x" "a" ++ prepare 1 "y" "b" ++ [.commit 0 (startDraft "x" "a") none,
    .commit 1 (startDraft "y" "b") none] ++ prepare 1 "y" "b" ++
    [.commit 1 (startDraft "y" "b") none]

theorem announcedRepo_chained : announcedRepo.Chained sampleLog := by
  have hlog : validateEventChain sampleLog (announcedRepo.log "plan") "plan" "workspace" = .ok () :=
    rfl
  exact MemoryRepository.chained_empty.insert hlog rfl

theorem commit_replaces_read_retried :
    stores (exec (Cluster.step sampleLog) { repo := announcedRepo } retriedRun).repo "a" =
      some true ∧
    stores (exec (Cluster.step sampleLog) { repo := announcedRepo } retriedRun).repo "b" =
      some true ∧
    Meets (Cluster.step sampleLog) (Cluster.Replaces sampleLog) { repo := announcedRepo }
      retriedRun :=
  ⟨by decide +kernel, by decide +kernel,
    commit_replaces_read sampleLog announcedRepo retriedRun announcedRepo_chained
      (by decide +kernel)⟩

end Adro.Orchestration
