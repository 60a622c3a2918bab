import Adro.Harness.Exclusion
import Adro.Harness.Remember

/-!
# One notion of an active memory

`ListMemories` and `compileManifest` look for the superseded among the active
memories; `ContextStatus` looks for them among all that are stored. The three
agree at an instant when every active memory that a stored one supersedes is
superseded by an active one.
-/

namespace Adro.Harness

open Adro.Go Adro.Runs

variable {p : Platform} {cfg : Config} {δ : Type} {io : Storage δ} {w : World δ} {s : Store}
  {state : SessionState} {m : MemoryItem} {items : List MemoryItem} {now : Time}

/-- An active memory that is superseded at all is superseded by an active one. -/
def Covered (items : List MemoryItem) (now : Time) : Prop :=
  ∀ m ∈ items, memoryActive m now = true → Superseded items m →
    Superseded (items.filter (memoryActive · now)) m

instance decidableSuperseded (items : List MemoryItem) (m : MemoryItem) :
    Decidable (Superseded items m) :=
  decidable_of_iff _ contains_supersededIDs

instance decidableCovered (items : List MemoryItem) (now : Time) : Decidable (Covered items now) :=
  List.decidableBAll _ items

/-- What a list of memories shows when the superseded are looked for in another. -/
def shown (items others : List MemoryItem) (now : Time) : List MemoryItem :=
  items.filter fun m => memoryActive m now && !decide (Superseded others m)

theorem frontier_perm : (activeMemoryFrontier items now).Perm (shown items items now) := by
  refine sortMemories_perm.trans (.of_eq (List.filter_congr fun m _ => ?_))
  rw [Bool.and_comm]
  congr 2
  rw [Bool.eq_iff_iff, decide_eq_true_iff, contains_supersededIDs]

theorem shown_active :
    shown (items.filter (memoryActive · now)) others now = shown items others now := by
  unfold shown
  rw [List.filter_filter]
  refine List.filter_congr fun m _ => ?_
  cases memoryActive m now <;> simp

theorem counted_sublist :
    (shown items items now).Sublist (shown items (items.filter (memoryActive · now)) now) := by
  apply List.monotone_filter_right
  intro m hm
  simp only [Bool.and_eq_true, Bool.not_eq_true', decide_eq_false_iff_not] at hm ⊢
  refine ⟨hm.1, ?_⟩
  rintro ⟨o, ho, hsupersedes⟩
  exact hm.2 ⟨o, (List.mem_filter.1 ho).1, hsupersedes⟩

theorem shown_eq_iff :
    shown items items now = shown items (items.filter (memoryActive · now)) now ↔
    Covered items now := by
  constructor
  · intro heq m hm hactive hsuperseded
    by_contra hfree
    have hlisted : m ∈ shown items (items.filter (memoryActive · now)) now := by
      simp [shown, hm, hactive, hfree]
    rw [← heq] at hlisted
    simp [shown, hsuperseded] at hlisted
  · intro hcovered
    refine List.filter_congr fun m hm => ?_
    cases hactive : memoryActive m now with
    | false => rfl
    | true =>
      rw [Bool.true_and]
      congr 1
      rw [decide_eq_decide]
      constructor
      · exact hcovered m hm hactive
      · rintro ⟨o, ho, hsupersedes⟩
        exact ⟨o, (List.mem_filter.1 ho).1, hsupersedes⟩

/-- What `ListMemories` returns. -/
def listedMemories (s : Store) (state : SessionState) (now : Time) : List MemoryItem :=
  activeMemoryFrontier (activeMemories s state now) now

theorem listed_perm :
    (listedMemories s state now).Perm
      (shown (visibleMemories s state)
        ((visibleMemories s state).filter (memoryActive · now)) now) :=
  frontier_perm.trans (.of_eq shown_active)

theorem manifest_perm : (manifestMemories s state now).Perm (listedMemories s state now) := by
  refine List.Perm.trans ?_ sortMemories_perm.symm
  refine (sortMemories_perm.filter _).trans (.of_eq (List.filter_congr fun m hm => ?_))
  have hactive : memoryActive m now = true := (List.mem_filter.1 hm).2
  rw [hactive, Bool.and_true]
  congr 1
  rw [Bool.eq_iff_iff, contains_supersededIDs, contains_supersededIDs]
  exact supersededIDs_perm sortMemories_perm

theorem counted_visible (h : s.NamesProjects) :
    countedMemories s state now = activeMemoryFrontier (visibleMemories s state) now := by
  unfold countedMemories visibleMemories
  split
  · next hnone =>
    rw [beq_iff_eq] at hnone
    rw [hnone, show s.project [] = [] from h]
  · rfl

theorem counted_iff (h : s.NamesProjects) :
    (countedMemories s state now).Perm (listedMemories s state now) ↔
      Covered (visibleMemories s state) now := by
  rw [counted_visible h, ← shown_eq_iff]
  have hcounted : (activeMemoryFrontier (visibleMemories s state) now).Perm _ := frontier_perm
  constructor
  · intro hperm
    have hshown := hcounted.symm.trans (hperm.trans listed_perm)
    exact counted_sublist.eq_of_length hshown.length_eq
  · intro heq
    exact hcounted.trans ((List.Perm.of_eq heq).trans listed_perm.symm)

theorem count_iff (h : s.NamesProjects) :
    (countedMemories s state now).length = (listedMemories s state now).length ↔
      Covered (visibleMemories s state) now := by
  constructor
  · intro hlength
    rw [counted_visible h, frontier_perm.length_eq, listed_perm.length_eq] at hlength
    exact shown_eq_iff.1 (counted_sublist.eq_of_length hlength)
  · intro hcovered
    exact ((counted_iff h).2 hcovered).length_eq

/-- The memory blocks among the blocks, by the memories they come from. -/
def memorySources (blocks : List Block) : List Bytes :=
  (blocks.filter fun b => b.kind == bytesOf "memory").map (·.source)

theorem memorySources_append :
    memorySources (blocks ++ more) = memorySources blocks ++ memorySources more := by
  simp [memorySources]

theorem memorySources_fold {g : α → List Bytes}
    (hf : ∀ blocks a, memorySources (f blocks a) = memorySources blocks ++ g a) (as : List α)
    (blocks : List Block) :
    memorySources (as.foldl f blocks) = memorySources blocks ++ as.flatMap g := by
  induction as generalizing blocks with
  | nil => simp
  | cons a as ih => rw [List.foldl_cons, ih, hf, List.flatMap_cons, List.append_assoc]

theorem memorySources_archive (blocks : List Block) (a : ArchiveWindow) :
    memorySources (archiveBlock p blocks a) = memorySources blocks ++ [] :=
  memorySources_append

theorem memorySources_memory (blocks : List Block) (m : MemoryItem) :
    memorySources (memoryBlock p blocks m) = memorySources blocks ++ [m.id] :=
  memorySources_append

theorem memorySources_turn (blocks : List Block) (t : Turn) :
    memorySources (transcriptBlock p state blocks t) = memorySources blocks ++ [] := by
  unfold transcriptBlock
  simp only
  split
  · rw [List.append_nil]
  · exact memorySources_append

theorem memorySources_context :
    memorySources (contextBlocks p s state now) = (manifestMemories s state now).map (·.id) := by
  unfold contextBlocks
  rw [memorySources_fold memorySources_turn, memorySources_fold memorySources_memory,
    memorySources_fold memorySources_archive]
  have hnone {α : Type} (as : List α) : as.flatMap (fun _ => ([] : List Bytes)) = [] := by simp
  rw [hnone, hnone, List.append_nil]
  rw [List.map_eq_flatMap]
  rfl

/-- In every state of every run and at every instant: the memory blocks of the manifest are the
listed memories, and the counted memories are the listed ones exactly when the stored ones are
covered. -/
theorem counted_are_listed_iff (io : Storage δ) (w : World δ) (h0 : w.store.NamesProjects)
    (run : List Call) (id : Bytes) (state : SessionState) (durable : Bool) (now : Time)
    (hstate : (exec (step p cfg io) w run).store.sessions[id]? = some state) :
    let s := (exec (step p cfg io) w run).store
    ∃ listed status, listMemories s id now = .ok listed ∧
    contextStatus durable s id now = .ok status ∧
      status.memoryCount = (countedMemories s state now).length ∧
      (memorySources (contextBlocks p s state now)).Perm (listed.map (·.id)) ∧
      (manifestMemories s state now).Perm listed ∧
      ((countedMemories s state now).Perm listed ↔ Covered (visibleMemories s state) now) ∧
      (status.memoryCount = listed.length ↔ Covered (visibleMemories s state) now) := by
  intro s
  have hnamed : s.NamesProjects := exec_named h0 run
  have hlisted : listMemories s id now = .ok (listedMemories s state now) := by
    unfold listMemories
    rw [show s.sessions[id]? = some state from hstate]
    rfl
  obtain ⟨status, hstatus, hcount⟩ : ∃ status, contextStatus durable s id now = .ok status ∧
      status.memoryCount = (countedMemories s state now).length := by
    unfold contextStatus
    rw [show s.sessions[id]? = some state from hstate]
    exact ⟨_, rfl, rfl⟩
  refine ⟨_, status, hlisted, hstatus, hcount, ?_, manifest_perm, counted_iff hnamed, ?_⟩
  · rw [memorySources_context]
    exact manifest_perm.map _
  · rw [hcount]
    exact count_iff hnamed

/-- A session with a turn, a memory and a second one that supersedes it. -/
def replaced : List Call :=
  [.createSession { id := [49], tenantID := [49], workspaceID := [49] } ⟨[50], 1⟩,
   .appendTurn [49] { id := [51], role := .user, content := [52] }
     ⟨⟨[51], 2⟩, ⟨⟨[], 2⟩, ⟨[], 2⟩, ⟨[], 2⟩⟩⟩,
   .addMemory { id := [53], sessionID := [49], kind := [54], content := [55],
                sourceIDs := [[51]] } 3 ⟨[], 3⟩,
   .addMemory { id := [56], sessionID := [49], kind := [54], content := [57], sourceIDs := [[51]],
                supersedes := [[53]] } 4 ⟨[], 4⟩]

theorem replaced_counted :
    let s := (exec (step plainPlatform plainConfig steadyDisk) emptyWorld replaced).store
    ∃ state listed status, s.sessions[([49] : Bytes)]? = some state ∧
      listMemories s [49] 5 = .ok listed ∧ contextStatus false s [49] 5 = .ok status ∧
      Covered (visibleMemories s state) 5 ∧ status.memoryCount = listed.length := by
  intro s
  have hrun : s.sessions[([49] : Bytes)]?.any
      (fun state => decide (Covered (visibleMemories s state) 5)) = true := by decide +kernel
  obtain ⟨state, hstate, hcovered⟩ := (Option.any_eq_true _ _).1 hrun
  rw [decide_eq_true_eq] at hcovered
  obtain ⟨listed, status, hlisted, hstatus, -, -, -, -, hiff⟩ :=
    counted_are_listed_iff steadyDisk emptyWorld rfl replaced [49] state false 5 hstate
  exact ⟨state, listed, status, hstate, hlisted, hstatus, hcovered, hiff.2 hcovered⟩

/-- Once the second memory is forgotten the first is listed again, and nothing is counted. -/
theorem forgotten_uncovers :
    let s := (exec (step plainPlatform plainConfig steadyDisk) emptyWorld
      (replaced ++ [.transitionMemory [49] [56] (bytesOf "forgotten") [] [] 5])).store
    (listMemories s [49] 6).toOption.map (·.map (·.id)) = some [[53]] ∧
      (contextStatus false s [49] 6).toOption.map (·.memoryCount) = some 0 := by
  decide +kernel

end Adro.Harness
