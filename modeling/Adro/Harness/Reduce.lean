import Adro.Harness.Recall
import Adro.Harness.MemoryLaws
import Adro.Harness.Calls

/-!
# Reducing a text to memories

After a reduction that succeeds, every claim of the text is among the memories that are
stored for the session or its project, whatever their status; one that fails on the way
takes nothing from them. Which of two claims about one subject is listed afterwards is
another question: the later one supersedes the earlier one there.
-/

namespace Adro.Harness

open Adro.Go

variable {p : Platform} {δ : Type} {io : Storage δ} {w w' : World δ} {s : Store}
  {state : SessionState} {item m : MemoryItem} {id : Bytes} {r r' : Reducing δ}

/-- A memory of the claim's kind with its text or its fingerprint. -/
def Says (p : Platform) (item m : MemoryItem) : Prop :=
  m.kind = item.kind ∧
    (restates p item m = true ∨ memoryFingerprint p m.kind m.content = item.fingerprint)

/-- What is stored for a session and its project, superseded, expired and forgotten memories
included; nothing where there is no session. -/
def memoriesOf (s : Store) (id : Bytes) : List MemoryItem :=
  (s.sessions[id]?.map (visibleMemories s)).getD []

theorem admitMemory_says (hfp : item.fingerprint = memoryFingerprint p item.kind item.content)
    (h : admitMemory p s state item now stamp = .ok admitted) :
    match admitted with
    | .inl old => old ∈ visibleMemories s state ∧ Says p item old
    | .inr added => Says p item added ∧ (added.scope = .project →
        added.projectID = state.session.projectID ∧ added.projectID ≠ []) := by
  obtain ⟨n, hn, -, -, hcases⟩ := admitMemory_ok h
  obtain ⟨quality, projectID, hn, hproject, -⟩ := normalizeMemory_ok hn
  have hscope : n.scope = .project → n.projectID = state.session.projectID ∧ n.projectID ≠ [] := by
    intro hscope
    obtain ⟨hid, hblank⟩ := hproject (by rw [← hscope, hn])
    exact ⟨hid, fun hnil => by rw [hnil] at hblank; cases hblank⟩
  rcases hcases with ⟨old, hfound, rfl⟩ | ⟨-, -, rfl⟩
  · have hold := (List.mem_filter.1
      (sortMemories_perm.mem_iff.1 (List.mem_of_find?_eq_some hfound))).1
    have hsame := List.find?_some hfound
    constructor
    · grind [availableMemories, visibleMemories, identified_scope, identified_projectID]
    · grind [Says, restates, sameClaim, MemoryItem.identified]
  · grind [Says, restates, MemoryItem.recorded, MemoryItem.identified]

theorem memoriesOf_added (hstate : s.sessions[id]? = some state)
    (hproject : m.scope = .project → m.projectID = state.session.projectID ∧ m.projectID ≠ []) :
    m :: memoriesOf s id ⊆ memoriesOf (addedMemory s id state m).1 id ∧
      memoriesOf s id ⊆ memoriesOf (addedMemory s id state m).2 id := by
  unfold addedMemory
  by_cases hscope : m.scope = .project
  · obtain ⟨hid, hne⟩ := hproject hscope
    simp [memoriesOf, visibleMemories, Store.setSession, Store.setProject, Store.project,
      hscope, hstate,
      ← hid, hne]
  · simp [memoriesOf, visibleMemories, Store.setSession, Store.project, hscope, hstate]

theorem addMemory_memoriesOf (hfp : item.fingerprint = memoryFingerprint p item.kind item.content)
    (h : w.perform io (w.store.addMemory p item now stamp) = (out, w')) :
    memoriesOf w.store item.sessionID ⊆ memoriesOf w'.store item.sessionID ∧
      ∀ m, out = .ok m → m ∈ memoriesOf w'.store item.sessionID ∧ Says p item m := by
  have hp := performs io w (w.store.addMemory p item now stamp)
  rw [h] at hp
  unfold Store.addMemory Store.onSession at hp
  split at hp
  · cases hp
    simp
  · rename_i state hstate
    split at hp
    · cases hp
      simp
    · rename_i plan hplan
      obtain ⟨r, hr, hplan⟩ := bind_ok.1 hplan
      have hsays := admitMemory_says hfp hr
      cases r with
      | inl old =>
        cases pure_ok.1 hplan
        cases hp
        simpa [memoriesOf, hstate] using hsays
      | inr added =>
        cases pure_ok.1 hplan
        obtain ⟨hnext, hundo⟩ := memoriesOf_added hstate hsays.2
        cases hp with
        | undone => exact ⟨hundo, by simp⟩
        | unlogged hturns => exact absurd rfl hturns
        | written =>
          refine ⟨fun x hx => hnext (List.mem_cons_of_mem _ hx), fun m hm => ?_⟩
          cases hm
          exact ⟨hnext List.mem_cons_self, hsays.1⟩

/-- What a part of the loop leaves: it keeps what is stored, the memories it holds are among
them, and so are the claims it has been through. -/
structure Reduced (p : Platform) (id : Bytes) (sourceIDs : List Bytes) (claims : List ParsedClaim)
    (r r' : Reducing δ) (err : Option Error) : Prop where
  kept : memoriesOf r.world.store id ⊆ memoriesOf r'.world.store id
  held : r'.existing ++ r'.reduction.added ⊆ memoriesOf r'.world.store id
  said : err = none → ∀ claim ∈ claims,
    ∃ m ∈ memoriesOf r'.world.store id, Says p (claimItem p id sourceIDs claim) m

theorem scanClaims_found (h : ((scanClaims p item items).1.elim [] (·.id) != []) = true) :
    ∃ m ∈ items, restates p item m = true := by
  induction items with
  | nil => cases h
  | cons old rest ih => grind [scanClaims]

section
variable (hr : r.existing ++ r.reduction.added ⊆ memoriesOf r.world.store id)
include hr

theorem reduceClaim_reduced (h : reduceClaim p io id sourceIDs r claim stamp = (r', err)) :
    Reduced p id sourceIDs [claim] r r' err := by
  unfold reduceClaim at h
  simp only at h
  split at h
  · -- A memory restates the claim, and none is added.
    rename_i hfound
    cases h
    obtain ⟨m, hmem, hsays⟩ := scanClaims_found hfound
    obtain ⟨hold, hsame⟩ := List.mem_filter.1 hmem
    simp only [sameSubject, Bool.and_eq_true, beq_iff_eq] at hsame
    refine ⟨fun _ hx => hx, hr, fun _ => List.forall_mem_singleton.2 ⟨m, ?_,
      hsame.1.1.2, .inl hsays⟩⟩
    exact hr (List.mem_append_left _ hold)
  · split at h
    · rename_i hadd
      obtain ⟨hkept, -⟩ := addMemory_memoriesOf rfl hadd
      cases h
      exact ⟨hkept, List.Subset.trans hr hkept, by simp⟩
    · rename_i saved world hadd
      obtain ⟨hkept, hnew⟩ := addMemory_memoriesOf rfl hadd
      obtain ⟨hsaved, hsays⟩ := hnew saved rfl
      cases h
      refine ⟨hkept, ?_, fun _ => List.forall_mem_singleton.2 ⟨saved, hsaved, hsays⟩⟩
      obtain ⟨hexisting, hadded⟩ := List.append_subset.1 (List.Subset.trans hr hkept)
      have hlast : [saved] ⊆ memoriesOf world.store id := by simpa [claimItem] using hsaved
      exact List.append_subset.2 ⟨List.append_subset.2 ⟨hexisting, hlast⟩,
        List.append_subset.2 ⟨hadded, hlast⟩⟩

theorem reduceClaims_reduced (h : reduceClaims p io id sourceIDs stamps i r claims = (r', err)) :
    Reduced p id sourceIDs claims r r' err := by
  induction claims generalizing i r with
  | nil =>
    cases h
    exact ⟨fun _ hx => hx, hr, by simp⟩
  | cons claim rest ih =>
    unfold reduceClaims at h
    split at h
    · rename_i hclaim
      obtain ⟨hkept, hheld, -⟩ := reduceClaim_reduced hr hclaim
      cases h
      exact ⟨hkept, hheld, by simp⟩
    · rename_i hclaim
      obtain ⟨hkept, hheld, hsaid⟩ := reduceClaim_reduced hr hclaim
      obtain ⟨hkept', hheld', hrest⟩ := ih hheld h
      refine ⟨List.Subset.trans hkept hkept', hheld',
        fun herr => List.forall_mem_cons.2 ⟨?_, hrest herr⟩⟩
      obtain ⟨m, hm, hsays⟩ := List.forall_mem_singleton.1 (hsaid rfl)
      exact ⟨m, hkept' hm, hsays⟩

end

theorem reduction_stored (p : Platform) (io : Storage δ) (w : World δ) (id : Bytes)
    (sourceIDs : List Bytes) (content : Bytes) (stamps : Nat → Stamp) :
    let (reduction, err, w') := w.reduceMemories p io id sourceIDs content stamps
    memoriesOf w.store id ++ reduction.added ⊆ memoriesOf w'.store id ∧
      (err = none → ∀ claim ∈ parseClaims p content,
        ∃ m ∈ memoriesOf w'.store id, Says p
          (claimItem p id (uniqueNonEmpty sourceIDs) claim) m) := by
  unfold World.reduceMemories
  simp only
  cases hstart : startReducing p w id (uniqueNonEmpty sourceIDs) content with
  | error e => simp
  | ok r =>
    have hr : r.existing = memoriesOf w.store id ∧ r.reduction.added = [] ∧ r.world = w := by
      simp only [startReducing, then_ok] at hstart
      obtain ⟨-, hstart⟩ := hstart
      split at hstart
      · rename_i state hstate
        simp only [then_ok, pure_ok] at hstart
        obtain ⟨-, -, rfl⟩ := hstart
        simp [memoriesOf, hstate]
      · cases hstart
    obtain ⟨hexisting, hadded, hworld⟩ := hr
    have hheld : r.existing ++ r.reduction.added ⊆ memoriesOf r.world.store id := by
      simp [hexisting, hadded, hworld]
    obtain ⟨hkept, hheld', hsaid⟩ := reduceClaims_reduced hheld rfl
    refine ⟨List.append_subset.2 ⟨hworld ▸ hkept, (List.append_subset.1 hheld').2⟩, hsaid⟩

end Adro.Harness
