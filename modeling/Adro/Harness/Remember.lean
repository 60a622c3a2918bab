import Adro.Harness.Atomic

/-!
# Which calls change what is remembered

Adding a memory and a transition of one are the only calls that change memories.
What follows for every run: memories of a project are stored under its name.
-/

namespace Adro.Harness

open Adro.Go Adro.Runs

variable {p : Platform} {cfg : Config} {δ : Type} {io : Storage δ} {w : World δ} {s : Store}
  {state : SessionState} {c : Call} {next : SessionState} {id : Bytes}

def SameMemories (state next : SessionState) : Prop :=
  next.memories = state.memories ∧ next.session.projectID = state.session.projectID

structure Forgetful (s s' : Store) : Prop where
  sessions : Advances SameMemories s s'
  projects : s'.projectMemories = s.projectMemories

theorem SameMemories.refl (state : SessionState) : SameMemories state state := ⟨rfl, rfl⟩

theorem Forgetful.refl (s : Store) : Forgetful s s := ⟨.refl .refl s, rfl⟩

theorem Keeps.sameMemories (h : Keeps state next) : SameMemories state next := by
  obtain ⟨version, time, hsession⟩ := h.session
  exact ⟨h.memories, by rw [hsession]⟩

theorem forgetful_setSession (hstate : s.sessions[id]? = some state) (h : SameMemories state next) :
    Forgetful s (s.setSession id next) :=
  ⟨advances_setSession .refl rfl hstate h, rfl⟩

theorem Operates.sameMemories (h : Operates state next) : SameMemories state next := by
  obtain ⟨leases, outbox, time, rfl⟩ := h
  exact ⟨rfl, rfl⟩

theorem Recorded.forgetful (h : Recorded s s') : Forgetful s s' :=
  ⟨h.advances .refl fun _ _ hkeeps => hkeeps.sameMemories, by cases h <;> rfl⟩

theorem plan_forgetful (hc : c.remembers = false) :
    (plan p cfg s c).Writes fun next undo _ _ => Forgetful s next ∧ Forgetful s undo := by
  cases hrecords : c.records with
  | true =>
    refine (plan_records hrecords).imp ?_
    rintro _ _ _ _ ⟨hnext, rfl, -⟩
    exact ⟨hnext.forgetful, .refl _⟩
  | false =>
    refine (plan_operates hrecords hc).imp ?_
    rintro _ _ _ _ ⟨-, state, next, undo, hstate, rfl, rfl, hop⟩
    exact ⟨forgetful_setSession hstate hop.written.sameMemories,
      forgetful_setSession hstate hop.operates.sameMemories⟩

def Store.NamesProjects (s : Store) : Prop := s.project [] = []

theorem namesProjects_same {next : Store} (hsame : next.projectMemories = s.projectMemories)
    (h : s.NamesProjects) : next.NamesProjects := by
  unfold Store.NamesProjects Store.project
  rwa [hsame]

theorem namesProjects_setProject (hid : id ≠ []) (h : s.NamesProjects) :
    (s.setProject id items).NamesProjects := by
  unfold Store.NamesProjects Store.project
  unfold Store.setProject
  rwa [ByteMap.get_set_ne hid]

theorem addedMemory_named (hproject : m.scope = .project → m.projectID ≠ []) (h : s.NamesProjects) :
    (addedMemory s id state m).1.NamesProjects ∧ (addedMemory s id state m).2.NamesProjects := by
  unfold addedMemory
  split
  · next hscope =>
    have hid := hproject (by simpa using hscope)
    exact ⟨namesProjects_setProject hid h, namesProjects_setProject hid h⟩
  · exact ⟨h, h⟩

theorem normalized_named (h : normalizeMemory p state.session item = .ok m)
    (hscope : m.scope = .project) : m.projectID ≠ [] := by
  obtain ⟨quality, projectID, hm, hproject, -⟩ := normalizeMemory_ok h
  have hgiven : givenScope p item = .project := by rw [← hscope, hm]
  have hblank := (hproject hgiven).2
  intro hnone
  rw [hnone] at hblank
  exact absurd hblank (by decide)

theorem transitionStores_named {next undo : Store} (h : s.NamesProjects)
    (hstores : transitionStores s id memoryID state change now = some (target, next, undo)) :
    next.NamesProjects ∧ undo.NamesProjects := by
  unfold transitionStores at hstores
  simp only at hstores
  split at hstores
  · cases hstores
    exact ⟨h, h⟩
  · obtain ⟨found, hfound, heq⟩ := Option.map_eq_some_iff.1 hstores
    cases heq
    -- A memory was found under the project, so the project has a name.
    have hid : state.session.projectID ≠ [] := by
      intro hnone
      rw [hnone, show s.project [] = [] from h] at hfound
      cases hfound
    exact ⟨namesProjects_setProject hid h, namesProjects_setProject hid h⟩

theorem plan_named (h : s.NamesProjects) :
    (plan p cfg s c).Writes fun next undo _ _ => next.NamesProjects ∧ undo.NamesProjects := by
  cases hc : c.remembers with
  | false =>
    refine (plan_forgetful hc).imp ?_
    rintro next undo _ _ ⟨hnext, hundo⟩
    exact ⟨namesProjects_same hnext.projects h, namesProjects_same hundo.projects h⟩
  | true =>
    cases c
    case addMemory item now stamp =>
      refine writes_map.2 (addMemory_ok fun state m _ hm => ?_)
      have hnamed : m.scope = .project → m.projectID ≠ [] := normalized_named hm
      exact addedMemory_named (by simpa using hnamed) h
    case transitionMemory =>
      simp only [plan]
      refine writes_map.2 (transitionMemory_ok ?_)
      intro state target next undo _ hstores
      exact transitionStores_named h hstores
    all_goals cases hc

theorem exec_named (h : w.store.NamesProjects) (run : List Call) :
    (exec (step p cfg io) w run).store.NamesProjects :=
  invariant (I := fun w : World δ => w.store.NamesProjects) h
    (fun w _ (hw : w.store.NamesProjects) _ => perform_store (plan_named hw) hw)
    (show Meets (step p cfg io) (fun _ _ => True) w run from meets_true)

end Adro.Harness
