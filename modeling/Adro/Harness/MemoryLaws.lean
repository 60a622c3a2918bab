import Adro.Harness.Recall

/-!
# What is remembered and what is shown

When a memory is admitted and what is stored of it; which memories a frontier
shows; and the order of showing them, which does not change which they are.
-/

namespace Adro.Harness

open Adro.Go Adro.Encoding

variable {m : MemoryItem} {items : List MemoryItem}

def Superseded (items : List MemoryItem) (m : MemoryItem) : Prop := ∃ o ∈ items, m.id ∈ o.supersedes

theorem contains_supersededIDs :
    (supersededIDs items).contains m.id = true ↔ Superseded items m := by
  simp [supersededIDs, Superseded]

theorem sortMemories_perm : (sortMemories items).Perm items :=
  List.perm_insertionSort _ items

theorem supersededIDs_perm (h : items.Perm items') :
    Superseded items m ↔ Superseded items' m := by
  constructor
  · rintro ⟨o, ho, hm⟩
    exact ⟨o, h.mem_iff.1 ho, hm⟩
  · rintro ⟨o, ho, hm⟩
    exact ⟨o, h.mem_iff.2 ho, hm⟩

theorem normalizeMemory_ok (h : normalizeMemory p session item = .ok m) :
    ∃ quality projectID,
      m = { item with
        scope := givenScope p item
        status := givenStatus p item
        qualityScore := quality
        fingerprint := memoryFingerprint p item.kind item.content
        projectID } ∧
      (givenScope p item = .project → m.projectID = session.projectID ∧
        isBlank m.projectID = false) ∧
      (givenScope p item ≠ .project → m.projectID = []) := by
  unfold normalizeMemory at h
  simp only [then_ok, ensure_ok, pure_ok] at h
  obtain ⟨-, -, -, -, hnamed, hproject, rfl⟩ := h
  refine ⟨_, _, rfl, fun hscope => ?_, fun hscope => ?_⟩
  · simp only [hscope, bne_self_eq_false, Bool.false_or, beq_iff_eq,
      Bool.not_eq_true'] at hproject hnamed ⊢
    exact ⟨hproject, hproject.symm ▸ hnamed⟩
  · simp only [beq_iff_eq, hscope, if_false]

section

variable (m : MemoryItem) (fresh : Bytes) (time : Time)

@[simp] theorem recorded_scope : (m.recorded p time).scope = m.scope := rfl
@[simp] theorem recorded_projectID : (m.recorded p time).projectID = m.projectID := rfl
@[simp] theorem identified_scope :
    (m.identified fresh).scope = m.scope := by simp only [MemoryItem.identified]
@[simp] theorem identified_projectID :
    (m.identified fresh).projectID = m.projectID := by simp only [MemoryItem.identified]

end

theorem admitMemory_ok (h : admitMemory p s state item now stamp = .ok r) :
    ∃ m, normalizeMemory p state.session item = .ok m ∧
      let m := m.identified stamp.id
      hasMemoryID state.memories m.id = false ∧ hasMemoryID (s.project m.projectID) m.id = false ∧
      ((∃ existing, (activeMemoryFrontier (availableMemories s state m) now).find? (sameClaim p m) =
            some existing ∧ r = .inl existing) ∨
        ((activeMemoryFrontier (availableMemories s state m) now).find? (sameClaim p m) = none ∧
          checkSupersedes (availableMemories s state m) m = .ok () ∧
          r = .inr (m.recorded p stamp.time))) := by
  obtain ⟨m, hm, h⟩ := bind_ok.1 h
  simp only [then_ok, ensure_ok, Bool.and_eq_true, Bool.not_eq_true'] at h
  obtain ⟨-, ⟨hown, hproject⟩, h⟩ := h
  refine ⟨m, hm, hown, hproject, ?_⟩
  split at h
  · next existing hfound => exact .inl ⟨existing, hfound, (pure_ok.1 h).symm⟩
  · next hnone =>
    obtain ⟨hchecked, h⟩ := then_ok.1 h
    exact .inr ⟨hnone, hchecked, (pure_ok.1 h).symm⟩

end Adro.Harness
