import Mathlib.Data.List.Basic

/-!
# Sorted association lists

`lastOf` looks a key up where the last entry of a key counts. `insertKey` puts
an entry in front of a sorted list: it keeps the list sorted and does not shadow
an entry of the list. A sorted list is determined by its lookups.
-/

namespace Adro

variable {κ α : Type} [DecidableEq κ]

def lastOf : List (κ × α) → κ → Option α
  | [], _ => none
  | (k', v) :: ps, k => (lastOf ps k).or (if k' = k then some v else none)

theorem lastOf_eq_none {ps : List (κ × α)} (h : ∀ p ∈ ps, p.1 ≠ k) : lastOf ps k = none := by
  induction ps with
  | nil => rfl
  | cons p ps ih =>
    rw [lastOf, ih fun q hq => h q (by simp [hq]), if_neg (h p (by simp))]
    rfl

theorem mem_of_lastOf {k : κ} (h : lastOf ps k = some v) :
    (k, v) ∈ ps := by
  induction ps with
  | nil => cases h
  | cons p ps ih =>
    rw [lastOf] at h
    cases hl : lastOf ps k with
    | some w =>
      rw [hl] at h
      cases h
      exact List.mem_cons_of_mem _ (ih hl)
    | none =>
      rw [hl] at h
      split at h
      · next hk =>
        cases h
        rw [← hk]
        exact List.mem_cons_self
      · cases h

theorem lastOf_map [DecidableEq κ'] {f : κ → κ'} {ps : List (κ × α)}
    (h : ∀ p ∈ ps, f p.1 = f k → p.1 = k) :
    lastOf (ps.map fun p => (f p.1, p.2)) (f k) = lastOf ps k := by
  induction ps with
  | nil => rfl
  | cons p ps ih =>
    rw [List.map_cons, lastOf, lastOf, ih fun q hq => h q (by simp [hq])]
    by_cases hk : p.1 = k
    · rw [if_pos hk, if_pos (congrArg f hk)]
    · rw [if_neg hk, if_neg fun heq => hk (h p (by simp) heq)]

section Sorted

variable [LT κ] [DecidableLT κ]

def insertKey (k : κ) (v : α) : List (κ × α) → List (κ × α)
  | [] => [(k, v)]
  | p :: ps =>
    if k < p.1 then (k, v) :: p :: ps
    else if k = p.1 then p :: ps
    else p :: insertKey k v ps

def SortedKeys (ps : List (κ × α)) : Prop := ps.Pairwise fun p q => p.1 < q.1

theorem insertKey_front {ps : List (κ × α)} (h : ∀ p ∈ ps, k < p.1) :
    insertKey k v ps = (k, v) :: ps := by
  cases ps with
  | nil => rfl
  | cons p ps => rw [insertKey, if_pos (h p (by simp))]

theorem mem_insertKey {p : κ × α} (h : p ∈ insertKey k v ps) :
    p = (k, v) ∨ p ∈ ps := by
  induction ps with
  | nil => exact .inl (List.mem_singleton.1 h)
  | cons q ps ih =>
    rw [insertKey] at h
    split_ifs at h
    · exact List.mem_cons.1 h
    · exact .inr h
    · rcases List.mem_cons.1 h with rfl | h
      · exact .inr List.mem_cons_self
      · exact (ih h).imp_right (List.mem_cons_of_mem _)

/-- An entry that is put in its place counts as one in front, under any names of the
keys that tell its key from the others. -/
theorem lastOf_insertKey [DecidableEq κ'] (f : κ → κ') (g : α → β) (v : α)
    (hf : ∀ p ∈ ps, f p.1 = f k → p.1 = k) (x : κ') :
    lastOf ((insertKey k v ps).map fun p => (f p.1, g p.2)) x =
      lastOf (((k, v) :: ps).map fun p => (f p.1, g p.2)) x := by
  induction ps with
  | nil => rfl
  | cons p ps ih =>
    rw [insertKey]
    split_ifs with hlt heq
    · rfl
    · subst heq
      simp only [List.map_cons, lastOf]
      cases lastOf (ps.map fun p => (f p.1, g p.2)) x with
      | some w => rfl
      | none => by_cases hx : f p.1 = x <;> simp [hx]
    · rw [List.map_cons, lastOf, ih fun q hq => hf q (by simp [hq])]
      simp only [List.map_cons, lastOf]
      cases lastOf (ps.map fun p => (f p.1, g p.2)) x with
      | some w => rfl
      | none =>
        by_cases hx : f p.1 = x
        · have hk : f k ≠ x := fun h => heq (hf p (by simp) (hx.trans h.symm)).symm
          simp [hk]
        · simp [hx]

variable [LE κ] [Std.IsLinearOrder κ] [Std.LawfulOrderLT κ]

theorem sortedKeys_insertKey {ps : List (κ × α)} (h : SortedKeys ps) :
    SortedKeys (insertKey k v ps) := by
  induction ps with
  | nil => exact List.pairwise_singleton _ _
  | cons p ps ih =>
    obtain ⟨hp, hps⟩ := List.pairwise_cons.1 h
    rw [insertKey]
    split_ifs with hlt heq
    · refine List.pairwise_cons.2 ⟨fun q hq => ?_, h⟩
      rcases List.mem_cons.1 hq with rfl | hq
      · exact hlt
      · exact Std.lt_trans hlt (hp q hq)
    · exact h
    · refine List.pairwise_cons.2 ⟨fun q hq => ?_, ih hps⟩
      rcases mem_insertKey hq with rfl | hq
      · rcases Std.lt_trichotomy k p.1 with h₁ | h₁ | h₁
        · exact absurd h₁ hlt
        · exact absurd h₁ heq
        · exact h₁
      · exact hp q hq

omit [DecidableLT κ] [Std.IsLinearOrder κ] in
theorem SortedKeys.lastOf_mem (h : SortedKeys ps) {p : κ × α} (hp : p ∈ ps) :
    lastOf ps p.1 = some p.2 := by
  induction ps with
  | nil => cases hp
  | cons q ps ih =>
    obtain ⟨hlt, hps⟩ := List.pairwise_cons.1 h
    rw [lastOf]
    rcases List.mem_cons.1 hp with rfl | hp
    · rw [lastOf_eq_none fun q hq heq => Std.lt_irrefl (heq ▸ hlt q hq), if_pos rfl]
      rfl
    · rw [ih hps hp]
      rfl

omit [DecidableLT κ] in
theorem SortedKeys.ext {ps qs : List (κ × α)} (hp : SortedKeys ps) (hq : SortedKeys qs)
    (h : ∀ k, lastOf ps k = lastOf qs k) : ps = qs := by
  have hnodup {ps : List (κ × α)} (hs : SortedKeys ps) : ps.Nodup := by
    refine List.Pairwise.imp (fun {p q} hlt => ?_) hs
    rintro rfl
    exact Std.lt_irrefl hlt
  refine List.Perm.eq_of_pairwise
    (fun p q _ _ h₁ h₂ => absurd (Std.lt_trans h₁ h₂) Std.lt_irrefl) hp hq ?_
  refine (List.perm_ext_iff_of_nodup (hnodup hp) (hnodup hq)).2 fun p =>
    ⟨fun hmem => ?_, fun hmem => ?_⟩
  · exact mem_of_lastOf ((h _).symm.trans (hp.lastOf_mem hmem))
  · exact mem_of_lastOf ((h _).trans (hq.lastOf_mem hmem))

end Sorted

end Adro
