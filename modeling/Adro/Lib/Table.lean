import Mathlib.Data.List.Pairwise
import Mathlib.Tactic.SplitIfs

/-!
# Tables with constraints

A table holds rows that meet a check, no two of which share a unique key. Rows
are inserted and updated only where the constraints allow it, so a query by a
key has at most one answer.
-/

namespace Adro

/-- The constraints of a table. `clash` holds of two rows that share a unique key. -/
structure Schema (ρ : Type) where
  check : ρ → Prop
  clash : ρ → ρ → Prop
  [decCheck : DecidablePred check]
  [decClash : DecidableRel clash]
  symm : ∀ {a b}, clash a b → clash b a

attribute [instance] Schema.decCheck Schema.decClash

@[ext] structure Table {ρ : Type} (σ : Schema ρ) where
  rows : List ρ
  checked : ∀ r ∈ rows, σ.check r
  unique : rows.Pairwise fun a b => ¬ σ.clash a b

namespace Table

variable {ρ : Type} {σ : Schema ρ} {t : Table σ} {r a : ρ} {q : ρ → Bool} {g : ρ → ρ}

def empty : Table σ := ⟨[], by simp, .nil⟩

def find (t : Table σ) (q : ρ → Bool) : Option ρ := t.rows.find? q

def Fits (t : Table σ) (r : ρ) : Prop := σ.check r ∧ ∀ a ∈ t.rows, ¬ σ.clash a r

instance : Decidable (t.Fits r) :=
  inferInstanceAs (Decidable (σ.check r ∧ ∀ a ∈ t.rows, ¬ σ.clash a r))

def insert (t : Table σ) (r : ρ) (h : t.Fits r) : Table σ where
  rows := t.rows ++ [r]
  checked := by
    simp only [List.forall_mem_append, List.forall_mem_singleton]
    exact ⟨t.checked, h.1⟩
  unique := by
    rw [List.pairwise_append]
    exact ⟨t.unique, List.pairwise_singleton _ _, by simpa using h.2⟩

def Allows (t : Table σ) (g : ρ → ρ) : Prop :=
  (∀ r ∈ t.rows, σ.check (g r)) ∧ (t.rows.map g).Pairwise fun a b => ¬ σ.clash a b

instance : Decidable (t.Allows g) := inferInstanceAs (Decidable (_ ∧ _))

def update (t : Table σ) (g : ρ → ρ) (h : t.Allows g) : Table σ where
  rows := t.rows.map g
  checked := by simpa using h.1
  unique := h.2

/-- The new row in the place of one that shares a key with it. -/
def replaceBy (σ : Schema ρ) (r a : ρ) : ρ := if σ.clash a r then r else a

/-- `INSERT ... ON CONFLICT DO UPDATE` with all columns of the new row, for a table of one
unique key. -/
def upsert (t : Table σ) (r : ρ) : Option (Table σ) :=
  if ∃ a ∈ t.rows, σ.clash a r then
    if h : t.Allows (replaceBy σ r) then some (t.update _ h) else none
  else if h : t.Fits r then some (t.insert r h) else none

@[simp] theorem rows_insert : (t.insert r h).rows = t.rows ++ [r] := rfl

@[simp] theorem rows_update : (t.update g h).rows = t.rows.map g := rfl

def ByKey (σ : Schema ρ) (q : ρ → Bool) : Prop := ∀ a b, q a → q b → σ.clash a b

theorem eq_of_clash (ha : a ∈ t.rows) (hr : r ∈ t.rows) (h : σ.clash a r) : a = r := by
  by_contra hne
  have : Std.Symm fun a b => ¬ σ.clash a b := ⟨fun _ _ hab h => hab (σ.symm h)⟩
  exact t.unique.forall ha hr hne h

theorem find_iff (hq : ByKey σ q) : t.find q = some r ↔ r ∈ t.rows ∧ q r := by
  constructor
  · intro h
    exact ⟨List.mem_of_find?_eq_some h, List.find?_some h⟩
  · rintro ⟨hr, hqr⟩
    cases hfind : t.find q with
    | none => exact absurd hqr (List.find?_eq_none.1 hfind r hr)
    | some a =>
      rw [eq_of_clash (List.mem_of_find?_eq_some hfind) hr (hq a r (List.find?_some hfind) hqr)]

theorem find_eq_none : t.find q = none ↔ ∀ r ∈ t.rows, ¬ q r := List.find?_eq_none

theorem find_insert : (t.insert r h).find q = (t.find q).or (if q r then some r else none) := by
  simp only [find]
  split <;> simp [*]

theorem find_update (h : t.Allows g) (hq : ∀ a, q (g a) = q a) :
    (t.update g h).find q = (t.find q).map g := by
  simp only [find, rows_update, List.find?_map]
  congr 1
  exact congrArg (List.find? · t.rows) (funext hq)

theorem mem_upsert (h : t.upsert r = some t') (ha : a ∈ t'.rows) :
    a = r ∨ a ∈ t.rows := by
  unfold upsert at h
  split_ifs at h with _ hallow hfits
  · cases h
    obtain ⟨b, hb, rfl⟩ := List.mem_map.1 ha
    unfold replaceBy
    split
    · exact .inl rfl
    · exact .inr hb
  · cases h
    simpa [or_comm] using ha

theorem find_upsert (h : t.upsert r = some t') (hq : ∀ a b, q a → (σ.clash a b ↔ q b)) :
    t'.find q = if q r then some r else t.find q := by
  unfold upsert at h
  split_ifs at h with hex hallow hfits
  · cases h
    by_cases hr : q r = true
    · obtain ⟨a, ha, hclash⟩ := hex
      rw [if_pos hr, find_iff fun a b ha hb => (hq a b ha).2 hb]
      refine ⟨List.mem_map.2 ⟨a, ha, ?_⟩, hr⟩
      rw [replaceBy, if_pos hclash]
    · rw [if_neg hr]
      have hkeep : ∀ a, q (replaceBy σ r a) = q a := by
        intro a
        unfold replaceBy
        split
        · next hclash =>
          -- A row that shares the key of `r` is not selected either.
          have ha : ¬ q a = true := fun ha => hr ((hq a r ha).1 hclash)
          rw [Bool.not_eq_true] at hr ha
          rw [hr, ha]
        · rfl
      rw [find_update hallow hkeep]
      cases hfind : t.find q with
      | none => rfl
      | some a =>
        have hqa : q a = true := List.find?_some hfind
        have : ¬ σ.clash a r := fun hclash => hr ((hq a r hqa).1 hclash)
        simp [replaceBy, this]
  · cases h
    rw [find_insert]
    by_cases hr : q r = true
    · have hnone : t.find q = none := find_eq_none.2 fun a ha hqa =>
        hex ⟨a, ha, (hq a r hqa).2 hr⟩
      simp [hnone]
    · simp [hr]

end Table

end Adro
