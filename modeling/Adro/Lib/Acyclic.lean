import Mathlib.Data.List.Chain

/-!
# Relations without cycles

How a relation stays without cycles when edges into one element are added, and a
bound on the length of its chains from limits that fall along its edges.
-/

namespace Adro.Lib

open Relation

variable {α : Type} {R R' : α → α → Prop} {dom into : α → Prop} {s : α}

def Acyclic (R : α → α → Prop) : Prop := ∀ a, ¬ TransGen R a a

/-- The edges of `R'` are those of `R` and some into `s`, from elements that `s`
does not lead to. The old edges need to be known on `dom` only, where every edge ends. -/
structure Grafts (R R' : α → α → Prop) (dom into : α → Prop) (s : α) : Prop where
  edge : ∀ a b, dom a → R' a b → R a b ∨ (b = s ∧ into a)
  target : ∀ a b, R' a b → dom b
  avoids : ∀ a, ReflTransGen R s a → ¬ into a

section
variable (h : Grafts R R' dom into s)
include h

/-- What `s` leads to, it led to before. -/
theorem Grafts.reach (hs : dom s) (ha : ReflTransGen R' s a) : dom a ∧ ReflTransGen R s a := by
  induction ha with
  | refl => exact ⟨hs, .refl⟩
  | tail _ hbc ih =>
    obtain ⟨hb, hreach⟩ := ih
    refine ⟨h.target _ _ hbc, ?_⟩
    rcases h.edge _ _ hb hbc with hold | ⟨-, hinto⟩
    · exact hreach.tail hold
    · exact absurd hinto (h.avoids _ hreach)

/-- A path uses old edges only, or it goes through `s`. -/
theorem Grafts.path (ha : dom a) (hab : TransGen R' a b) :
    TransGen R a b ∨ ∃ u, ReflTransGen R' a u ∧ R' u s ∧ ReflTransGen R' s b := by
  induction hab with
  | single hab =>
    rcases h.edge _ _ ha hab with hold | ⟨rfl, -⟩
    · exact .inl (.single hold)
    · exact .inr ⟨a, .refl, hab, .refl⟩
  | @tail b c hab hbc ih =>
    rcases ih with hold | ⟨u, hau, hus, hsb⟩
    · have hb : dom b := by
        obtain ⟨v, -, hvb⟩ := TransGen.tail'_iff.mp hab
        exact h.target _ _ hvb
      rcases h.edge _ _ hb hbc with hold' | ⟨rfl, -⟩
      · exact .inl (hold.tail hold')
      · exact .inr ⟨b, hab.to_reflTransGen, hbc, .refl⟩
    · exact .inr ⟨u, hau, hus, hsb.tail hbc⟩

theorem Grafts.acyclic (hR : Acyclic R) : Acyclic R' := by
  intro a hcycle
  have ha : dom a := by
    obtain ⟨v, -, hva⟩ := TransGen.tail'_iff.mp hcycle
    exact h.target _ _ hva
  rcases h.path ha hcycle with hold | ⟨u, hau, hus, hsa⟩
  · exact hR a hold
  · -- The cycle goes through `s`, and back to it from a place it led to before.
    have hs : dom s := h.target _ _ hus
    obtain ⟨hu, hsu⟩ := h.reach hs (hsa.trans hau)
    rcases h.edge _ _ hu hus with hold | ⟨-, hinto⟩
    · exact hR s (TransGen.tail'_iff.mpr ⟨u, hsu, hold⟩)
    · exact h.avoids u hsu hinto

end

/-- Along an edge from an element with a limit, the limit falls or the path ends. -/
theorem chain_bounded {limit : α → Int} {leaf : α → Prop}
    (hfalls : ∀ a b, dom a → 0 < limit a → R a b → leaf b ∨ (0 < limit b ∧ limit b < limit a))
    (htarget : ∀ a b, R a b → dom b) (hleaf : ∀ a b, leaf a → ¬ R a b) (chain : List α) (a : α)
    (ha : dom a) (hlimit : 0 < limit a) (hchain : List.IsChain R (a :: chain)) :
    (chain.length : Int) ≤ limit a := by
  induction chain generalizing a with
  | nil => simpa using Int.le_of_lt hlimit
  | cons b rest ih =>
    rw [List.isChain_cons_cons] at hchain
    obtain ⟨hab, hrest⟩ := hchain
    rw [List.length_cons]
    rcases hfalls a b ha hlimit hab with hb | ⟨hpos, hlt⟩
    · cases rest with
      | nil => simpa using Int.add_one_le_of_lt hlimit
      | cons c _ => exact absurd (List.isChain_cons_cons.mp hrest).1 (hleaf b c hb)
    · have := ih b (htarget a b hab) hpos hrest
      omega

end Adro.Lib
