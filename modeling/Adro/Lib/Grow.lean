import Adro.Lib.First
import Mathlib.Data.List.Forall2

/-!
# Lists that grow

A list whose records are changed in place and that gets new records at its end.
`Grows R l l'` says that each record of `l` stands at its place in `l'`, related
by `R` to what it was.
-/

namespace Adro

variable {α : Type} {R : α → α → Prop} {l l' : List α}

def Grows (R : α → α → Prop) (l l' : List α) : Prop :=
  ∃ kept added, l' = kept ++ added ∧ List.Forall₂ R l kept

theorem Grows.of_forall₂ (h : List.Forall₂ R l l') : Grows R l l' :=
  ⟨l', [], (List.append_nil l').symm, h⟩

theorem Grows.refl (hrefl : ∀ x, R x x) (l : List α) : Grows R l l :=
  .of_forall₂ (List.forall₂_same.2 fun x _ => hrefl x)

theorem Grows.append (hrefl : ∀ x, R x x) (l added : List α) : Grows R l (l ++ added) :=
  ⟨l, added, rfl, List.forall₂_same.2 fun x _ => hrefl x⟩

theorem Grows.imp (himp : ∀ x y, R x y → S x y) (h : Grows R l l') : Grows S l l' := by
  obtain ⟨kept, added, rfl, hkept⟩ := h
  exact ⟨kept, added, rfl, hkept.imp himp⟩

theorem forall₂_trans (htrans : ∀ x y z, R x y → S y z → T x z) (h : List.Forall₂ R l l')
    (h' : List.Forall₂ S l' l'') : List.Forall₂ T l l'' := by
  induction h generalizing l'' with
  | nil =>
    cases h'
    exact .nil
  | cons hxy _ ih =>
    cases h' with
    | cons hyz hrest => exact .cons (htrans _ _ _ hxy hyz) (ih hrest)

theorem Grows.trans (htrans : ∀ x y z, R x y → S y z → T x z) (h : Grows R l l')
    (h' : Grows S l' l'') : Grows T l l'' := by
  obtain ⟨kept, added, rfl, hkept⟩ := h
  obtain ⟨kept', added', rfl, hkept'⟩ := h'
  -- The first records of the later list, and then the ones that were added in between.
  have hfirst := (List.forall₂_take_append _ kept added hkept'.flip).flip
  refine ⟨kept'.take kept.length, kept'.drop kept.length ++ added', ?_,
    forall₂_trans htrans hkept hfirst⟩
  rw [← List.append_assoc, List.take_append_drop]

theorem forall₂_right {β : Type} {R : β → α → Prop} {xs : List β} (h : List.Forall₂ R xs l) {y : α}
    (hy : y ∈ l) : ∃ x ∈ xs, R x y := by
  induction h with
  | nil => cases hy
  | cons hr _ ih =>
    rcases List.mem_cons.1 hy with rfl | hy
    · exact ⟨_, by simp, hr⟩
    · obtain ⟨x, hx, hr⟩ := ih hy
      exact ⟨x, by simp [hx], hr⟩

theorem forall₂_map (h : ∀ x ∈ l, R x (f x)) : List.Forall₂ R l (l.map f) :=
  List.forall₂_map_right_iff.2 (List.forall₂_same.2 h)

theorem forall₂_modifyFirst (hrefl : ∀ x, R x x) (h : ∀ x, l.find? test = some x → R x (f x)) :
    List.Forall₂ R l (modifyFirst test f l) := by
  induction l with
  | nil => exact .nil
  | cons x xs ih =>
    unfold modifyFirst
    split
    · next hx =>
      refine .cons (h x (List.find?_cons_of_pos hx)) ?_
      exact List.forall₂_same.2 fun y _ => hrefl y
    · next hx =>
      refine .cons (hrefl x) (ih ?_)
      intro y hy
      exact h y ((List.find?_cons_of_neg hx).trans hy)

end Adro
