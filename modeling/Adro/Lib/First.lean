import Mathlib.Data.List.Basic

/-!
# The first record that matches

A loop that changes the first record of a list that passes a test and stops.
-/

namespace Adro

variable {α β : Type}

/-- The list with the first element that passes the test replaced. -/
def modifyFirst (test : α → Bool) (f : α → α) : List α → List α
  | [] => []
  | x :: xs => if test x then f x :: xs else x :: modifyFirst test f xs

theorem forall_modifyFirst {P : α → Prop} (h : ∀ x ∈ l, P x) (hf : ∀ x ∈ l, P (f x)) :
    ∀ x ∈ modifyFirst test f l, P x := by
  induction l with
  | nil => exact h
  | cons x xs ih =>
    rw [List.forall_mem_cons] at h hf
    unfold modifyFirst
    split
    · exact List.forall_mem_cons.2 ⟨hf.1, h.2⟩
    · exact List.forall_mem_cons.2 ⟨h.1, ih h.2 hf.2⟩

theorem modifyFirst_back (h : l.find? test = some x) : modifyFirst test f l = l ↔ f x = x := by
  induction l with
  | nil => cases h
  | cons y l ih =>
    rw [List.find?_cons] at h
    unfold modifyFirst
    cases hy : test y with
    | true =>
      rw [hy] at h
      cases h
      simp
    | false =>
      rw [hy] at h
      simp [ih h]

/-- A change that keeps or drops a mark of the record keeps or drops it in the list. -/
theorem filterMap_modifyFirst (h : ∀ x ∈ l, test x = true → g (f x) = none ∨ g (f x) = g x) :
    ((modifyFirst test f l).filterMap g).Sublist (l.filterMap g) := by
  induction l with
  | nil => exact .slnil
  | cons x xs ih =>
    have hrest := ih fun y hy => h y (List.mem_cons_of_mem _ hy)
    unfold modifyFirst
    split
    · next hx =>
      rcases h x List.mem_cons_self hx with hdrop | hkeep
      · rw [List.filterMap_cons_none hdrop]
        exact ((List.sublist_cons_self x xs).filterMap g)
      · rw [List.filterMap_cons, List.filterMap_cons, hkeep]
    · cases hg : g x with
      | none => rwa [List.filterMap_cons_none hg, List.filterMap_cons_none hg]
      | some b =>
        rw [List.filterMap_cons_some hg, List.filterMap_cons_some hg]
        exact hrest.cons_cons b

end Adro
