import Mathlib.Data.List.Basic

/-!
# Runs of a deterministic system

A system is a step function on states; a run is the list of its inputs.
`Meets ok s run` says that every input of the run meets a condition in the
state it is applied to. An invariant rule and a rule for reflexive, transitive
relations between earlier and later states carry facts about one step to runs.
-/

namespace Adro.Runs

variable {σ α : Type} {step : σ → α → σ} {ok : σ → α → Prop} {s : σ} {run : List α} {a : α}

def exec (step : σ → α → σ) (s : σ) (run : List α) : σ := run.foldl step s

/-- Every input meets the condition where it is applied. -/
def Meets (step : σ → α → σ) (ok : σ → α → Prop) : σ → List α → Prop
  | _, [] => True
  | s, a :: run => ok s a ∧ Meets step ok (step s a) run

instance decidableMeets (step : σ → α → σ) (ok : σ → α → Prop) [∀ s a, Decidable (ok s a)] :
    (s : σ) → (run : List α) → Decidable (Meets step ok s run)
  | _, [] => .isTrue trivial
  | s, a :: run =>
    have := decidableMeets step ok (step s a) run
    inferInstanceAs (Decidable (ok s a ∧ Meets step ok (step s a) run))

@[simp] theorem exec_nil : exec step s [] = s := rfl

@[simp] theorem exec_cons : exec step s (a :: run) = exec step (step s a) run := rfl

theorem exec_append : exec step s (run ++ rest) = exec step (exec step s run) rest :=
  List.foldl_append

theorem exec_concat : exec step s (run ++ [a]) = step (exec step s run) a := by
  rw [exec_append]; rfl

theorem meets_append :
    Meets step ok s (run ++ rest) ↔ Meets step ok s run ∧ Meets step ok (exec step s run) rest := by
  induction run generalizing s with
  | nil => simp [Meets]
  | cons a run ih => simp only [List.cons_append, Meets, ih, exec_cons, and_assoc]

theorem meets_concat :
    Meets step ok s (run ++ [a]) ↔ Meets step ok s run ∧ ok (exec step s run) a := by
  simp [meets_append, Meets]

theorem meets_true : Meets step (fun _ _ => True) s run := by
  induction run generalizing s with
  | nil => trivial
  | cons a run ih => exact ⟨trivial, ih⟩

/-- What holds at the start and is kept by every step holds at the end. -/
theorem invariant {I : σ → Prop} (h0 : I s) (hstep : ∀ s a, I s → ok s a → I (step s a))
    (h : Meets step ok s run) : I (exec step s run) := by
  induction run generalizing s with
  | nil => exact h0
  | cons a run ih => exact ih (hstep s a h0 h.1) h.2

/-- A preorder that relates each state to the next relates the ends of a run,
where the steps may rely on an invariant. -/
theorem related {I : σ → Prop} {R : σ → σ → Prop} (hrefl : ∀ s, R s s)
    (htrans : ∀ s t u, R s t → R t u → R s u) (h0 : I s)
    (hI : ∀ s a, I s → ok s a → I (step s a)) (hR : ∀ s a, I s → ok s a → R s (step s a))
    (h : Meets step ok s run) : R s (exec step s run) := by
  induction run generalizing s with
  | nil => exact hrefl s
  | cons a run ih => exact htrans _ _ _ (hR s a h0 h.1) (ih (hI s a h0 h.1) h.2)

/-- Steps that meet one condition meet another where an invariant gives it. -/
theorem Meets.along {I : σ → Prop} (h0 : I s) (hI : ∀ s a, I s → ok s a → I (step s a))
    (himp : ∀ s a, I s → ok s a → ok' s a) (h : Meets step ok s run) : Meets step ok' s run := by
  induction run generalizing s with
  | nil => trivial
  | cons a run ih => exact ⟨himp s a h0 h.1, ih (hI s a h0 h.1) h.2⟩

theorem Meets.imp (himp : ∀ s a, ok s a → ok' s a) (h : Meets step ok s run) :
    Meets step ok' s run :=
  h.along (I := fun _ => True) trivial (fun _ _ _ _ => trivial) fun s a _ => himp s a

end Adro.Runs
