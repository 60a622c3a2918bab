import Adro.Orchestration.Model

/-!
# Changes of a repository

Every method of the repository holds the lock from its first read to its last
write. What it does there is a `Change`: it refuses, it replies, or it writes the
maps and has the snapshot written, and takes the maps back itself when that fails.
`Change.Leaves` says what the states it can leave satisfy.
-/

namespace Adro.Control

open Adro.Go Adro.Orchestration

/-- `undone` is what a method leaves when the snapshot of `written` cannot be
written, `failure` what it makes of the error. -/
inductive Change (σ ρ : Type)
  | refuse (err : Err) (left : σ)
  | reply (value : ρ) (left : σ)
  | write (written undone : σ) (value : ρ) (failure : Err → Err := id)

namespace Change

variable {σ τ ρ ρ' : Type}

def settle (persist : σ → Except Err σ) : Change σ ρ → Except Err ρ × σ
  | .refuse err left => (.error err, left)
  | .reply value left => (.ok value, left)
  | .write written undone value failure =>
    match persist written with
    | .ok saved => (.ok value, saved)
    | .error err => (.error (failure err), undone)

def map (f : σ → τ) : Change σ ρ → Change τ ρ
  | .refuse err left => .refuse err (f left)
  | .reply value left => .reply value (f left)
  | .write written undone value failure => .write (f written) (f undone) value failure

def returning (f : ρ → ρ') : Change σ ρ → Change σ ρ'
  | .refuse err left => .refuse err left
  | .reply value left => .reply (f value) left
  | .write written undone value failure => .write written undone (f value) failure

def guarded (check : Except Err Unit) (r : σ) (change : Change σ ρ) : Change σ ρ :=
  match check with
  | .error err => .refuse err r
  | .ok _ => change

variable {W P Q : σ → Prop} {persist : σ → Except Err σ}

/-- A change writes what satisfies `W`, leaves what satisfies `P` when it writes
nothing, and takes its writes back to what satisfies `Q`. -/
inductive Leaves (W P Q : σ → Prop) : Change σ ρ → Prop
  | refuse {err : Err} {left : σ} (h : P left) : Leaves W P Q (.refuse err left)
  | reply {value : ρ} {left : σ} (h : P left) : Leaves W P Q (.reply value left)
  | write {written undone : σ} {value : ρ} {failure : Err → Err} (hw : W written)
    (hu : Q undone) : Leaves W P Q (.write written undone value failure)

/-- Every state that the change can leave, a saved one apart, satisfies the predicate. -/
abbrev All (P : σ → Prop) (c : Change σ ρ) : Prop := c.Leaves P P P

theorem All.settle {c : Change σ ρ} (h : c.All P)
    (hsave : ∀ w s, persist w = .ok s → P w → P s) : P (c.settle persist).2 := by
  cases h with
  | refuse h => exact h
  | reply h => exact h
  | write hw hu =>
    simp only [Change.settle]
    split
    · rename_i saved hsaved
      exact hsave _ _ hsaved hw
    · exact hu

theorem Leaves.returning {c : Change σ ρ} (h : c.Leaves W P Q) :
    (c.returning f).Leaves W P Q := by
  cases h with
  | refuse h => exact .refuse h
  | reply h => exact .reply h
  | write hw hu => exact .write hw hu

theorem Leaves.guarded (hr : P r)
    (h : c.Leaves W P Q) : (Change.guarded check r c).Leaves W P Q := by
  cases check with
  | error err => exact .refuse hr
  | ok _ => exact h

theorem All.map {c : Change τ ρ} (h : ∀ m, P (f m)) : (c.map f).All P := by
  cases c with
  | refuse err left => exact .refuse (h left)
  | reply value left => exact .reply (h left)
  | write written undone value failure => exact .write (h written) (h undone)

theorem Leaves.imp {c : Change σ ρ} (h : c.Leaves W P Q) (hP : ∀ s, P s → P' s)
    (hQ : ∀ s, Q s → Q' s) : c.Leaves W P' Q' := by
  cases h with
  | refuse h => exact .refuse (hP _ h)
  | reply h => exact .reply (hP _ h)
  | write hw hu => exact .write hw (hQ _ hu)

theorem Leaves.map {c : Change τ ρ}
    (hW : ∀ m, W' m → W (f m)) (hP : ∀ m, P' m → P (f m)) (hQ : ∀ m, Q' m → Q (f m))
    (h : c.Leaves W' P' Q') : (c.map f).Leaves W P Q := by
  cases h with
  | refuse h => exact .refuse (hP _ h)
  | reply h => exact .reply (hP _ h)
  | write hw hu => exact .write (hW _ hw) (hQ _ hu)

end Change

end Adro.Control
