import Mathlib.Data.List.Infix

/-!
# Cached copies of an append-only log

A log has a revision that grows with every write. A copy of it that was read at
some time is a prefix of what the log has become, and is the log itself as long
as the revision is the same.
-/

namespace Adro.Replica

variable {α : Type} {revision : Int} {log cache : List α} {r : Int}

/-- The copy `cache`, read at revision `r`, of the log at a revision. -/
structure Tracks (r : Int) (cache : List α) (revision : Int) (log : List α) : Prop where
  reached : r ≤ revision
  kept : cache <+: log
  synced : r = revision → cache = log

theorem Tracks.self :
    Tracks revision log revision log := ⟨Int.le_refl _, List.prefix_rfl, fun _ => rfl⟩

theorem Tracks.advance (h : Tracks r cache revision log) (hr : revision < revision')
    (hl : log <+: log') : Tracks r cache revision' log' where
  reached := by have := h.reached; omega
  kept := h.kept.trans hl
  synced he := by have := h.reached; omega

end Adro.Replica
