import Adro.Control.OutboxLaws
import Mathlib.Data.List.MinMax
import Mathlib.Data.Prod.Lex
import Mathlib.Data.String.Basic

/-!
# Which intent a claim takes

The search of `ClaimOutbox` replaces the intent it holds by one that is older or
one that has a smaller id. A younger intent with a smaller id therefore wins when
it is seen later, and the answer depends on the order in which the map is read.
-/

namespace Adro.Control

open Adro.Go Adro.Orchestration

namespace Repository

variable (H : ControlHost) (r : Repository) (planID owner : String) (ttl : Duration)
  (now clock : Time)

/-- An order in which the outbox can be read. -/
def Order (order : List String) : Prop := order.Perm r.outbox.keys

def Claimable (x : OutboxRecord) : Prop :=
  r.outbox[x.id]? = some x ∧ claimable planID now x = true

/-- First by the time of creation, then by the id. -/
def Oldest (x : OutboxRecord) : Prop :=
  r.Claimable planID now x ∧ ∀ y, r.Claimable planID now y →
    x.createdAt < y.createdAt ∨ x.createdAt = y.createdAt ∧ x.id ≤ y.id

/-- The change leases the record, or puts back what was there when the snapshot
cannot be written. -/
def Leases (x : OutboxRecord) (change : Change Repository OutboxRecord) : Prop :=
  ∃ undone, change = .write
    { r with outbox := r.outbox.insert x.id (x.leasedTo owner ttl now), dirty := true } undone
    ((x.leasedTo owner ttl now).clone H.short)

/-- What a claim owes when it reads the outbox in the order. -/
def OldestFirst (order : List String) : Prop :=
  let change := r.claimOutbox H planID owner ttl now clock order
  (∀ x, r.Oldest planID (instant now clock) x →
    r.Leases H owner ttl (instant now clock) x change) ∧
    (change = .refuse Sentinel.notFound.err r ↔ ∀ x, ¬ r.Claimable planID (instant now clock) x)

end Repository

open Repository

variable {H : ControlHost} {r : Repository} {planID owner : String} {ttl : Duration}
  {now clock : Time} {x y : OutboxRecord} {items : List OutboxRecord} {order : List String}

theorem foldl_keeps (hid : x.id ≠ "")
    (h : ∀ y ∈ items, ¬ y.createdAt < x.createdAt ∧ ¬ y.id < x.id) :
    items.foldl preferred x = x := by
  induction items with
  | nil => rfl
  | cons y items ih =>
    obtain ⟨hy, hrest⟩ := List.forall_mem_cons.mp h
    have hkeep : preferred x y = x := by simp [preferred, hid, hy]
    rw [List.foldl_cons, hkeep, ih hrest]

/-- The oldest record replaces whatever the search holds when it is reached. -/
theorem preferred_oldest (hx : r.Oldest planID now x) (h : ∀ y ∈ items, r.Claimable planID now y) :
    preferred (items.foldl preferred {}) x = x := by
  rcases foldl_preferred items {} with hnone | hmem
  · rw [hnone]
    rfl
  · generalize items.foldl preferred {} = y at hmem
    have hy := h y hmem
    rcases hx.2 y hy with hlt | ⟨-, hle⟩
    · simp [preferred, hlt]
    · rcases hle.lt_or_eq with hlt | heq
      · simp [preferred, hlt]
      · have hsame : x = y := Option.some.inj (hx.1.1.symm.trans (heq ▸ hy.1))
        rw [hsame, preferred, ite_self]

theorem foldl_finds (hx : r.Oldest planID now x) (hid : x.id ≠ "")
    (hleast : ∀ y, r.Claimable planID now y → x.id ≤ y.id)
    (h : ∀ y, y ∈ items ↔ r.Claimable planID now y) : items.foldl preferred {} = x := by
  obtain ⟨before, after, rfl⟩ := List.append_of_mem ((h x).mpr hx.1)
  simp only [List.mem_append, List.mem_cons] at h
  have hbefore : ∀ y ∈ before, r.Claimable planID now y := fun y hy => (h y).mp (.inl hy)
  rw [List.foldl_append, List.foldl_cons, preferred_oldest hx hbefore]
  refine foldl_keeps hid fun y hy => ?_
  have hy' : r.Claimable planID now y := (h y).mp (.inr (.inr hy))
  refine ⟨?_, (hleast y hy').not_gt⟩
  rcases hx.2 y hy' with hlt | ⟨heq, -⟩
  · exact hlt.not_gt
  · exact heq.not_gt

theorem claimable_of_candidate (hkeyed : Keyed r.outbox) (h : x ∈ r.candidates planID now order) :
    r.Claimable planID now x := by
  obtain ⟨h, hclaim⟩ := List.mem_filter.mp h
  obtain ⟨k, -, hk⟩ := List.mem_filterMap.mp h
  exact ⟨by rw [hkeyed k x hk, hk], hclaim⟩

theorem Repository.Claimable.mem (h : r.Claimable planID now x) : x.id ∈ r.outbox.keys := by
  rw [Std.ExtTreeMap.mem_keys, Std.ExtTreeMap.mem_iff_isSome_getElem?, h.1]
  rfl

theorem mem_candidates (hkeyed : Keyed r.outbox) (horder : r.Order order) (x : OutboxRecord) :
    x ∈ r.candidates planID now order ↔ r.Claimable planID now x := by
  refine ⟨claimable_of_candidate hkeyed, fun hx => List.mem_filter.mpr ⟨?_, hx.2⟩⟩
  exact List.mem_filterMap.mpr ⟨x.id, horder.mem_iff.mpr hx.mem, hx.1⟩

theorem exists_oldest (hkeyed : Keyed r.outbox) (hx : r.Claimable planID now x) :
    ∃ m, r.Oldest planID now m := by
  have hmem : ∀ y, y ∈ r.candidates planID now r.outbox.keys ↔ r.Claimable planID now y :=
    mem_candidates hkeyed (.refl _)
  have hsome : (r.candidates planID now r.outbox.keys).argmin
      (fun y => toLex (y.createdAt, y.id)) ≠ none := fun hnone =>
    List.ne_nil_of_mem ((hmem x).mpr hx) (List.argmin_eq_none.mp hnone)
  obtain ⟨m, hm⟩ := Option.ne_none_iff_exists'.mp hsome
  refine ⟨m, (hmem m).mp (List.argmin_mem hm), fun y hy => ?_⟩
  exact Prod.Lex.toLex_le_toLex.mp (List.le_of_mem_argmin ((hmem y).mpr hy) hm)

/-- An order that reads the two records last. -/
theorem exists_order_last (hx : r.Claimable planID now x) (hy : r.Claimable planID now y)
    (hne : y.id ≠ x.id) : ∃ keys, r.Order (keys ++ [x.id, y.id]) := by
  have hy' := (List.mem_erase_of_ne hne).mpr hy.mem
  refine ⟨(r.outbox.keys.erase x.id).erase y.id, List.perm_append_comm.trans ?_⟩
  exact (((List.perm_cons_erase hy').cons x.id).symm).trans (List.perm_cons_erase hx.mem).symm

theorem claimCheck_error : claimCheck owner ttl ≠ .error Sentinel.notFound.err := by
  unfold claimCheck ensure
  split <;> exact nofun

/-- How a claim ends: `x` is what the search has chosen. -/
theorem claim_cases (hkeyed : Keyed r.outbox)
    (hx : (r.candidates planID (instant now clock) order).foldl preferred {} = x) :
    let change := r.claimOutbox H planID owner ttl now clock order
    (∃ err, claimCheck owner ttl = .error err ∧ change = .refuse err r) ∨
      claimCheck owner ttl = .ok () ∧
        (x.id = "" ∧ change = .refuse Sentinel.notFound.err r ∨
          x.id ≠ "" ∧ r.Claimable planID (instant now clock) x ∧
            r.Leases H owner ttl (instant now clock) x change) := by
  cases hcheck : claimCheck owner ttl with
  | error err => exact .inl ⟨err, rfl, by simp only [claimOutbox, Change.guarded, hcheck]⟩
  | ok _ =>
    refine .inr ⟨rfl, ?_⟩
    simp only [claimOutbox, Change.guarded, hcheck, hx]
    by_cases hid : x.id = ""
    · exact .inl ⟨hid, by simp [hid]⟩
    · have hclaim : r.Claimable planID (instant now clock) x := by
        rcases foldl_preferred (r.candidates planID (instant now clock) order) {} with h | h
        · exact absurd (congrArg OutboxRecord.id (hx.symm.trans h)) hid
        · exact claimable_of_candidate hkeyed (hx ▸ h)
      have hfree := hclaim.2
      simp only [claimable, Bool.and_eq_true, Bool.not_eq_true'] at hfree
      exact .inr ⟨hid, hclaim, by simp [hid, Leases, claimOutboxLocked, hclaim.1, hfree]⟩

theorem leases_refuse : ¬ r.Leases H owner ttl now x (.refuse err r) := by
  rintro ⟨_, h⟩
  cases h

theorem leases_same
    (h : r.Leases H owner ttl now x change) (h' : r.Leases H owner ttl now y change) :
    x.id = y.id := by
  obtain ⟨_, rfl⟩ := h
  obtain ⟨_, h'⟩ := h'
  simpa [OutboxRecord.leasedTo] using congrArg OutboxRecord.id (Change.write.inj h').2.2.1

theorem chosen_of_oldestFirst (hkeyed : Keyed r.outbox)
    (h : r.OldestFirst H planID owner ttl now clock order) :
    claimCheck owner ttl = .ok () ∧ ∀ x, r.Oldest planID (instant now clock) x →
      x.id ≠ "" ∧
        ((r.candidates planID (instant now clock) order).foldl preferred {}).id = x.id := by
  obtain ⟨hleases, hnone⟩ := h
  rcases claim_cases hkeyed rfl with ⟨err, herr, hchange⟩ | ⟨hcheck,
    ⟨-, hchange⟩ | ⟨hid, -, hlease⟩⟩
  · rw [hchange] at hleases hnone
    have hfree : ∀ x, ¬ r.Claimable planID (instant now clock) x := fun x hx =>
      have ⟨m, hm⟩ := exists_oldest hkeyed hx
      leases_refuse (hleases m hm)
    cases hnone.mpr hfree
    exact absurd herr claimCheck_error
  · exact ⟨hcheck, fun x hx => absurd (hchange ▸ hleases x hx) leases_refuse⟩
  · refine ⟨hcheck, fun x hx => ?_⟩
    have hsame := leases_same hlease (hleases x hx)
    exact ⟨hsame ▸ hid, hsame⟩

/-- A claim serves the oldest record in every order exactly when that record has
the smallest id too. -/
theorem oldest_first_iff (hkeyed : Keyed r.outbox) :
    (∀ order, r.Order order → r.OldestFirst H planID owner ttl now clock order) ↔
      claimCheck owner ttl = .ok () ∧ ∀ x, r.Oldest planID (instant now clock) x →
        x.id ≠ "" ∧ ∀ y, r.Claimable planID (instant now clock) y → x.id ≤ y.id := by
  constructor
  · intro h
    obtain ⟨hcheck, hnamed⟩ := chosen_of_oldestFirst hkeyed (h _ (.refl _))
    refine ⟨hcheck, fun x hx => ⟨(hnamed x hx).1, fun y hy => String.not_lt.mp fun hlt => ?_⟩⟩
    -- Right after the oldest, a record with a smaller id takes its place.
    obtain ⟨keys, horder⟩ := exists_order_last hx.1 hy hlt.ne
    have hchosen : (r.candidates planID (instant now clock) (keys ++ [x.id, y.id])).foldl
        preferred {} = y := by
      have hlast : r.candidates planID (instant now clock) (keys ++ [x.id, y.id]) =
          r.candidates planID (instant now clock) keys ++ [x, y] := by
        simp [candidates, hx.1.1, hx.1.2, hy.1, hy.2]
      rw [hlast, List.foldl_append, List.foldl_cons,
        preferred_oldest hx fun z hz => claimable_of_candidate hkeyed hz]
      simp [preferred, hlt]
    have hid := ((chosen_of_oldestFirst hkeyed (h _ horder)).2 x hx).2
    rw [hchosen] at hid
    exact hlt.ne hid
  · rintro ⟨hcheck, hleast⟩ order horder
    have hchosen : ∀ x, r.Oldest planID (instant now clock) x →
        (r.candidates planID (instant now clock) order).foldl preferred {} = x := fun x hx =>
      foldl_finds hx (hleast x hx).1 (hleast x hx).2 (mem_candidates hkeyed horder)
    rcases claim_cases hkeyed rfl with ⟨err, herr, -⟩ | ⟨-, ⟨hid, hchange⟩ | ⟨-, hclaim, hlease⟩⟩
    · rw [hcheck] at herr
      cases herr
    · have hfree : ∀ x, ¬ r.Oldest planID (instant now clock) x := fun x hx =>
        (hleast x hx).1 (hchosen x hx ▸ hid)
      refine ⟨fun x hx => absurd hx (hfree x), fun _ x hx => ?_, fun _ => hchange⟩
      obtain ⟨m, hm⟩ := exists_oldest hkeyed hx
      exact hfree m hm
    · refine ⟨fun x hx => hchosen x hx ▸ hlease, fun hnone => ?_, fun hfree => ?_⟩
      · exact absurd (hnone ▸ hlease) leases_refuse
      · exact absurd hclaim (hfree _)

def intentAt (id : String) (createdAt : Time) : OutboxRecord :=
  { id, status := .pending, maxAttempts := 3, createdAt }

def twoIntents (early late : String) : Repository where
  outbox := ((∅ : GoMap OutboxRecord).insert early (intentAt early 1)).insert late (intentAt late 2)

theorem twoIntents_get :
    (twoIntents early late).outbox[k]? = some x ↔
      late = k ∧ intentAt late 2 = x ∨ late ≠ k ∧ early = k ∧ intentAt early 1 = x := by
  simp only [twoIntents, GoMap.get_set]
  grind

theorem ordered_intents_oldest_first : Keyed (twoIntents "a" "b").outbox ∧
    ∀ order, (twoIntents "a" "b").Order order →
      (twoIntents "a" "b").OldestFirst plainHost "" "worker" 10 5 5 order := by
  have hkeyed : Keyed (twoIntents "a" "b").outbox := fun k x hx => by
    obtain ⟨rfl, rfl⟩ | ⟨-, rfl, rfl⟩ := twoIntents_get.mp hx <;> rfl
  refine ⟨hkeyed, (oldest_first_iff hkeyed).mpr ⟨rfl, fun x hx => ?_⟩⟩
  obtain ⟨-, rfl⟩ | ⟨-, -, rfl⟩ := twoIntents_get.mp hx.1.1
  · exact absurd (hx.2 (intentAt "a" 1) ⟨twoIntents_get.mpr (by simp [intentAt]), rfl⟩) (by decide)
  · refine ⟨by decide, fun y hy => ?_⟩
    obtain ⟨-, rfl⟩ | ⟨-, -, rfl⟩ := twoIntents_get.mp hy.1 <;> decide

theorem younger_taken_first :
    (twoIntents "b" "a").Order ["b", "a"] ∧
      (twoIntents "b" "a").Oldest "" 5 (intentAt "b" 1) ∧
      ¬ (twoIntents "b" "a").OldestFirst plainHost "" "worker" 10 5 5 ["b", "a"] := by
  have holdest : (twoIntents "b" "a").Oldest "" 5 (intentAt "b" 1) := by
    refine ⟨⟨twoIntents_get.mpr (by simp [intentAt]), rfl⟩, fun y hy => ?_⟩
    obtain ⟨-, rfl⟩ | ⟨-, -, rfl⟩ := twoIntents_get.mp hy.1 <;> decide
  refine ⟨by unfold Order; decide +kernel, holdest, fun h => ?_⟩
  obtain ⟨undone, hlease⟩ := h.1 _ holdest
  have hid : some "a" = some "b" := congrArg (fun change : Change Repository OutboxRecord =>
    (change.settle Except.ok).1.toOption.map OutboxRecord.id) hlease
  exact absurd hid (by decide)

end Adro.Control
