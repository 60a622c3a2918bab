import Adro.Control.OutboxLaws

/-!
# Delivery of outbox intents

Beside the repository runs a record of the claims that have been answered and
not settled. While intents are enqueued under ids that are not in use, unleased
and with attempts left, and are not claimed by id once their attempts are spent,
a delivered or failed intent stays as it is, a running lease excludes other
claims, only its owner settles it, and no intent has more attempts than its bound.

Ids may collide: an intent enqueued under the id of another replaces it, and
deletes it when its own snapshot cannot be written. Where ids are not used twice
no intent is lost.
-/

namespace Adro.Control

open Adro.Go Adro.Orchestration Adro.Runs

structure Watched where
  repo : Repository
  claims : GoMap OutboxRecord := ∅

/-- An answered claim is entered, a settled one is deleted. -/
def noted (claims : GoMap OutboxRecord) (c : Call) : Except Err Answer → GoMap OutboxRecord
  | .ok (.claimed x) => claims.insert x.id x
  | .ok .done =>
    match c.settles with
    | some (id, _) => claims.erase id
    | none => claims
  | _ => claims

variable (H : ControlHost) {x record held : OutboxRecord} {owner id k : String}
  {outbox : GoMap OutboxRecord} {clock : EnqueueClock}

def watch (w : Watched) (q : Request) : Watched where
  repo := step H w.repo q
  claims := noted w.claims q.call (perform H w.repo q).1

/-- A new intent comes under an id that is not in use, without a lease and with
attempts in its bound, and a claim by id meets an intent with attempts left. -/
def Repository.orderly (r : Repository) : Call → Bool
  | .enqueueOutbox record clock =>
    !record.trimmed.complete || (r.enqueued record.trimmed).isSome ||
      ((r.outbox[enqueueID record clock]?).isNone &&
        (record.status == .unset || record.status == .pending) &&
        (-2 ^ 63 ≤ record.attempts && record.attempts ≤ (record.filled clock).maxAttempts))
  | .claimOutboxByID id _ _ now clock =>
    (r.outbox[trimSpace id]?).all fun x =>
      x.status.final || x.held (Repository.instant now clock) || !x.spent
  | _ => true

/-- What holds of a call in a state of a run, and of the repository the run ends in. -/
structure Disciplined (w : Watched) (q : Request) (last : Repository) : Prop where
  ended : ∀ (id : String) x, w.repo.outbox[id]? = some x → x.status.final = true →
    last.outbox[id]? = some x
  exclusive : ∀ x held, (perform H w.repo q).1 = .ok (.claimed x) → w.claims[x.id]? = some held →
    ∃ now, q.call.time = some now ∧ held.leaseExpiresAt ≤ now
  owned : ∀ id owner, q.call.settles = some (id, owner) → (perform H w.repo q).1 = .ok .done →
    ∃ held now, w.claims[id]? = some held ∧ held.owner = owner ∧ q.call.time = some now ∧
      now < held.leaseExpiresAt
  bounded : ∀ (id : String) x, last.outbox[id]? = some x → x.attempts ≤ x.maxAttempts

def OutboxRecord.Bounded (x : OutboxRecord) : Prop :=
  -2 ^ 63 ≤ x.attempts ∧ x.attempts ≤ x.maxAttempts ∧ 0 < x.maxAttempts

structure Sound (w : Watched) : Prop where
  keyed : Keyed w.repo.outbox
  bounded : ∀ (k : String) x, w.repo.outbox[k]? = some x → x.Bounded
  leases : ∀ k : String, (w.claims[k]?).map (·.lease) =
    ((w.repo.outbox[k]?).filter (·.status == .leased)).map (·.lease)

variable {H} {r : Repository} {w : Watched} {q : Request} {run : List Request}

theorem sound_empty (h : r.outbox = ∅) : Sound ⟨r, ∅⟩ := by
  have hnone (k : String) : r.outbox[k]? = none := by simp [h]
  refine ⟨?_, ?_, ?_⟩
  · intro k x hx
    simp [hnone] at hx
  · intro k x hx
    simp [hnone] at hx
  · simp [hnone]

theorem i64_le_self (h : -2 ^ 63 ≤ n) : i64 n ≤ n := by
  unfold i64
  omega

theorem i64_ge : -2 ^ 63 ≤ i64 n := by
  unfold i64
  omega

theorem OutboxRecord.Bounded.leasedTo (h : x.Bounded)
    (hspent : x.spent = false) : (x.leasedTo owner ttl now).Bounded := by
  obtain ⟨hlow, hle, hpos⟩ := h
  have hlt : x.attempts < x.maxAttempts := by
    simp only [OutboxRecord.spent, Bool.and_eq_false_iff, decide_eq_false_iff_not] at hspent
    omega
  have hself : i64 (x.attempts + 1) ≤ x.attempts + 1 := i64_le_self (by omega)
  refine ⟨i64_ge, ?_, hpos⟩
  show i64 (x.attempts + 1) ≤ x.maxAttempts
  omega

theorem OutboxRecord.filled_maxAttempts_pos (record : OutboxRecord) (clock : EnqueueClock) :
    0 < (record.filled clock).maxAttempts := by
  unfold OutboxRecord.filled defaultOutboxMaxAttempts
  simp only
  split <;> omega

/-- A record under a key that is in the outbox is not the one under a key that is not. -/
theorem ne_of_fresh (hfresh : outbox[id]? = none) (hx : outbox[k]? = some x) : id ≠ k := by
  rintro rfl
  rw [hfresh] at hx
  cases hx

theorem orderly_enqueue (hok : r.orderly (.enqueueOutbox record clock) = true)
    (hcomplete : record.trimmed.complete = true) (hfresh : r.enqueued record.trimmed = none) :
    r.outbox[enqueueID record clock]? = none ∧
      (record.status = .unset ∨ record.status = .pending) ∧
      -2 ^ 63 ≤ record.attempts ∧ record.attempts ≤ (record.filled clock).maxAttempts := by
  simpa [Repository.orderly, hcomplete, hfresh, and_assoc] using hok

theorem orderly_stored (hstatus : record.status = .unset ∨ record.status = .pending)
    (hlow : -2 ^ 63 ≤ record.attempts) (hle : record.attempts ≤ (record.filled clock).maxAttempts) :
    (Repository.stored H record clock).Bounded ∧ (Repository.stored H record clock).status =
      .pending := by
  obtain ⟨payload, h⟩ := OutboxRecord.stored_eq
  rw [h]
  refine ⟨⟨hlow, hle, record.filled_maxAttempts_pos clock⟩, ?_⟩
  rcases hstatus with hs | hs <;> simp [OutboxRecord.filled, OutboxRecord.trimmed, hs]

theorem stored_id (record : OutboxRecord) :
    (Repository.stored H record clock).id = enqueueID record clock := by
  simp [Repository.stored, enqueueID]

/-- The facts of `Sound` after a call, for each way it can end. -/
theorem sound_outcome (h : Sound w) (hok : w.repo.orderly q.call = true)
    (hout : Outcome H w.repo q.call out box) :
    Keyed box ∧ (∀ (k : String) x, box[k]? = some x → x.Bounded) ∧
      ∀ k : String, ((noted w.claims q.call out)[k]?).map (·.lease) =
        ((box[k]?).filter (·.status == .leased)).map (·.lease) := by
  cases hout with
  | quiet claims creates settles =>
    have hnoted : noted w.claims q.call out = w.claims := by
      unfold noted
      split
      · rename_i x
        exact absurd rfl (claims x)
      · rcases settles with hs | hs
        · rw [hs]
        · exact absurd rfl hs
      · rfl
    rw [hnoted]
    exact ⟨h.keyed, h.bounded, h.leases⟩
  | @created record clock call complete fresh =>
    rw [call] at hok
    obtain ⟨hnone, hstatus, hlow, hle⟩ := orderly_enqueue hok complete fresh
    obtain ⟨hbounded, hpending⟩ := orderly_stored hstatus hlow hle
    refine ⟨GoMap.forall_set h.keyed (stored_id record),
      GoMap.forall_set h.bounded hbounded, fun k => ?_⟩
    rw [GoMap.get_set]
    simp only [noted]
    split
    · rename_i hk
      rw [h.leases k, ← hk, hnone]
      simp [hpending]
    · exact h.leases k
  | @dropped record clock err call complete fresh =>
    rw [call] at hok
    rw [GoMap.erase_of_none (orderly_enqueue hok complete fresh).1]
    exact ⟨h.keyed, h.bounded, h.leases⟩
  | @claimed id owner ttl now item time settles found open_ free spent =>
    have hspent : item.spent = false := by
      cases hs : item.spent with
      | false => rfl
      | true =>
        obtain ⟨given, owner', ttl', t, clock, hc, hgiven⟩ := spent hs
        rw [hc] at hok time
        cases Option.some.inj time
        simp [Repository.orderly, hgiven, found, open_, free, hs] at hok
    refine ⟨GoMap.forall_set h.keyed rfl,
      GoMap.forall_set h.bounded ((h.bounded id item found).leasedTo hspent), fun k => ?_⟩
    have hx : ((item.leasedTo owner ttl now).clone H.short).id = item.id := by simp; rfl
    simp only [noted, GoMap.get_set, hx]
    split
    · simp [OutboxRecord.leasedTo]
    · exact h.leases k
  | @settled id owner now item x time call found leased owned running intent ended attempts =>
    have hid : item.id = id := h.keyed id item found
    have hx' : x.id = item.id := OutboxRecord.id_of_intent intent
    have hbounded : x.Bounded := by
      have hmax : x.intent.maxAttempts = item.intent.maxAttempts := by rw [intent]
      have hmax : x.maxAttempts = item.maxAttempts := hmax
      unfold OutboxRecord.Bounded
      rw [attempts, hmax]
      exact h.bounded id item found
    refine ⟨GoMap.forall_set h.keyed hx', GoMap.forall_set h.bounded hbounded, fun k => ?_⟩
    simp only [noted, call, GoMap.get_set, GoMap.get_delete, hid]
    split
    · simp [ended]
    · exact h.leases k

theorem sound_step (h : Sound w) (hok : w.repo.orderly q.call = true) : Sound (watch H w q) := by
  obtain ⟨hkeyed, hbounded, hleases⟩ := sound_outcome h hok (perform_outcome h.keyed q)
  exact ⟨hkeyed, hbounded, hleases⟩

abbrev Orderly (H : ControlHost) (w : Watched) (run : List Request) : Prop :=
  Meets (watch H) (fun w q => w.repo.orderly q.call = true) w run

theorem sound_exec (h : Sound w) (hrun : Orderly H w run) : Sound (exec (watch H) w run) :=
  invariant h (fun _ _ hs hok => sound_step hs hok) hrun

/-- The intents that are delivered or have failed, as they are. -/
def KeepsEnded (w w' : Watched) : Prop :=
  ∀ (k : String) x, w.repo.outbox[k]? = some x → x.status.final = true → w'.repo.outbox[k]? = some x

theorem keepsEnded_step (h : Sound w) (hok : w.repo.orderly q.call = true) :
    KeepsEnded w (watch H w q) := by
  intro k x hx hfinal
  have hout := perform_outcome (H := H) h.keyed q
  show (perform H w.repo q).2.outbox[k]? = some x
  generalize (perform H w.repo q).1 = out, (perform H w.repo q).2.outbox = box at hout
  -- What is written was not ended.
  have hopen {id : String} {item y : OutboxRecord} (found : w.repo.outbox[id]? = some item)
      (hitem : item.status.final = false) : (w.repo.outbox.insert item.id y)[k]? = some x := by
    rw [GoMap.get_set_ne, hx]
    rintro rfl
    rw [h.keyed id item found, found] at hx
    cases hx
    rw [hitem] at hfinal
    cases hfinal
  cases hout with
  | quiet claims creates settles => exact hx
  | @created record clock call complete fresh =>
    rw [call] at hok
    rw [GoMap.get_set_ne (ne_of_fresh (orderly_enqueue hok complete fresh).1 hx)]
    exact hx
  | @dropped record clock err call complete fresh =>
    rw [call] at hok
    rw [GoMap.erase_of_none (orderly_enqueue hok complete fresh).1]
    exact hx
  | claimed time settles found open_ => exact hopen found open_
  | settled time call found leased => exact hopen found (by rw [leased]; rfl)

theorem keepsEnded_exec (h : Sound w) (hrun : Orderly H w run) :
    KeepsEnded w (exec (watch H) w run) :=
  related (I := Sound) (R := KeepsEnded) (fun _ _ _ hx _ => hx)
    (fun _ _ _ h₁ h₂ k x hx hf => h₂ k x (h₁ k x hx hf) hf) h
    (fun _ _ hs hok => sound_step hs hok) (fun _ _ hs hok => keepsEnded_step hs hok) hrun

theorem Sound.leased (h : Sound w) (hheld : w.claims[k]? = some held) :
    ∃ x, w.repo.outbox[k]? = some x ∧ x.status = .leased ∧ x.lease = held.lease := by
  have hk := h.leases k
  rw [hheld] at hk
  obtain ⟨x, hx, hlease⟩ := Option.map_eq_some_iff.mp hk.symm
  rw [Option.filter_eq_some_iff] at hx
  exact ⟨x, hx.1, by simpa using hx.2, hlease⟩

theorem Sound.claimed (h : Sound w) (hx : w.repo.outbox[k]? = some x)
    (hleased : x.status = .leased) :
    ∃ held, w.claims[k]? = some held ∧ held.lease = x.lease := by
  have hk := h.leases k
  rw [hx] at hk
  simp only [Option.filter_some, hleased] at hk
  exact Option.map_eq_some_iff.mp hk

theorem sound_exclusive (h : Sound w) (hclaim : (perform H w.repo q).1 = .ok (.claimed x))
    (hheld : w.claims[x.id]? = some held) :
    ∃ now, q.call.time = some now ∧ held.leaseExpiresAt ≤ now := by
  have hout := perform_outcome (H := H) h.keyed q
  rw [hclaim] at hout
  generalize (perform H w.repo q).2.outbox = box at hout
  cases hout with
  | quiet claims creates settles => exact absurd rfl (claims x)
  | @claimed id owner ttl now item time settles found open_ free spent =>
    refine ⟨now, time, ?_⟩
    obtain ⟨y, hy, hleased, hlease⟩ := h.leased hheld
    have hid : ((item.leasedTo owner ttl now).clone H.short).id = id := by
      rw [OutboxRecord.clone_id]
      exact h.keyed id item found
    rw [hid, found] at hy
    cases hy
    have hexp : item.leaseExpiresAt = held.leaseExpiresAt := congrArg Prod.snd hlease
    simp only [OutboxRecord.held, hleased, beq_self_eq_true, Bool.true_and,
      decide_eq_false_iff_not] at free
    rw [← hexp]
    exact not_lt.mp free

theorem sound_owned (h : Sound w) (hcall : q.call.settles = some (id, owner))
    (hdone : (perform H w.repo q).1 = .ok .done) :
    ∃ held now, w.claims[id]? = some held ∧ held.owner = owner ∧ q.call.time = some now ∧
      now < held.leaseExpiresAt := by
  have hout := perform_outcome (H := H) h.keyed q
  rw [hdone] at hout
  generalize (perform H w.repo q).2.outbox = box at hout
  cases hout with
  | quiet claims creates settles =>
    rcases settles with hs | hs
    · rw [hs] at hcall
      cases hcall
    · exact absurd rfl hs
  | @settled id' owner' now item x time call found leased owned running intent ended attempts =>
    rw [call] at hcall
    cases Option.some.inj hcall
    obtain ⟨held, hheld, hlease⟩ := h.claimed found leased
    have howner : held.owner = item.owner := congrArg Prod.fst hlease
    have hexp : held.leaseExpiresAt = item.leaseExpiresAt := congrArg Prod.snd hlease
    exact ⟨held, now, hheld, howner.trans owned, time, hexp ▸ running⟩

theorem outbox_disciplined (hempty : r.outbox = ∅) (before after : List Request) (q : Request)
    (hrun : Orderly H ⟨r, ∅⟩ (before ++ q :: after)) :
    Disciplined H (exec (watch H) ⟨r, ∅⟩ before) q
      (exec (watch H) ⟨r, ∅⟩ (before ++ q :: after)).repo := by
  have h0 := sound_empty hempty
  obtain ⟨hbefore, hafter⟩ := meets_append.mp hrun
  have hsound := sound_exec h0 hbefore
  refine ⟨?_, ?_, ?_, ?_⟩
  · rw [exec_append]
    exact keepsEnded_exec hsound hafter
  · exact fun x held hclaim hheld => sound_exclusive hsound hclaim hheld
  · exact fun id owner hcall hdone => sound_owned hsound hcall hdone
  · exact fun id x hx => ((sound_exec h0 hrun).bounded id x hx).2.1

def enqueueCall (id key : String) (maxAttempts : Int) (fault : Option Err := none) : Request where
  call := .enqueueOutbox
    { id, planID := "plan", workspaceID := "workspace", kind := "kind", idempotencyKey := key,
      maxAttempts, createdAt := 1 } ⟨1, 1⟩
  fault := fault

def claimCall (owner : String) (now : Time) : Request where
  call := .claimOutbox "" owner 10 now now ["a"]

def claimByIDCall (owner : String) (now : Time) : Request where
  call := .claimOutboxByID "a" owner 10 now now

def ackCall (owner : String) (now : Time) (deliveryErr : Option String) : Request where
  call := .ackOutbox "a" owner now now deliveryErr

/-- A delivery that fails is tried again by another worker, who settles it. -/
theorem second_delivery_disciplined :
    let before := [enqueueCall "a" "key" 2, claimCall "w" 1, ackCall "w" 5 (some "down"),
      claimByIDCall "v" 6]
    (perform plainHost (exec (watch plainHost) ⟨{}, ∅⟩ before).repo (ackCall "v" 7 none)).1.isOk ∧
      Disciplined plainHost (exec (watch plainHost) ⟨{}, ∅⟩ before) (ackCall "v" 7 none)
        (exec (watch plainHost) ⟨{}, ∅⟩ (before ++ [ackCall "v" 7 none])).repo := by
  refine ⟨by decide +kernel, outbox_disciplined rfl _ [] _ ?_⟩
  decide +kernel

/-- A worker that claims by id gets an intent whose only attempt has been used. -/
theorem spent_intent_claimed :
    let run := [enqueueCall "a" "key" 1, claimCall "w" 1, claimByIDCall "v" 20]
    ((exec (watch plainHost) ⟨{}, ∅⟩ run).repo.outbox["a"]?).map
      (fun x => (x.attempts, x.maxAttempts)) = some (2, 1) := by
  decide +kernel

/-- A new intent comes under an id that is not in use. -/
def Repository.spares (r : Repository) : Call → Bool
  | .enqueueOutbox record clock =>
    !record.trimmed.complete || (r.enqueued record.trimmed).isSome ||
      (r.outbox[enqueueID record clock]?).isNone
  | _ => true

/-- No two records have the plan and the key in common. -/
def OneForEach (outbox : GoMap OutboxRecord) : Prop :=
  ∀ (k k' : String) x x', outbox[k]? = some x → outbox[k']? = some x' → x.scope = x'.scope → k = k'

def Retains (outbox outbox' : GoMap OutboxRecord) : Prop :=
  ∀ (k : String) x, outbox[k]? = some x → ∃ y, outbox'[k]? = some y ∧ y.intent = x.intent

theorem Retains.refl (outbox : GoMap OutboxRecord) : Retains outbox outbox :=
  fun _ x hx => ⟨x, hx, rfl⟩

theorem Retains.trans (h : Retains a b) (h' : Retains b c) :
    Retains a c := by
  intro k x hx
  obtain ⟨y, hy, hyx⟩ := h k x hx
  obtain ⟨z, hz, hzy⟩ := h' k y hy
  exact ⟨z, hz, hzy.trans hyx⟩

theorem Retains.set (hitem : outbox[id]? = some item) (hx : x.intent = item.intent) :
    Retains outbox (outbox.insert id x) := by
  intro k y hy
  rw [GoMap.get_set]
  split
  · rename_i hk
    rw [← hk, hitem] at hy
    cases hy
    exact ⟨x, rfl, hx⟩
  · exact ⟨y, hy, rfl⟩

theorem OneForEach.set (h : OneForEach outbox) (hitem : outbox[id]? = some item)
    (hx : x.intent = item.intent) : OneForEach (outbox.insert id x) := by
  -- Each of the two records has a record of the same intent where it was before.
  have hold (k : String) (y : OutboxRecord) (hy : (outbox.insert id x)[k]? = some y) :
      ∃ z, outbox[k]? = some z ∧ z.scope = y.scope := by
    rw [GoMap.get_set] at hy
    split at hy
    · rename_i hk
      rw [← hk, ← Option.some.inj hy]
      exact ⟨item, hitem, (OutboxRecord.scope_of_intent hx).symm⟩
    · exact ⟨y, hy, rfl⟩
  intro k k' y y' hy hy' hscope
  obtain ⟨z, hz, hzs⟩ := hold k y hy
  obtain ⟨z', hz', hzs'⟩ := hold k' y' hy'
  exact h k k' z z' hz hz' (by rw [hzs, hzs', hscope])

theorem OneForEach.erase (h : OneForEach outbox) : OneForEach (outbox.erase id) := by
  intro k k' x x' hx hx' hscope
  rw [GoMap.get_delete] at hx hx'
  split at hx
  · cases hx
  · split at hx'
    · cases hx'
    · exact h k k' x x' hx hx' hscope

theorem enqueued_none (h : r.enqueued record = none) (hx : r.outbox[k]? = some x) :
    x.scope ≠ record.scope := by
  simp only [Repository.enqueued, Option.map_eq_none_iff] at h
  simpa using GoMap.find_none.mp h k x hx

theorem stored_scope (record : OutboxRecord) :
    (Repository.stored H record clock).scope = record.trimmed.scope := by
  obtain ⟨payload, h⟩ := OutboxRecord.stored_eq
  rw [h]
  rfl

theorem oneForEach_outcome (hkeyed : Keyed r.outbox) (hone : OneForEach r.outbox)
    (hout : Outcome H r c out box) : Keyed box ∧ OneForEach box := by
  cases hout with
  | quiet claims creates settles => exact ⟨hkeyed, hone⟩
  | @created record clock call complete fresh =>
    refine ⟨GoMap.forall_set hkeyed (stored_id record), ?_⟩
    -- No stored record has the scope of the new one.
    intro k k' x x' hx hx' hscope
    rw [GoMap.get_set] at hx hx'
    split at hx <;> split at hx'
    · rename_i hk hk'
      exact hk.symm.trans hk'
    · rw [← Option.some.inj hx, stored_scope] at hscope
      exact absurd hscope.symm (enqueued_none fresh hx')
    · rw [← Option.some.inj hx', stored_scope] at hscope
      exact absurd hscope (enqueued_none fresh hx)
    · exact hone k k' x x' hx hx' hscope
  | dropped call complete fresh =>
    refine ⟨fun k x hx => ?_, hone.erase⟩
    rw [GoMap.get_delete] at hx
    split at hx
    · cases hx
    · exact hkeyed k x hx
  | @claimed id owner ttl now item time settles found open_ free spent =>
    rw [hkeyed id item found]
    exact ⟨GoMap.forall_set hkeyed (hkeyed id item found), hone.set found rfl⟩
  | @settled id owner now item x time call found leased owned running intent ended attempts =>
    rw [hkeyed id item found]
    refine ⟨GoMap.forall_set hkeyed ?_, hone.set found intent⟩
    rw [OutboxRecord.id_of_intent intent, hkeyed id item found]

theorem retains_outcome (hkeyed : Keyed r.outbox) (hok : r.spares c = true)
    (hout : Outcome H r c out box) : Retains r.outbox box := by
  have hfree {record : OutboxRecord} {clock : EnqueueClock} (call : c = .enqueueOutbox record clock)
      (complete : record.trimmed.complete = true) (fresh : r.enqueued record.trimmed = none) :
      r.outbox[enqueueID record clock]? = none := by
    rw [call] at hok
    simpa [Repository.spares, complete, fresh] using hok
  cases hout with
  | quiet claims creates settles => exact .refl _
  | created call complete fresh =>
    intro k x hx
    rw [GoMap.get_set_ne (ne_of_fresh (hfree call complete fresh) hx)]
    exact ⟨x, hx, rfl⟩
  | dropped call complete fresh =>
    rw [GoMap.erase_of_none (hfree call complete fresh)]
    exact .refl _
  | @claimed id owner ttl now item time settles found open_ free spent =>
    rw [hkeyed id item found]
    exact .set found rfl
  | @settled id owner now item x time call found leased owned running intent ended attempts =>
    rw [hkeyed id item found]
    exact .set found intent

theorem oneForEach_step (h : Keyed r.outbox ∧ OneForEach r.outbox) :
    Keyed (step H r q).outbox ∧ OneForEach (step H r q).outbox :=
  oneForEach_outcome h.1 h.2 (perform_outcome h.1 q)

theorem oneForEach_exec (h : Keyed r.outbox ∧ OneForEach r.outbox) (run : List Request) :
    Keyed (exec (step H) r run).outbox ∧ OneForEach (exec (step H) r run).outbox :=
  invariant (I := fun r : Repository => Keyed r.outbox ∧ OneForEach r.outbox) h
    (fun _ _ hs _ => oneForEach_step hs) meets_true

abbrev Spared (H : ControlHost) (r : Repository) (run : List Request) : Prop :=
  Meets (step H) (fun r q => r.spares q.call = true) r run

theorem retains_exec (h : Keyed r.outbox ∧ OneForEach r.outbox) (hrun : Spared H r run) :
    Retains r.outbox (exec (step H) r run).outbox :=
  related (I := fun r : Repository => Keyed r.outbox ∧ OneForEach r.outbox)
    (R := fun r r' : Repository => Retains r.outbox r'.outbox) (fun _ => .refl _)
    (fun _ _ _ h₁ h₂ => Retains.trans h₁ h₂) h (fun _ _ hs _ => oneForEach_step hs)
    (fun _ q hs hok => retains_outcome hs.1 hok (perform_outcome hs.1 q)) hrun

theorem created_stored (hkeyed : Keyed r.outbox) (h : (perform H r q).1 = .ok (.enqueued x true)) :
    (step H r q).outbox[x.id]? = some x := by
  have hout := perform_outcome (H := H) hkeyed q
  show (perform H r q).2.outbox[x.id]? = some x
  rw [h] at hout
  generalize (perform H r q).2.outbox = box at hout
  cases hout with
  | quiet claims creates settles => exact absurd rfl (creates x)
  | created call complete fresh => rw [stored_id, GoMap.get_set, if_pos rfl]

theorem intents_kept (hempty : r.outbox = ∅) (run : List Request) :
    OneForEach (exec (step H) r run).outbox ∧
      (Spared H r run → ∀ before q after x, run = before ++ q :: after →
        (perform H (exec (step H) r before) q).1 = .ok (.enqueued x true) →
        ∃ y, (exec (step H) r run).outbox[x.id]? = some y ∧ y.intent = x.intent) := by
  have h0 : Keyed r.outbox ∧ OneForEach r.outbox := by
    rw [hempty]
    exact ⟨fun k x hx => by simp at hx, fun k k' x x' hx => by simp at hx⟩
  refine ⟨(oneForEach_exec h0 run).2, ?_⟩
  rintro hrun before q after x rfl hq
  obtain ⟨hbefore, -, hafter⟩ := meets_append.mp hrun
  have hinv := oneForEach_exec (H := H) h0 before
  have hkept := retains_exec (oneForEach_step hinv) hafter
  rw [exec_append]
  exact hkept x.id x (created_stored hinv.1 hq)

/-- An intent stays while others come, one of them without its snapshot. -/
theorem delivered_intent_kept :
    let run := [enqueueCall "a" "key" 2, enqueueCall "b" "other" 2 (some (errorNew "disk")),
      claimCall "w" 1, ackCall "w" 5 none]
    OneForEach (exec (step plainHost) { durable := true } run).outbox ∧
      ∃ y, (exec (step plainHost) { durable := true } run).outbox["a"]? = some y ∧
        y.intent = (Repository.stored plainHost
          { id := "a", planID := "plan", workspaceID := "workspace", kind := "kind",
            idempotencyKey := "key", maxAttempts := 2, createdAt := 1 } ⟨1, 1⟩).intent := by
  have hrun : Spared plainHost { durable := true }
      [enqueueCall "a" "key" 2, enqueueCall "b" "other" 2 (some (errorNew "disk")),
        claimCall "w" 1, ackCall "w" 5 none] := by
    decide +kernel
  exact ⟨(intents_kept rfl _).1, (intents_kept rfl _).2 hrun [] _ _ _ rfl rfl⟩

def Answer.created : Answer → Bool
  | .enqueued _ created => created
  | _ => false

/-- An intent with another's id replaces it, or deletes it when it cannot be saved. -/
theorem intent_lost :
    let first := perform plainHost { durable := true } (enqueueCall "a" "key" 2)
    let replaced := exec (step plainHost) { durable := true }
      [enqueueCall "a" "key" 2, enqueueCall "a" "other" 2]
    let deleted := exec (step plainHost) { durable := true }
      [enqueueCall "a" "key" 2, enqueueCall "a" "other" 2 (some (errorNew "disk"))]
    (first.1.toOption.map (·.created) = some true ∧
        (first.2.outbox["a"]?).map (·.idempotencyKey) = some "key") ∧
      (replaced.outbox["a"]?).map (·.idempotencyKey) = some "other" ∧
      (deleted.outbox["a"]?).isNone := by
  decide +kernel

end Adro.Control
