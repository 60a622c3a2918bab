import Adro.Harness.Atomic
import Adro.Lib.Grow

/-!
# Who holds a lease or an event

What one call can do to the leases and the outbox of a session, and what follows
for runs of calls by any number of owners: a key has one open entry, an entry
that has not expired stays with its owner, an owner that lost it cannot use it,
and a published event stays as it is.

A version is an `int64` that every grant, renewal and release raises by one; at
the last version it wraps. The clock may go back.
-/

namespace Adro.Harness

open Adro.Go Adro.Runs

variable {c : Call} {state next : SessionState} {l l' : Lease} {e e' : OutboxEvent}
  {effect : Effect Lease} {run : List Call}

def Lease.openKey (l : Lease) : Option Bytes := if l.state = .released then none else some l.key

/-- A key has one open entry at most. A version is an `int64`. -/
structure Exclusive (state : SessionState) : Prop where
  openKeys : (state.leases.filterMap Lease.openKey).Nodup
  versions : ∀ l ∈ state.leases, -2 ^ 63 ≤ l.version

def Call.time : Call → Option Time
  | .acquireLease _ _ _ _ now stamp => some (effective now stamp.time)
  | .enqueueAndClaimOutbox _ _ _ _ _ now stamp => some (effective now stamp.time)
  | .claimOutbox _ _ _ _ now reading => some (effective now reading)
  | .recover _ now reading => some (effective now reading)
  | _ => none

/-- The call is the acknowledgement or the refusal of an event by its owner. -/
def Call.Settles (e : OutboxEvent) : Call → Prop
  | .ackOutbox _ eventID owner _ _ => eventID = e.id ∧ owner = e.owner
  | .nackOutbox _ eventID owner _ _ => eventID = e.id ∧ owner = e.owner
  | _ => False

/-- How a call may change an entry: its owner only when it has expired. -/
structure Lease.Follows (c : Call) (l l' : Lease) : Prop where
  id : l'.id = l.id
  key : l'.key = l.key
  version : l.version ≤ l'.version
  handed : l'.owner ≠ l.owner → ∃ now ∈ c.time, l.expiresAt ≤ now

/-- How a call may change an event: never once it is published, and while it is processed only
for its owner or when the owner held it too long. -/
structure OutboxEvent.Follows (c : Call) (e e' : OutboxEvent) : Prop where
  id : e'.id = e.id
  key : e'.idempotencyKey = e.idempotencyKey
  payload : e'.payload = e.payload
  published : e.state = .published → e' = e
  processing : e.state = .processing → e' = e ∨ c.Settles e ∨ ∃ now ∈ c.time, e.leaseUntil ≤ now

theorem Lease.Follows.refl (c : Call) (l : Lease) : Lease.Follows c l l :=
  ⟨rfl, rfl, le_rfl, fun h => absurd rfl h⟩

theorem OutboxEvent.Follows.refl (c : Call) (e : OutboxEvent) : OutboxEvent.Follows c e e :=
  ⟨rfl, rfl, rfl, fun _ => rfl, fun _ => .inl rfl⟩

structure Moves (c : Call) (state next : SessionState) : Prop where
  leases : Grows (Lease.Follows c) state.leases next.leases
  outbox : Grows (OutboxEvent.Follows c) state.outbox next.outbox
  exclusive : Exclusive state → Exclusive next

theorem moves_same (hleases : next.leases = state.leases) (houtbox : next.outbox = state.outbox) :
    Moves c state next := by
  refine ⟨?_, ?_, ?_⟩
  · rw [hleases]
    exact .refl (Lease.Follows.refl c) _
  · rw [houtbox]
    exact .refl (OutboxEvent.Follows.refl c) _
  · rintro ⟨hkeys, hversions⟩
    exact ⟨hleases ▸ hkeys, hleases ▸ hversions⟩

theorem Moves.refl (c : Call) (state : SessionState) : Moves c state state := moves_same rfl rfl

theorem Keeps.moves (h : Keeps state next) : Moves c state next := moves_same h.leases h.outbox

/-- The entry that a call grants, renews or releases. -/
def Call.entry (state : SessionState) : Call → Option Lease
  | .acquireLease _ key _ _ _ _ => state.leases.find? (Lease.isFor key)
  | .releaseLease _ leaseID _ _ _ => state.leases.find? (·.id == leaseID)
  | .heartbeatLease _ leaseID _ _ _ _ => state.leases.find? (·.id == leaseID)
  | _ => none

theorem version_next (hlow : -2 ^ 63 ≤ l.version) (h : l.version < maxInt64) :
    l.version ≤ i64 (l.version + 1) := by
  rw [i64_eq (by omega) (by omega)]
  omega

theorem i64_low : -2 ^ 63 ≤ i64 n := by
  unfold i64
  omega

theorem isFor_openKey (h : Lease.isFor key l = true) : l.openKey = some key := by
  simp only [Lease.isFor, Bool.and_eq_true, beq_iff_eq, bne_iff_ne] at h
  rw [Lease.openKey, if_neg h.2, h.1]

theorem moves_withLease (hf : ∀ l, state.leases.find? test = some l → Lease.Follows c l (f l))
    (hkey : ∀ l ∈ state.leases, test l = true → (f l).openKey = none ∨ (f l).openKey = l.openKey)
    (hlow : ∀ l, -2 ^ 63 ≤ (f l).version) : Moves c state (state.withLease test f) := by
  refine ⟨.of_forall₂ (forall₂_modifyFirst (Lease.Follows.refl c) hf),
    .refl (OutboxEvent.Follows.refl c) _, ?_⟩
  rintro ⟨hkeys, hversions⟩
  exact ⟨hkeys.sublist (filterMap_modifyFirst hkey), forall_modifyFirst hversions fun l _ => hlow l⟩

theorem Moves.touch (h : Moves c state next) (now : Time) : Moves c state (next.touch now) :=
  ⟨h.leases, h.outbox, fun hex => ⟨(h.exclusive hex).openKeys, (h.exclusive hex).versions⟩⟩

section

variable {id key owner : Bytes} {ttl : Duration}

theorem acquireLease_moves (hex : Exclusive state)
    (hentry : ∀ l ∈ (Call.acquireLease id key owner ttl now stamp).entry state,
      l.version < maxInt64)
    (h : acquireLease state id key owner ttl now stamp = .ok effect) :
    effect.Writes fun next undo _ =>
      Moves (.acquireLease id key owner ttl now stamp) state next ∧
        Moves (.acquireLease id key owner ttl now stamp) state undo := by
  rcases acquireLease_ok h with ⟨l, hl, hfree, rfl⟩ | ⟨hnone, rfl⟩
  · refine effectWrites_write.2 ⟨moves_withLease ?_ ?_ fun l => i64_low, .refl _ _⟩
    · intro l₁ hl₁
      rw [hl] at hl₁
      cases hl₁
      refine ⟨rfl, rfl, version_next (hex.versions l (List.mem_of_find?_eq_some hl))
        (hentry l hl), ?_⟩
      intro howner
      refine ⟨_, rfl, Int.not_lt.1 fun hlive => ?_⟩
      exact howner (hfree hlive).symm
    · intro l₁ _ htest
      right
      rw [isFor_openKey htest]
      simp only [Lease.isFor, Bool.and_eq_true, beq_iff_eq] at htest
      rw [← htest.1]
      rfl
  · refine effectWrites_write.2 ⟨?_, (Moves.refl _ _).touch _⟩
    refine ⟨.append (Lease.Follows.refl _) _ _, .refl (OutboxEvent.Follows.refl _) _, ?_⟩
    rintro ⟨hkeys, hversions⟩
    constructor
    · -- The loop passed every entry, so none of the key is open.
      have hnew : key ∉ state.leases.filterMap Lease.openKey := by
        intro hmem
        obtain ⟨l, hl, hopen⟩ := List.mem_filterMap.1 hmem
        have htest := List.find?_eq_none.1 hnone l hl
        unfold Lease.openKey at hopen
        split at hopen
        · cases hopen
        · next hstate =>
          cases hopen
          exact htest (by simp [Lease.isFor, hstate])
      rw [List.filterMap_append]
      exact hkeys.append (List.nodup_singleton _) (List.disjoint_singleton.2 hnew)
    · intro l hl
      rcases List.mem_append.1 hl with hl | hl
      · exact hversions l hl
      · cases List.mem_singleton.1 hl
        exact show (-2 ^ 63 : Int) ≤ 1 by decide

theorem moves_ownLease (hex : Exclusive state)
    (hentry : ∀ l ∈ state.leases.find? (·.id == leaseID), l.version < maxInt64)
    (hf : ∀ l, (f l).id = l.id ∧ (f l).key = l.key ∧ (f l).owner = l.owner ∧
      (f l).version = i64 (l.version + 1))
    (hkey : ∀ l, (f l).openKey = none ∨ (f l).openKey = l.openKey) :
    Moves c state (state.withLease (·.id == leaseID) f) := by
  refine moves_withLease (fun l hl => ?_) (fun l _ _ => hkey l) fun l => (hf l).2.2.2 ▸ i64_low
  obtain ⟨hid, hsame, howner, hversion⟩ := hf l
  refine ⟨hid, hsame, ?_, fun hother => absurd howner hother⟩
  rw [hversion]
  exact version_next (hex.versions l (List.mem_of_find?_eq_some hl)) (hentry l hl)

end

theorem moves_outbox
    (h : Grows (OutboxEvent.Follows c) state.outbox outbox) : Moves c state { state with outbox } :=
  ⟨.refl (Lease.Follows.refl c) _, h, fun hex => ⟨hex.openKeys, hex.versions⟩⟩

theorem moves_withEvent
    (he : state.outbox.find? test = some e) (hf : OutboxEvent.Follows c e (f e)) :
    Moves c state (state.withEvent test f) := by
  refine moves_outbox (.of_forall₂
    (forall₂_modifyFirst (OutboxEvent.Follows.refl c) fun e' he' => ?_))
  rw [he] at he'
  cases he'
  exact hf

theorem moves_addEvent : Moves c state (state.addEvent e now) :=
  (moves_outbox (.append (OutboxEvent.Follows.refl c) _ _)).touch now

theorem follows_claim (hnow : c.time = some now)
    (h : e.Claimable now) : OutboxEvent.Follows c e (e.claim owner ttl now) := by
  refine ⟨rfl, rfl, rfl, fun hpublished => ?_, fun hprocessing => ?_⟩
  · rcases h with ⟨hstate, -⟩ | ⟨hstate, -⟩
    · rw [hstate] at hpublished
      cases hpublished
    · rw [hstate] at hpublished
      cases hpublished
  · rcases h with ⟨hstate, -⟩ | ⟨-, hover⟩
    · rw [hstate] at hprocessing
      cases hprocessing
    · exact .inr (.inr ⟨now, hnow, hover⟩)

theorem claimEvents_follow (hnow : c.time = some now) :
    ∀ (limit : Nat) (outbox : List OutboxEvent),
      List.Forall₂ (OutboxEvent.Follows c) outbox (claimEvents owner ttl now limit outbox).1
  | _, [] => .nil
  | limit, e :: rest => by
    unfold claimEvents
    split
    · exact .cons (.refl c e) (claimEvents_follow hnow limit rest)
    · next hdue =>
      simp only [not_or, not_not, Int.not_lt] at hdue
      exact .cons (follows_claim hnow (.inl ⟨hdue.2.1, hdue.2.2⟩)) (claimEvents_follow hnow _ rest)

theorem follows_publish (hopen : e.state ≠ .published)
    (h : e.state = .processing → c.Settles e) : OutboxEvent.Follows c e (e.publish now) :=
  ⟨rfl, rfl, rfl, fun hpublished => absurd hpublished hopen, fun hstate => .inr (.inl (h hstate))⟩

theorem follows_expire (hnow : c.time = some now) : OutboxEvent.Follows c e (e.expire now) := by
  unfold OutboxEvent.expire
  split
  · next hover =>
    simp only [OutboxEvent.isExpired, Bool.and_eq_true, beq_iff_eq, decide_eq_true_eq] at hover
    refine ⟨rfl, rfl, rfl, fun hpublished => ?_, fun _ => .inr (.inr ⟨now, hnow, hover.2⟩)⟩
    rw [hover.1] at hpublished
    cases hpublished
  · exact .refl c e

theorem expire_follows : Lease.Follows c l (l.expire now) := by
  unfold Lease.expire
  split
  · exact ⟨rfl, rfl, le_rfl, fun howner => absurd rfl howner⟩
  · exact .refl c l

theorem expire_openKey : (l.expire now).openKey = l.openKey := by
  unfold Lease.expire
  split
  · next hover =>
    simp only [Lease.isExpired, Bool.and_eq_true, beq_iff_eq] at hover
    simp [Lease.openKey, hover.1]
  · rfl

theorem expire_version : (l.expire now).version = l.version := by
  unfold Lease.expire
  split <;> rfl

theorem recover_moves (hnow : c.time = some now) :
    Moves c state { state with
      leases := state.leases.map (Lease.expire now)
      outbox := state.outbox.map (OutboxEvent.expire now) } := by
  refine ⟨.of_forall₂ (forall₂_map fun l _ => expire_follows),
    .of_forall₂ (forall₂_map fun e _ => follows_expire hnow), ?_⟩
  rintro ⟨hkeys, hversions⟩
  constructor
  · have hsame : (state.leases.map (Lease.expire now)).filterMap Lease.openKey =
        state.leases.filterMap Lease.openKey := by
      rw [List.filterMap_map]
      exact List.filterMap_congr fun l _ => expire_openKey
    exact hsame ▸ hkeys
  · intro l' hl'
    obtain ⟨l, hl, rfl⟩ := List.mem_map.1 hl'
    rw [expire_version]
    exact hversions l hl

variable {p : Platform} {cfg : Config} {δ : Type} {io : Storage δ} {s : Store}

/-- The entry that the call grants, renews or releases is not at the last version. -/
def Counts (s : Store) (c : Call) : Prop :=
  ∀ state ∈ s.sessions[c.sessionID]?, ∀ l ∈ c.entry state, l.version < maxInt64

instance decidableCounts (s : Store) (c : Call) : Decidable (Counts s c) :=
  inferInstanceAs (Decidable (∀ state ∈ s.sessions[c.sessionID]?, ∀ l ∈ c.entry state,
    l.version < maxInt64))

/-- What a call writes, and what it puts back, moves the sessions. -/
abbrev PlanMoves {α : Type} (c : Call) (s : Store) (plan : Plan α) : Prop :=
  plan.Writes fun next undo _ _ => Advances (Moves c) s next ∧ Advances (Moves c) s undo

theorem planMoves_session {id : Bytes} (hstate : s.sessions[id]? = some state)
    (h : Moves c state next) :
    Advances (Moves c) s (s.setSession id next) :=
  advances_setSession (Moves.refl c) rfl hstate h

theorem planMoves_operate {id : Bytes} {f : SessionState → Except Error (Effect α)}
    (h : ∀ state effect, s.sessions[id]? = some state → f state = .ok effect →
      effect.Writes fun next undo _ => Moves c state next ∧ Moves c state undo) :
    PlanMoves c s (s.operate id f) := by
  apply writes_operate
  intro state effect hstate heffect
  rintro next undo context a rfl
  obtain ⟨hnext, hundo⟩ := h state _ hstate heffect _ _ _ _ rfl
  exact ⟨planMoves_session hstate hnext, planMoves_session hstate hundo⟩

theorem addedMemory_moves {id : Bytes} (hstate : s.sessions[id]? = some state) :
    Advances (Moves c) s (addedMemory s id state item).1 ∧
      Advances (Moves c) s (addedMemory s id state item).2 := by
  unfold addedMemory
  split
  · exact ⟨advances_setSession (Moves.refl c) rfl hstate (moves_same rfl rfl),
      advances_setSession (Moves.refl c) rfl hstate (moves_same rfl rfl)⟩
  · exact ⟨planMoves_session hstate (moves_same rfl rfl),
      planMoves_session hstate (moves_same rfl rfl)⟩

theorem planMoves_addMemory :
    PlanMoves c s (s.addMemory p item now stamp) := by
  apply writes_onSession
  intro state plan hstate hplan
  obtain ⟨existing | added, -, hplan⟩ := bind_ok.1 hplan
  · cases pure_ok.1 hplan
    exact writes_keep
  · cases pure_ok.1 hplan
    exact writes_write.2 (addedMemory_moves hstate)

theorem transitionStores_moves {id memoryID : Bytes} {next undo : Store}
    (hstate : s.sessions[id]? = some state)
    (h : transitionStores s id memoryID state change now = some (target, next, undo)) :
    Advances (Moves c) s next ∧ Advances (Moves c) s undo := by
  unfold transitionStores at h
  simp only at h
  split at h
  · cases h
    exact ⟨planMoves_session hstate (moves_same rfl rfl), .refl (Moves.refl c) s⟩
  · obtain ⟨m, -, hm⟩ := Option.map_eq_some_iff.1 h
    cases hm
    refine ⟨advances_setSession (Moves.refl c) rfl hstate (moves_same rfl rfl), ?_⟩
    exact ⟨(Advances.refl (Moves.refl c) s).kept, (Advances.refl (Moves.refl c) s).born⟩

theorem plan_moves (hex : s.Every Exclusive) (hcounts : Counts s c) :
    PlanMoves c s (plan p cfg s c) := by
  cases c
  case createSession | appendTurn | recordToolCall | saveCheckpoint | compact =>
    refine (plan_records rfl).imp ?_
    rintro _ _ _ _ ⟨hnext, rfl, -⟩
    exact ⟨hnext.advances (Moves.refl _) fun _ _ hkeeps => hkeeps.moves, .refl (Moves.refl _) _⟩
  all_goals simp only [plan]
  case addMemory => exact writes_map.2 planMoves_addMemory
  case transitionMemory =>
    refine writes_map.2 (transitionMemory_ok ?_)
    intro state target next undo hstate hstores
    exact transitionStores_moves hstate hstores
  all_goals refine writes_map.2 (planMoves_operate ?_)
  all_goals intro state effect hstate heffect
  case acquireLease =>
    exact acquireLease_moves (hex _ state hstate) (hcounts state hstate) heffect
  case releaseLease =>
    obtain ⟨l, -, -, -, rfl⟩ := releaseLease_ok heffect
    refine effectWrites_write.2 ⟨.touch ?_ _, .refl _ _⟩
    exact moves_ownLease (hex _ state hstate) (hcounts state hstate) (fun l => ⟨rfl, rfl, rfl, rfl⟩)
      fun l => .inl (if_pos rfl)
  case heartbeatLease =>
    obtain ⟨l, -, -, -, -, rfl⟩ := heartbeatLease_ok heffect
    refine effectWrites_write.2 ⟨.touch ?_ _, .refl _ _⟩
    exact moves_ownLease (hex _ state hstate) (hcounts state hstate) (fun l => ⟨rfl, rfl, rfl, rfl⟩)
      fun l => .inr rfl
  case enqueueOutbox =>
    obtain ⟨data, -, ⟨e, -, -, rfl⟩ | ⟨-, rfl⟩⟩ := enqueueOutbox_ok heffect
    · exact effectWrites_keep
    · exact effectWrites_write.2 ⟨moves_addEvent, (Moves.refl _ _).touch _⟩
  case enqueueAndClaimOutbox =>
    obtain ⟨data, -, ⟨e, he, -, ⟨-, rfl⟩ | ⟨-, -, rfl⟩ | rfl | ⟨hclaim, rfl⟩⟩ | ⟨-, rfl⟩⟩ :=
      enqueueAndClaimOutbox_ok heffect
    · exact effectWrites_keep
    · exact effectWrites_keep
    · exact effectWrites_keep
    · exact effectWrites_write.2 ⟨(moves_withEvent he (follows_claim rfl hclaim)).touch _,
        .refl _ _⟩
    · exact effectWrites_write.2 ⟨moves_addEvent, (Moves.refl _ _).touch _⟩
  case claimOutbox =>
    rcases claimOutbox_ok heffect with rfl | rfl
    · exact effectWrites_keep
    · refine effectWrites_write.2 ⟨(moves_outbox (.of_forall₂ ?_)).touch _, .refl _ _⟩
      exact claimEvents_follow rfl _ _
  case ackOutbox id eventID owner now reading =>
    obtain ⟨e, he, ⟨-, rfl⟩ | ⟨hopen, hallowed, rfl⟩⟩ := publishOutbox_ok heffect
    · exact effectWrites_keep
    · refine effectWrites_write.2 ⟨(moves_withEvent he ?_).touch _, .refl _ _⟩
      simp only [Bool.and_eq_true, beq_iff_eq] at hallowed
      have hid : e.id = eventID := by simpa using List.find?_some he
      exact follows_publish hopen fun _ => ⟨hid.symm, hallowed.2.symm⟩
  case completeOutbox =>
    obtain ⟨e, he, ⟨-, rfl⟩ | ⟨hopen, hallowed, rfl⟩⟩ := publishOutbox_ok heffect
    · exact effectWrites_keep
    · refine effectWrites_write.2 ⟨(moves_withEvent he ?_).touch _, .refl _ _⟩
      simp only [beq_iff_eq] at hallowed
      refine follows_publish hopen fun hprocessing => ?_
      rw [hallowed] at hprocessing
      cases hprocessing
  case nackOutbox id eventID owner retryAt reading =>
    obtain ⟨e, he, hprocessing, howner, rfl⟩ := nackOutbox_ok heffect
    refine effectWrites_write.2 ⟨moves_withEvent he ?_, .refl _ _⟩
    have hid : e.id = eventID := by simpa using List.find?_some he
    refine ⟨rfl, rfl, rfl, fun hpublished => ?_, fun _ => .inr (.inl ⟨hid.symm, howner.symm⟩)⟩
    rw [hprocessing] at hpublished
    cases hpublished
  case recover =>
    obtain ⟨-, heffect⟩ := then_ok.1 heffect
    cases pure_ok.1 heffect
    exact recoverSession_writes fun _ => ⟨(recover_moves rfl).touch _, .refl _ _⟩

variable {w : World δ}

section
variable (hex : w.store.Every Exclusive)
include hex

theorem step_moves (hcounts : Counts w.store c) :
    Advances (Moves c) w.store (step p cfg io w c).store :=
  perform_store (plan_moves hex hcounts) (.refl (Moves.refl c) _)

theorem step_exclusive (hcounts : Counts w.store c) :
    (step p cfg io w c).store.Every Exclusive := by
  refine (step_moves hex hcounts).every hex (fun _ _ hstate h => h.exclusive hstate)
    fun session => ?_
  exact ⟨List.nodup_nil, nofun⟩

theorem exec_exclusive (hrun : Meets (step p cfg io) (fun w c => Counts w.store c) w run) :
    (exec (step p cfg io) w run).store.Every Exclusive :=
  invariant (I := fun w => w.store.Every Exclusive) hex (fun _ _ hw hc => step_exclusive hw hc) hrun

end

/-- A key has one entry at most that is not released. -/
def OneHolder (state : SessionState) : Prop :=
  ∀ key, (state.leases.filter (Lease.isFor key)).length ≤ 1

theorem Exclusive.oneHolder (h : Exclusive state) : OneHolder state := by
  intro key
  -- Each entry for the key is an open key, and open keys are distinct.
  have hcount : (state.leases.filter (Lease.isFor key)).length ≤
      (state.leases.filterMap Lease.openKey).count key := by
    rw [← List.countP_eq_length_filter, List.count, List.countP_filterMap]
    apply List.countP_mono_left
    intro l _ htest
    rw [isFor_openKey htest]
    simp
  exact hcount.trans (List.nodup_iff_count_le_one.1 h.openKeys key)

/-- What stays true of a session from any call to any later one. -/
structure Later (state next : SessionState) : Prop where
  leases : Grows (fun l l' => l'.id = l.id ∧ l'.key = l.key ∧ l.version ≤ l'.version)
    state.leases next.leases
  outbox : Grows (fun e e' => e'.id = e.id ∧ e'.idempotencyKey = e.idempotencyKey ∧
    (e.state = .published → e' = e)) state.outbox next.outbox

theorem Moves.later (h : Moves c state next) : Later state next :=
  ⟨h.leases.imp fun _ _ hl => ⟨hl.id, hl.key, hl.version⟩,
    h.outbox.imp fun _ _ he => ⟨he.id, he.key, he.published⟩⟩

theorem Later.refl (state : SessionState) : Later state state :=
  ⟨.refl (fun _ => ⟨rfl, rfl, le_rfl⟩) _, .refl (fun _ => ⟨rfl, rfl, fun _ => rfl⟩) _⟩

theorem Later.trans (h : Later state next) (h' : Later next last) :
    Later state last := by
  constructor
  · refine h.leases.trans ?_ h'.leases
    rintro l l' l'' ⟨hid, hkey, hversion⟩ ⟨hid', hkey', hversion'⟩
    exact ⟨hid'.trans hid, hkey'.trans hkey, hversion.trans hversion'⟩
  · refine h.outbox.trans ?_ h'.outbox
    rintro e e' e'' ⟨hid, hkey, hpublished⟩ ⟨hid', hkey', hpublished'⟩
    refine ⟨hid'.trans hid, hkey'.trans hkey, fun hstate => ?_⟩
    obtain rfl := hpublished hstate
    exact hpublished' hstate

/-- No session is lost between two stores, and each is a later one. -/
def Store.Before (s s' : Store) : Prop :=
  ∀ (id : Bytes) state, s.sessions[id]? = some state → ∃ next, s'.sessions[id]? = some next ∧
    Later state next

theorem exec_before (hex : w.store.Every Exclusive)
    (hrun : Meets (step p cfg io) (fun w c => Counts w.store c) w run) :
    w.store.Before (exec (step p cfg io) w run).store := by
  refine related (I := fun w => w.store.Every Exclusive) (R := fun w w' => w.store.Before w'.store)
    ?_ ?_ hex (fun _ _ hw hc => step_exclusive hw hc) ?_ hrun
  · intro w id state hstate
    exact ⟨state, hstate, .refl state⟩
  · intro w₁ w₂ w₃ h h' id state hstate
    obtain ⟨next, hnext, hlater⟩ := h id state hstate
    obtain ⟨last, hlast, hlater'⟩ := h' id next hnext
    exact ⟨last, hlast, hlater.trans hlater'⟩
  · intro w c hw hc id state hstate
    obtain ⟨next, hnext, hmoves⟩ := (step_moves hw hc).kept id state hstate
    exact ⟨next, hnext, hmoves.later⟩

def HoldsLease (s : Store) (id leaseID owner : Bytes) (P : Lease → Prop) : Prop :=
  ∃ state l, s.sessions[id]? = some state ∧ state.leases.find? (·.id == leaseID) = some l ∧
    l.owner = owner ∧ l.state = .held ∧ P l

def HasEvent (s : Store) (id eventID : Bytes) (P : OutboxEvent → Prop) : Prop :=
  ∃ state e, s.sessions[id]? = some state ∧ state.outbox.find? (·.id == eventID) = some e ∧ P e

/-- Who may use a lease or an event: every other call fails and changes nothing. An event that is
published can be acknowledged by anyone, which changes nothing either. -/
def OnlyHolder (s : Store) (reply : Except Error Reply) (s' : Store) : Call → Prop
  | .heartbeatLease id leaseID owner _ now reading | .releaseLease id leaseID owner now reading =>
    (∃ e, reply = .error e ∧ s' = s) ∨
      HoldsLease s id leaseID owner fun l => effective now reading < l.expiresAt
  | .ackOutbox id eventID owner now reading =>
    (∃ e, reply = .error e ∧ s' = s) ∨
      HasEvent s id eventID fun e =>
        (e.state = .processing ∧ e.owner = owner ∧ effective now reading < e.leaseUntil) ∨
          (e.state = .published ∧ s' = s)
  | .nackOutbox id eventID owner _ reading =>
    (∃ e, reply = .error e ∧ s' = s) ∨
      HasEvent s id eventID fun e =>
        e.state = .processing ∧ e.owner = owner ∧ reading < e.leaseUntil
  | _ => True

/-- An owner releases, acknowledges or refuses only before its time is over. -/
def InTime (s : Store) : Call → Prop
  | .releaseLease id leaseID owner now reading =>
    ∀ state ∈ s.sessions[id]?, ∀ l ∈ state.leases.find? (·.id == leaseID),
      l.owner = owner → l.state = .held → effective now reading < l.expiresAt
  | .ackOutbox id eventID owner now reading =>
    ∀ state ∈ s.sessions[id]?, ∀ e ∈ state.outbox.find? (·.id == eventID),
      e.owner = owner → e.state = .processing → effective now reading < e.leaseUntil
  | .nackOutbox id eventID owner _ reading =>
    ∀ state ∈ s.sessions[id]?, ∀ e ∈ state.outbox.find? (·.id == eventID),
      e.owner = owner → e.state = .processing → reading < e.leaseUntil
  | _ => True

instance decidableInTime (s : Store) (c : Call) : Decidable (InTime s c) := by
  unfold InTime
  split <;> infer_instance

theorem operate_ok {id : Bytes} (h : (w.perform io ((w.store.operate id f).map g)).1 = .ok b) :
    ∃ state effect, w.store.sessions[id]? = some state ∧ f state = .ok effect ∧
      ∀ a, effect = .keep a → (w.perform io ((w.store.operate id f).map g)).2.store = w.store := by
  unfold Store.operate Store.onSession at h ⊢
  cases hstate : w.store.sessions[id]? with
  | none =>
    rw [hstate] at h
    cases h
  | some state =>
    rw [hstate] at h
    cases heffect : f state with
    | error e =>
      simp only [heffect] at h
      cases h
    | ok effect =>
      refine ⟨state, effect, rfl, heffect, ?_⟩
      rintro a rfl
      simp only [heffect]
      rfl

theorem operate_failed (hrecords : c.records = false) (hremembers : c.remembers = false)
    (hadds : ∀ state, c.adds state = false) {e : Error} (h : (respond p cfg io w c).1 = .error e) :
    (step p cfg io w c).store = w.store := by
  refine (perform_failed (plan_grows c)).2 ⟨not_unlogged ?_, fun _ => ?_⟩ e h
  · exact (plan_operates hrecords hremembers).imp fun _ _ _ _ hop => hop.1
  · refine (plan_undoes c).imp fun _ _ _ _ hundo => hundo.2 fun state _ => ?_
    exact (undoes_iff hremembers).2 fun hadded => absurd ((hadds state).symm.trans hadded) nofun

theorem onlyHolder (h : InTime w.store c) :
    OnlyHolder w.store (respond p cfg io w c).1 (step p cfg io w c).store c := by
  cases hr : (respond p cfg io w c).1 with
  | error e =>
    cases c
    case heartbeatLease | releaseLease | ackOutbox | nackOutbox =>
      exact .inl ⟨e, rfl, operate_failed rfl rfl (fun _ => rfl) hr⟩
    all_goals trivial
  | ok reply =>
    cases c
    case heartbeatLease =>
      obtain ⟨state, effect, hstate, heffect, -⟩ := operate_ok hr
      obtain ⟨l, hl, howner, hheld, hlive, -⟩ := heartbeatLease_ok heffect
      exact .inr ⟨state, l, hstate, hl, howner, hheld, hlive⟩
    case releaseLease =>
      obtain ⟨state, effect, hstate, heffect, -⟩ := operate_ok hr
      obtain ⟨l, hl, howner, hheld, -⟩ := releaseLease_ok heffect
      exact .inr ⟨state, l, hstate, hl, howner, hheld, h state hstate l hl howner hheld⟩
    case ackOutbox =>
      obtain ⟨state, effect, hstate, heffect, hkeep⟩ := operate_ok hr
      obtain ⟨e, he, ⟨hpublished, rfl⟩ | ⟨-, hallowed, -⟩⟩ := publishOutbox_ok heffect
      · exact .inr ⟨state, e, hstate, he, .inr ⟨hpublished, hkeep () rfl⟩⟩
      · simp only [Bool.and_eq_true, beq_iff_eq] at hallowed
        obtain ⟨hprocessing, howner⟩ := hallowed
        exact .inr ⟨state, e, hstate, he,
          .inl ⟨hprocessing, howner, h state hstate e he howner hprocessing⟩⟩
    case nackOutbox =>
      obtain ⟨state, effect, hstate, heffect, -⟩ := operate_ok hr
      obtain ⟨e, he, hprocessing, howner, -⟩ := nackOutbox_ok heffect
      exact .inr ⟨state, e, hstate, he, hprocessing, howner, h state hstate e he howner hprocessing⟩
    all_goals trivial

/-- In every run, before and after each call `c`: a key has one open entry; the call changes the
owner of a lease or of an event in process only when it has expired or for its owner; who does not
hold it cannot use it; and until the end of the run versions do not fall and published events do
not change. -/
theorem leases_and_outbox_exclusive (io : Storage δ) (w : World δ) (hex : w.store.Every Exclusive)
    (before after : List Call) (c : Call)
    (hrun : Meets (step p cfg io) (fun w c => Counts w.store c ∧ InTime w.store c) w
      (before ++ c :: after)) :
    let v := exec (step p cfg io) w before
    let v' := step p cfg io v c
    v.store.Every OneHolder ∧ v'.store.Every OneHolder ∧
      Advances (Moves c) v.store v'.store ∧
      OnlyHolder v.store (respond p cfg io v c).1 v'.store c ∧
      v.store.Before (exec (step p cfg io) v' after).store := by
  have hin := (meets_append.1 hrun).2.1.2
  obtain ⟨hbefore, hc, hafter⟩ := meets_append.1 (hrun.imp fun _ _ h => h.1)
  have hv := exec_exclusive hex hbefore
  have hv' : (step p cfg io _ c).store.Every Exclusive := step_exclusive hv hc
  refine ⟨fun id state h => (hv id state h).oneHolder, fun id state h => (hv' id state h).oneHolder,
    step_moves hv hc, onlyHolder hin, ?_⟩
  exact exec_before hv (show Meets _ _ _ (c :: after) from ⟨hc, hafter⟩)

def steadyDisk : Storage Unit := ⟨fun _ _ => (.ok (), ()), fun _ _ => (.ok (), ())⟩

def emptyWorld : World Unit := ⟨⟨∅, ∅⟩, ()⟩

def opening : List Call :=
  [.createSession { id := [49], tenantID := [49], workspaceID := [49] } ⟨[50], 1⟩,
   .acquireLease [49] [52] [53] 5 7 ⟨[51], 7⟩]

theorem emptyWorld_exclusive : emptyWorld.store.Every Exclusive := by
  intro id state h
  simp [emptyWorld] at h

/-- A second owner asks too early, waits, gets the lease, and the first one cannot renew it. -/
theorem second_owner_waits :
    let late : Call := .heartbeatLease [49] [51] [53] 5 13 13
    let v := exec (step plainPlatform plainConfig steadyDisk) emptyWorld
      (opening ++ [.acquireLease [49] [52] [54] 5 8 ⟨[55], 8⟩,
        .acquireLease [49] [52] [54] 5 12 ⟨[55], 12⟩])
    (v.store.sessions[([49] : Bytes)]?.map fun state => state.leases.map
      fun l => (l.owner, l.version)) =
        some [([54], 2)] ∧
      OnlyHolder v.store (respond plainPlatform plainConfig steadyDisk v late).1
        (step plainPlatform plainConfig steadyDisk v late).store late :=
  ⟨by decide +kernel,
    (leases_and_outbox_exclusive steadyDisk emptyWorld emptyWorld_exclusive _ [] _
      (by decide +kernel)).2.2.2.1⟩

/-- The lease and the claimed event of one owner, until 12. -/
def held : World Unit :=
  exec (step plainPlatform plainConfig steadyDisk) emptyWorld
    (opening ++ [.enqueueAndClaimOutbox [49] [57] (.ok [56]) [53] 5 7 ⟨[58], 7⟩])

theorem held_lease : ¬ HoldsLease held.store [49] [51] [53] fun l => (20 : Time) < l.expiresAt := by
  rintro ⟨state, l, hstate, hl, -, -, hlive⟩
  have hend : (held.store.sessions[([49] : Bytes)]?.bind fun state =>
      (state.leases.find? (·.id == [51])).map (·.expiresAt)) = some 12 := by decide +kernel
  rw [hstate, Option.bind_some, hl, Option.map_some, Option.some.injEq] at hend
  rw [hend] at hlive
  exact absurd hlive (by decide)

theorem held_event : ¬ HasEvent held.store [49] [58] fun e =>
    e.state = .published ∨ (20 : Time) < e.leaseUntil := by
  rintro ⟨state, e, hstate, he, hlive⟩
  have hend : (held.store.sessions[([49] : Bytes)]?.bind fun state =>
      (state.outbox.find? (·.id == [58])).map fun e => (e.state, e.leaseUntil)) =
        some (.processing, 12) := by decide +kernel
  rw [hstate, Option.bind_some, he, Option.map_some, Option.some.injEq, Prod.mk.injEq] at hend
  rw [hend.1, hend.2] at hlive
  exact absurd hlive (by decide)

theorem not_failed {P : Prop}
    (h : (respond plainPlatform plainConfig steadyDisk held c).1.isOk = true) :
    ¬ ∃ e, (respond plainPlatform plainConfig steadyDisk held c).1 = .error e ∧ P := by
  rintro ⟨e, he, -⟩
  rw [he] at h
  cases h

/-- An owner whose time is over still releases its lease, and still acknowledges or refuses its
event. -/
theorem expired_owner_settles :
    let HeldOnly (c : Call) := OnlyHolder held.store
      (respond plainPlatform plainConfig steadyDisk held c).1
      (step plainPlatform plainConfig steadyDisk held c).store c
    ¬ HeldOnly (.releaseLease [49] [51] [53] 20 20) ∧ ¬ HeldOnly (.ackOutbox [49] [58] [53] 20 20) ∧
      ¬ HeldOnly (.nackOutbox [49] [58] [53] 21 20) := by
  refine ⟨?_, ?_, ?_⟩
  · rintro (hfail | hholds)
    · exact not_failed (by decide +kernel) hfail
    · exact held_lease hholds
  · rintro (hfail | ⟨state, e, hstate, he, ⟨-, -, hlive⟩ | ⟨hpublished, -⟩⟩)
    · exact not_failed (by decide +kernel) hfail
    · exact held_event ⟨state, e, hstate, he, .inr hlive⟩
    · exact held_event ⟨state, e, hstate, he, .inl hpublished⟩
  · rintro (hfail | ⟨state, e, hstate, he, -, -, hlive⟩)
    · exact not_failed (by decide +kernel) hfail
    · exact held_event ⟨state, e, hstate, he, .inr hlive⟩

end Adro.Harness
