import Adro.Harness.Lease

/-!
# What lease and outbox operations write

One lemma for each operation says when it succeeds, what it stores and what it
puts back.
-/

namespace Adro.Harness

open Adro.Go

variable {state : SessionState} {id key owner : Bytes} {ttl : Duration} {now : Time}
  {effect : Effect Unit} {payload : Payload}

/-- The session with the first lease that passes a test changed. -/
def SessionState.withLease (state : SessionState) (test : Lease → Bool) (f : Lease → Lease) :
    SessionState :=
  { state with leases := modifyFirst test f state.leases }

/-- The session with the first event that passes a test changed. -/
def SessionState.withEvent (state : SessionState) (test : OutboxEvent → Bool)
    (f : OutboxEvent → OutboxEvent) : SessionState :=
  { state with outbox := modifyFirst test f state.outbox }

def SessionState.touch (state : SessionState) (now : Time) : SessionState :=
  { state with session.updatedAt := now }

theorem acquireLease_ok {effect : Effect Lease}
    (h : acquireLease state id key owner ttl now stamp = .ok effect) :
    (∃ l, state.leases.find? (Lease.isFor key) = some l ∧
      (effective now stamp.time < l.expiresAt → l.owner = owner) ∧
      effect = .write (state.withLease (Lease.isFor key)
        (Lease.grant owner ttl (effective now stamp.time)))
        state "persist lease renewal" (l.grant owner ttl (effective now stamp.time))) ∨
    (state.leases.find? (Lease.isFor key) = none ∧
      let l := newLease id key owner ttl (effective now stamp.time) stamp.id
      effect = .write { state.touch (effective now stamp.time) with leases := state.leases ++ [l] }
        (state.touch (effective now stamp.time)) "persist lease" l) := by
  unfold acquireLease at h
  simp only [then_ok] at h
  obtain ⟨-, h⟩ := h
  split at h
  · next l hl =>
    simp only [then_ok, pure_ok, ensure_ok] at h
    obtain ⟨hfree, rfl⟩ := h
    refine .inl ⟨l, hl, ?_, rfl⟩
    intro hlt
    simpa [hlt] using hfree
  · next hnone =>
    simp only [pure_ok] at h
    exact .inr ⟨hnone, h.symm⟩

theorem releaseLease_ok (h : releaseLease state leaseID owner now reading = .ok effect) :
    ∃ l, state.leases.find? (·.id == leaseID) = some l ∧ l.owner = owner ∧ l.state = .held ∧
      effect = .write ((state.withLease (·.id == leaseID)
        (Lease.release (effective now reading))).touch (effective now reading)) state
        "persist lease release" () := by
  unfold releaseLease at h
  split at h
  · next l hl =>
    simp only [then_ok, pure_ok, ensure_ok, Bool.and_eq_true, beq_iff_eq] at h
    obtain ⟨⟨howner, hheld⟩, rfl⟩ := h
    exact ⟨l, hl, howner, hheld, rfl⟩
  · cases h

theorem heartbeatLease_ok {effect : Effect Lease}
    (h : heartbeatLease state leaseID owner ttl now reading = .ok effect) :
    ∃ l, state.leases.find? (·.id == leaseID) = some l ∧ l.owner = owner ∧ l.state = .held ∧
      effective now reading < l.expiresAt ∧
      effect = .write ((state.withLease (·.id == leaseID)
        (Lease.renew ttl (effective now reading))).touch (effective now reading)) state
        "persist lease heartbeat" (l.renew ttl (effective now reading)) := by
  unfold heartbeatLease at h
  simp only [then_ok] at h
  obtain ⟨-, h⟩ := h
  split at h
  · next l hl =>
    simp only [then_ok, pure_ok, ensure_ok, Bool.and_eq_true, beq_iff_eq, decide_eq_true_eq] at h
    obtain ⟨⟨⟨howner, hheld⟩, hlive⟩, rfl⟩ := h
    exact ⟨l, hl, howner, hheld, hlive, rfl⟩
  · cases h

theorem encodePayload_ok :
    encodePayload payload = .ok data ↔ payload = .ok data := by
  cases payload <;> simp [encodePayload, Except.mapError]

theorem enqueueOutbox_ok {effect : Effect OutboxEvent}
    (h : enqueueOutbox state id key payload stamp = .ok effect) :
    ∃ data, payload = .ok data ∧
      ((∃ e, state.outbox.find? (·.idempotencyKey == key) = some e ∧ e.payload = data ∧
        effect = .keep e) ∨
      (state.outbox.find? (·.idempotencyKey == key) = none ∧
        let e : OutboxEvent :=
          { id := stamp.id, sessionID := id, idempotencyKey := key, payload := data,
            state := .pending,
            nextAttemptAt := stamp.time, createdAt := stamp.time }
        effect = .write (state.addEvent e stamp.time) (state.touch stamp.time)
          "persist outbox event" e)) := by
  unfold enqueueOutbox at h
  simp only [then_ok] at h
  obtain ⟨-, h⟩ := h
  obtain ⟨data, hdata, h⟩ := bind_ok.1 h
  refine ⟨data, encodePayload_ok.1 hdata, ?_⟩
  split at h
  · next e he =>
    simp only [then_ok, pure_ok, ensure_ok, beq_iff_eq] at h
    obtain ⟨hpayload, rfl⟩ := h
    exact .inl ⟨e, he, hpayload, rfl⟩
  · next hnone =>
    simp only [pure_ok] at h
    exact .inr ⟨hnone, h.symm⟩

/-- An event that a claim may take: one that is due, or that its owner held too long. -/
def OutboxEvent.Claimable (now : Time) (e : OutboxEvent) : Prop :=
  e.state = .pending ∧ e.nextAttemptAt ≤ now ∨ e.state = .processing ∧ e.leaseUntil ≤ now

theorem enqueueAndClaimOutbox_ok {effect : Effect Claim}
    (h : enqueueAndClaimOutbox state id key payload owner ttl now stamp = .ok effect) :
    ∃ data, payload = .ok data ∧
      ((∃ e, state.outbox.find? (·.idempotencyKey == key) = some e ∧ e.payload = data ∧
        ((e.state = .published ∧ effect = .keep ⟨some e, false, none⟩) ∨
          (∃ name, e.state = .other name ∧ effect = refused e .conflict) ∨
          effect = refused e .leaseBusy ∨
          (e.Claimable (effective now stamp.time) ∧
            effect = .write ((state.withEvent (·.idempotencyKey == key)
                (OutboxEvent.claim owner ttl (effective now stamp.time))).touch
                  (effective now stamp.time))
              state "persist outbox claim"
              ⟨some (e.claim owner ttl (effective now stamp.time)), true, none⟩))) ∨
      (state.outbox.find? (·.idempotencyKey == key) = none ∧
        let e : OutboxEvent :=
          { id := stamp.id, sessionID := id, idempotencyKey := key, payload := data,
            state := .processing, attempts := 1, owner, leaseUntil :=
            effective now stamp.time + ttl,
            nextAttemptAt := effective now stamp.time, createdAt := effective now stamp.time }
        effect = .write (state.addEvent e (effective now stamp.time))
          (state.touch (effective now stamp.time))
          "persist outbox claim" ⟨some e, true, none⟩)) := by
  unfold enqueueAndClaimOutbox at h
  simp only [then_ok] at h
  obtain ⟨-, -, h⟩ := h
  obtain ⟨data, hdata, h⟩ := bind_ok.1 h
  refine ⟨data, encodePayload_ok.1 hdata, ?_⟩
  split at h
  · next e he =>
    simp only [then_ok, ensure_ok, beq_iff_eq] at h
    obtain ⟨hpayload, h⟩ := h
    refine .inl ⟨e, he, hpayload, ?_⟩
    split at h
    · next hpublished =>
      exact .inl ⟨hpublished, (pure_ok.1 h).symm⟩
    · next name hother =>
      exact .inr (.inl ⟨name, hother, (pure_ok.1 h).symm⟩)
    · next hprocessing =>
      split at h
      · exact .inr (.inr (.inl (pure_ok.1 h).symm))
      · next hover =>
        exact .inr (.inr (.inr ⟨.inr ⟨hprocessing, Int.not_lt.1 hover⟩, (pure_ok.1 h).symm⟩))
    · next hpending =>
      split at h
      · exact .inr (.inr (.inl (pure_ok.1 h).symm))
      · next hdue =>
        exact .inr (.inr (.inr ⟨.inl ⟨hpending, Int.not_lt.1 hdue⟩, (pure_ok.1 h).symm⟩))
  · next hnone =>
    simp only [pure_ok] at h
    exact .inr ⟨hnone, h.symm⟩

theorem claimOutbox_ok {limit : Int} {effect : Effect (List OutboxEvent)}
    (h : claimOutbox state owner limit ttl now reading = .ok effect) :
    let claimed := claimEvents owner ttl (effective now reading) (claimLimit limit) state.outbox
    effect = .keep [] ∨
      effect = .write ({ state with outbox := claimed.1 }.touch (effective now reading)) state
        "persist outbox claim" claimed.2 := by
  unfold claimOutbox at h
  simp only [then_ok] at h
  obtain ⟨-, h⟩ := h
  split at h
  · exact .inl (pure_ok.1 h).symm
  · exact .inr (pure_ok.1 h).symm

theorem publishOutbox_ok
    (h : publishOutbox state eventID allowed now reading context = .ok effect) :
    ∃ e, state.outbox.find? (·.id == eventID) = some e ∧
      ((e.state = .published ∧ effect = .keep ()) ∨
        (e.state ≠ .published ∧ allowed e ∧
          effect = .write ((state.withEvent (·.id == eventID)
            (OutboxEvent.publish (effective now reading))).touch (effective now reading)) state
              context ())) := by
  unfold publishOutbox at h
  split at h
  · next e he =>
    split at h
    · next hpublished => exact ⟨e, he, .inl ⟨hpublished, (pure_ok.1 h).symm⟩⟩
    · next hopen =>
      simp only [then_ok, pure_ok, ensure_ok] at h
      obtain ⟨hallowed, rfl⟩ := h
      exact ⟨e, he, .inr ⟨hopen, hallowed, rfl⟩⟩
  · cases h

theorem nackOutbox_ok (h : nackOutbox state eventID owner retryAt reading = .ok effect) :
    ∃ e, state.outbox.find? (·.id == eventID) = some e ∧ e.state = .processing ∧ e.owner = owner ∧
      effect = .write (state.withEvent (·.id == eventID)
        (OutboxEvent.retry (effective retryAt (reading + second)))) state
        "persist outbox retry" () := by
  unfold nackOutbox at h
  split at h
  · next e he =>
    simp only [then_ok, pure_ok, ensure_ok, Bool.and_eq_true, beq_iff_eq] at h
    obtain ⟨⟨hprocessing, howner⟩, rfl⟩ := h
    exact ⟨e, he, hprocessing, howner, rfl⟩
  · cases h

end Adro.Harness
