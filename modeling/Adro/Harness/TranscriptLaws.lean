import Adro.Harness.Transcript

/-!
# What transcript operations change

One lemma for each operation says when it succeeds and which session it leaves.
None of them touches the memories, the leases or the outbox of the session.
-/

namespace Adro.Harness

open Adro.Go

variable {state next : SessionState} {c : Checkpoint} {r : CompactRequest}
  {stamps : CompactionStamps} {sessionID : Bytes} {turn stored : Turn} {added : Bool}

/-- The parts of a session that the transcript operations leave alone. -/
structure Keeps (state next : SessionState) : Prop where
  memories : next.memories = state.memories
  leases : next.leases = state.leases
  outbox : next.outbox = state.outbox
  session : ∃ version time,
    next.session = { state.session with contextVersion := version, updatedAt := time }

theorem Keeps.refl (state : SessionState) : Keeps state state := ⟨rfl, rfl, rfl, _, _, rfl⟩

theorem Keeps.trans (h : Keeps state middle) (h' : Keeps middle next) :
    Keeps state next := by
  obtain ⟨version, time, hsession⟩ := h.session
  obtain ⟨version', time', hsession'⟩ := h'.session
  refine ⟨h'.memories.trans h.memories, h'.leases.trans h.leases, h'.outbox.trans h.outbox,
    version', time', ?_⟩
  rw [hsession', hsession]

theorem keeps_addCheckpoint : Keeps state (state.addCheckpoint c) :=
  ⟨rfl, rfl, rfl, _, _, rfl⟩

theorem keeps_addArchive : Keeps state (state.addArchive a) :=
  ⟨rfl, rfl, rfl, _, _, rfl⟩

theorem keeps_addTurn : Keeps state (state.addTurn t) := ⟨rfl, rfl, rfl, _, _, rfl⟩

structure Fits (state : SessionState) (c : Checkpoint) : Prop where
  new : state.checkpoints.find? (·.replays c) = none
  sequence : ∀ l ∈ state.checkpoints.getLast?, l.turnSequence ≤ c.turnSequence
  version : ∀ l ∈ state.checkpoints.getLast?, l.contextVersion ≤ c.contextVersion
  chain : c.prevHash = [] ∨ c.prevHash = lastHash state.checkpoints
  pairing : checkPairing state.checkpoints c = .ok ()
  bracketing : checkBracketing state.checkpoints c = .ok ()

structure Proper (state : SessionState) (c : Checkpoint) : Prop where
  phase : c.phase.valid
  sequence_nonneg : 0 ≤ c.turnSequence
  version_pos : 0 < c.contextVersion
  sequence_le : c.turnSequence ≤ state.turns.length
  event : c.eventHash = [] ∨ hasTurnHash state.turns c.eventHash

theorem option_all {o : Option α} : o.all f = true ↔ ∀ a ∈ o, f a = true := by
  cases o <;> simp

theorem saveCheckpointLocked_ok (h : saveCheckpointLocked p state c stamp = .ok (saved, next)) :
    Proper state (c.ofSession state.session) ∧
      ((state.checkpoints.find? (·.replays (c.ofSession state.session)) = some saved ∧
        next = state) ∨
        (Fits state (c.ofSession state.session) ∧
          saved = sealCheckpoint p state (c.ofSession state.session) stamp ∧
          next = state.addCheckpoint saved)) := by
  unfold saveCheckpointLocked at h
  simp only [then_ok, ensure_ok, Bool.and_eq_true, Bool.or_eq_true, beq_iff_eq,
    decide_eq_true_eq] at h
  obtain ⟨⟨⟨hphase, hseq⟩, hversion⟩, hpos, hle, hevent, h⟩ := h
  have hkeep : (c.ofSession state.session).phase = c.phase ∧
      (c.ofSession state.session).turnSequence = c.turnSequence := by
    unfold Checkpoint.ofSession
    split <;> exact ⟨rfl, rfl⟩
  refine ⟨⟨hkeep.1 ▸ hphase, hkeep.2 ▸ hseq, hpos, hle, hevent⟩, ?_⟩
  split at h
  · next existing hfound =>
    simp only [then_ok] at h
    obtain ⟨-, rfl, rfl⟩ := h
    exact .inl ⟨hfound, rfl⟩
  · next hnone =>
    simp only [then_ok, ensure_ok, pure_ok, Prod.mk.injEq, option_all, decide_eq_true_eq,
      Bool.or_eq_true, beq_iff_eq] at h
    obtain ⟨hsequence, hversions, hchain, hpair, hbracket, rfl, rfl⟩ := h
    exact .inr ⟨⟨hnone, hsequence, hversions, hchain, hpair, hbracket⟩, rfl, rfl⟩

theorem saveCheckpointLocked_keeps (h : saveCheckpointLocked p state c stamp = .ok (saved, next)) :
    Keeps state next ∧ next.turns = state.turns ∧ next.archives = state.archives := by
  rcases (saveCheckpointLocked_ok h).2 with ⟨-, rfl⟩ | ⟨-, -, rfl⟩
  · exact ⟨.refl _, rfl, rfl⟩
  · exact ⟨keeps_addCheckpoint, rfl, rfl⟩

structure Replaceable (state : SessionState) (r : CompactRequest) : Prop where
  start : 1 ≤ r.startSequence
  ordered : r.startSequence ≤ r.endSequence
  stop : r.endSequence ≤ state.turns.length
  summary : isBlank r.summary = false
  tail : 0 ≤ r.retainedTail
  free : ∀ a ∈ state.archives, ¬ (r.startSequence ≤ a.endSequence ∧ a.startSequence ≤ r.endSequence)

theorem compactLocked_iff :
    compactLocked p state r stamp = .ok (archive, next) ↔
      Replaceable state r ∧ archive = sealArchive p state r stamp ∧
      next = state.addArchive archive := by
  unfold compactLocked
  simp only [then_ok, ensure_ok, pure_ok, Prod.mk.injEq, Bool.and_eq_true, decide_eq_true_eq,
    Bool.not_eq_true', List.all_eq_true, Bool.and_eq_false_iff, decide_eq_false_iff_not]
  constructor
  · rintro ⟨⟨⟨⟨hstart, hordered⟩, hstop⟩, hsummary⟩, htail, hfree, rfl, rfl⟩
    refine ⟨⟨hstart, hordered, hstop, hsummary, htail, ?_⟩, rfl, rfl⟩
    rintro a ha ⟨h₁, h₂⟩
    exact (hfree a ha).elim (· h₁) (· h₂)
  · rintro ⟨h, rfl, rfl⟩
    refine ⟨⟨⟨⟨h.start, h.ordered⟩, h.stop⟩, h.summary⟩, h.tail, fun a ha => ?_, rfl, rfl⟩
    exact not_and_or.1 (h.free a ha)

theorem compactLocked_keeps (h : compactLocked p state r stamp = .ok (archive, next)) :
    Keeps state next ∧ next.turns = state.turns := by
  obtain ⟨-, -, rfl⟩ := compactLocked_iff.1 h
  exact ⟨keeps_addArchive, rfl⟩

theorem compact_keeps (h : compact p state r stamps = .ok (archive, next)) :
    Keeps state next ∧ next.turns = state.turns := by
  obtain ⟨⟨c, opened⟩, hopen, h⟩ := bind_ok.1 h
  obtain ⟨⟨a, archived⟩, harchive, h⟩ := bind_ok.1 h
  obtain ⟨-, h⟩ := then_ok.1 h
  obtain ⟨⟨c', closed⟩, hclose, h⟩ := bind_ok.1 h
  cases pure_ok.1 h
  have h₁ := saveCheckpointLocked_keeps hopen
  have h₂ := compactLocked_keeps harchive
  have h₃ := saveCheckpointLocked_keeps hclose
  exact ⟨h₁.1.trans (h₂.1.trans h₃.1), h₃.2.1.trans (h₂.2.trans h₁.2.1)⟩

theorem autoCompactLocked_keeps
    (h : autoCompactLocked p cfg state stamps = .ok (archive, next)) :
    Keeps state next ∧ next.turns = state.turns := by
  unfold autoCompactLocked at h
  split at h
  · cases h
    exact ⟨.refl _, rfl⟩
  · obtain ⟨⟨c, opened⟩, hopen, h⟩ := bind_ok.1 h
    obtain ⟨⟨a, archived⟩, harchive, h⟩ := bind_ok.1 h
    obtain ⟨⟨c', closed⟩, hclose, h⟩ := bind_ok.1 h
    cases pure_ok.1 h
    have h₁ := saveCheckpointLocked_keeps hopen
    have h₂ := compactLocked_keeps harchive
    have h₃ := saveCheckpointLocked_keeps hclose
    exact ⟨h₁.1.trans (h₂.1.trans h₃.1), h₃.2.1.trans (h₂.2.trans h₁.2.1)⟩

def Turn.ofSession (t : Turn) (sessionID : Bytes) : Turn :=
  if t.sessionID == [] then { t with sessionID } else t

theorem appendTurn_ok {stamps : TurnStamps}
    (h : appendTurn p cfg state sessionID turn stamps = .ok (stored, added, next)) :
    validRole turn.role ∧ isBlank turn.content = false ∧
    (turn.ofSession sessionID).sessionID = sessionID ∧
      ((findTurn state.turns (turn.ofSession sessionID).idempotencyKey = some stored ∧
          turnDigest p stored = turnDigest p (turn.ofSession sessionID) ∧ added = false ∧
          next = state) ∨
        (findTurn state.turns (turn.ofSession sessionID).idempotencyKey = none ∧ added = true ∧
          stored = sealTurn p state.turns (turn.ofSession sessionID) stamps.turn ∧
          ∃ archive, autoCompactLocked p cfg (state.addTurn stored) stamps.compaction =
            .ok (archive, next))) := by
  unfold appendTurn at h
  simp only [then_ok, ensure_ok, Bool.and_eq_true, Bool.not_eq_true', beq_iff_eq] at h
  obtain ⟨⟨hrole, hcontent⟩, hsession, h⟩ := h
  have hof : (if turn.sessionID = [] then { turn with sessionID } else turn) =
      turn.ofSession sessionID := by
    unfold Turn.ofSession
    simp only [beq_iff_eq]
  rw [hof] at hsession h
  refine ⟨hrole, hcontent, hsession, ?_⟩
  split at h
  · next existing hfound =>
    simp only [then_ok, ensure_ok, beq_iff_eq] at h
    obtain ⟨hdigest, rfl, rfl, rfl⟩ := h
    exact .inl ⟨hfound, hdigest, rfl, rfl⟩
  · next hnone =>
    obtain ⟨-, h⟩ := then_ok.1 h
    obtain ⟨⟨archive, state'⟩, hauto, h⟩ := bind_ok.1 h
    cases pure_ok.1 h
    exact .inr ⟨hnone, rfl, rfl, archive, mapError_ok.1 hauto⟩

theorem appendTurn_keeps {stamps : TurnStamps}
    (h : appendTurn p cfg state sessionID turn stamps = .ok (stored, added, next)) :
    Keeps state next := by
  obtain ⟨-, -, -, ⟨-, -, -, rfl⟩ | ⟨-, -, -, archive, hauto⟩⟩ := appendTurn_ok h
  · exact .refl _
  · exact keeps_addTurn.trans (autoCompactLocked_keeps hauto).1

theorem recordToolCall_keeps {callID name input output : Bytes}
    {stamps : ToolStamps} {r : ToolRecord}
    (h : recordToolCall p cfg state sessionID callID name input output version stamps = .ok r) :
    Keeps state r.state := by
  obtain ⟨-, h⟩ := then_ok.1 h
  obtain ⟨⟨before, beforeAdded, state₁⟩, hbefore, h⟩ := bind_ok.1 h
  obtain ⟨⟨c, state₂⟩, hopen, h⟩ := bind_ok.1 h
  obtain ⟨⟨after, afterAdded, state₃⟩, hafter, h⟩ := bind_ok.1 h
  obtain ⟨⟨c', state₄⟩, hclose, h⟩ := bind_ok.1 h
  cases pure_ok.1 h
  have h₁ := appendTurn_keeps (then_ok.1 hbefore).2
  have h₂ := (saveCheckpointLocked_keeps hopen).1
  have h₃ := appendTurn_keeps (then_ok.1 hafter).2
  have h₄ := (saveCheckpointLocked_keeps hclose).1
  exact h₁.trans (h₂.trans (h₃.trans h₄))

end Adro.Harness
