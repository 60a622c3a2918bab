import Adro.Harness.Calls
import Adro.Harness.TranscriptLaws

/-!
# How sessions move

A relation between a store and a later one: no session is lost, each has moved
by a given relation, and a session that is new has nothing in it. The calls on
the transcript move sessions in one way: nothing else of the session changes.
-/

namespace Adro.Harness

open Adro.Go

/-- Every session of the earlier store is there and has moved; what is new is empty. -/
structure Advances (R : SessionState → SessionState → Prop) (s s' : Store) : Prop where
  kept : ∀ (id : Bytes) state, s.sessions[id]? = some state → ∃ next,
    s'.sessions[id]? = some next ∧ R state next
  born : ∀ (id : Bytes) next, s.sessions[id]? = none → s'.sessions[id]? = some next → ∃ session,
    next = { session }

def Store.Every (P : SessionState → Prop) (s : Store) : Prop :=
  ∀ (id : Bytes) state, s.sessions[id]? = some state → P state

section

variable {R : SessionState → SessionState → Prop} {s s' : Store} {id : Bytes}
  {state next : SessionState}

theorem Advances.refl (hrefl : ∀ state, R state state) (s : Store) : Advances R s s :=
  ⟨fun _ state h => ⟨state, h, hrefl state⟩, fun _ _ hnone h => by rw [hnone] at h; cases h⟩

theorem Advances.every (h : Advances R s s') (h0 : s.Every P)
    (hP : ∀ state next, P state → R state next → P next) (hnew : ∀ session, P { session }) :
    s'.Every P := by
  intro id next hnext
  cases hstate : s.sessions[id]? with
  | none =>
    obtain ⟨session, rfl⟩ := h.born id next hstate hnext
    exact hnew session
  | some state =>
    obtain ⟨next', hnext', hR⟩ := h.kept id state hstate
    rw [hnext] at hnext'
    cases hnext'
    exact hP state next (h0 id state hstate) hR

theorem advances_set (hrefl : ∀ state, R state state) (hsame : s'.sessions = s.sessions)
    (hold : ∀ state, s.sessions[id]? = some state → R state next)
    (hnew : s.sessions[id]? = none → ∃ session, next = { session }) :
    Advances R s (s'.setSession id next) := by
  constructor
  · intro id' state hstate
    simp only [Store.setSession, ByteMap.get_set, hsame]
    split
    · next heq => exact ⟨next, rfl, hold state (heq ▸ hstate)⟩
    · exact ⟨state, hstate, hrefl state⟩
  · intro id' next' hnone hnext'
    simp only [Store.setSession, ByteMap.get_set, hsame] at hnext'
    split at hnext'
    · next heq =>
      cases hnext'
      exact hnew (heq ▸ hnone)
    · rw [hnone] at hnext'
      cases hnext'

theorem advances_setSession (hrefl : ∀ state, R state state) (hsame : s'.sessions = s.sessions)
    (hstate : s.sessions[id]? = some state) (hR : R state next) :
    Advances R s (s'.setSession id next) := by
  refine advances_set hrefl hsame (fun state' hstate' => ?_) fun hnone => ?_
  · cases hstate.symm.trans hstate'
    exact hR
  · cases hstate.symm.trans hnone

def Call.records : Call → Bool
  | .createSession .. | .appendTurn .. | .recordToolCall .. | .saveCheckpoint .. | .compact .. =>
      true
  | _ => false

def Call.logs : Call → Bool
  | .appendTurn .. | .recordToolCall .. => true
  | _ => false

/-- A session was opened, or one has kept all but its transcript. -/
inductive Recorded (s : Store) : Store → Prop
  | opened {id : Bytes} {session : Session} (hnone : s.sessions[id]? = none) :
      Recorded s (s.setSession id { session })
  | kept {id : Bytes} {state next : SessionState} (hstate : s.sessions[id]? = some state)
      (hkeeps : Keeps state next) : Recorded s (s.setSession id next)

theorem Recorded.advances (h : Recorded s s') (hrefl : ∀ state, R state state)
    (hR : ∀ state next, Keeps state next → R state next) : Advances R s s' := by
  cases h with
  | opened hnone =>
    refine advances_set hrefl rfl (fun _ hstate => ?_) fun _ => ⟨_, rfl⟩
    cases hnone.symm.trans hstate
  | kept hstate hkeeps => exact advances_setSession hrefl rfl hstate (hR _ _ hkeeps)

theorem plan_records (hc : c.records = true) :
    (plan p cfg s c).Writes fun next undo _ turns =>
      Recorded s next ∧ undo = s ∧ (c.logs = false → turns = []) := by
  cases c
  all_goals simp only [plan, writes_map]
  case createSession =>
    unfold createSession
    split
    · exact writes_fail
    · split
      · exact writes_fail
      · next hnone =>
        exact writes_saveSession.2 ⟨.opened (by simpa using hnone), rfl, fun _ => rfl⟩
  case appendTurn =>
    refine writes_onSession fun state plan hstate hplan => ?_
    obtain ⟨⟨turn, added, next⟩, hturn, hplan⟩ := bind_ok.1 hplan
    cases pure_ok.1 hplan
    cases added
    · exact writes_keep
    · exact writes_saveSession.2 ⟨.kept hstate (appendTurn_keeps hturn), rfl, nofun⟩
  case recordToolCall =>
    unfold Store.recordToolCall
    simp only
    split
    · exact writes_fail
    · refine writes_onSession fun state plan hstate hplan => ?_
      obtain ⟨r, hr, hplan⟩ := bind_ok.1 hplan
      cases pure_ok.1 hplan
      split
      · exact writes_keep
      · exact writes_saveSession.2 ⟨.kept hstate (recordToolCall_keeps hr), rfl, nofun⟩
  case saveCheckpoint =>
    refine writes_onSession fun state plan hstate hplan => ?_
    obtain ⟨⟨saved, next⟩, hsaved, hplan⟩ := bind_ok.1 hplan
    cases pure_ok.1 hplan
    exact writes_saveSession.2 ⟨.kept hstate (saveCheckpointLocked_keeps hsaved).1,
      rfl, fun _ => rfl⟩
  case compact =>
    refine writes_onSession fun state plan hstate hplan => ?_
    obtain ⟨⟨archive, next⟩, harchive, hplan⟩ := bind_ok.1 hplan
    cases pure_ok.1 hplan
    exact writes_saveSession.2 ⟨.kept hstate (compact_keeps harchive).1, rfl, fun _ => rfl⟩
  all_goals cases hc

end

end Adro.Harness
