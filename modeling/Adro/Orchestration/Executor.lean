import Adro.Orchestration.Repository
import Adro.Orchestration.FinishLaws

/-!
# The executor's transactions

An executor holds a projection and a repository that is both its store and its
event log. Each reducer step is committed with the event that records it, built
on the tail of the log; when the commit fails the projection is put back.
-/

namespace Adro.Orchestration

open Adro.Go

structure Session where
  projection : PlanProjection
  repo : MemoryRepository

/-- What a commit takes from outside: the event's origin, and the error with
which the snapshot fails to be written. -/
structure Write where
  origin : Origin
  fault : Option Err := none

structure Binding where
  id : String
  sessionID : String
  workDir : String

/-- `fmt.Errorf("text: %w", e)`. -/
def wrapErr (text : String) (e : Err) : Err := ⟨e.sentinel, text ++ ": " ++ e.text⟩

variable (E : EventHost) (plan : RequirementExecutionPlan)

def commitDraft (d : Draft) (fault : Option Err) (p : PlanProjection) (r : MemoryRepository) :
    MemoryRepository.Reply :=
  match d.event E plan (r.listEvents plan.id 0).getLast? with
  | .error err => (.error err, r)
  | .ok e => r.commitEventProjection E e p fault

/-- The event of a finish. It has no scope of its own but the fencing token. -/
def finishDraft (attemptID : String) (input : TransitionInput) (a : NodeAttempt) (o : Origin) :
    Draft where
  origin := o
  type := "attempt.finished"
  key := (if input.idempotencyKey == "" then a.idempotencyKey else input.idempotencyKey) ++
    ":finished"
  payload := {
    attemptID, event := input.event, result := input.result, failure := input.failure
    artifactIDs := a.outputArtifacts, transitionKey := some input.idempotencyKey
    transitionAt := input.now }
  fencingToken := input.leaseToken

/-- A reducer error leaves the projection as the reducer left it. -/
def Executor.finishAttempt (s : Session) (attemptID : String) (input : TransitionInput)
    (clock : Time) (w : Write) : Except Err NodeAttempt × Session :=
  let input := { input with now := input.at clock }
  match Orchestration.finishAttempt E.toHost plan s.projection attemptID input clock with
  | (.error err, p) => (.error err, { s with projection := p })
  | (.ok a, p) =>
    match commitDraft E plan (finishDraft attemptID input a w.origin) w.fault p s.repo with
    | (.error err, r) => (.error err, { s with repo := r })
    | (.ok _, r) => (.ok a, { projection := p, repo := r })

/-- A finish without a key of its own leaves every attempt, or writes the one
it finished with the status of its event. -/
theorem Executor.finishAttempt_attempts (s : Session) (k : String) (input : TransitionInput)
    (clock : Time) (w : Write) (hkey : input.idempotencyKey = "") :
    (finishAttempt E plan s k input clock w).2.projection.attempts = s.projection.attempts ∨
    ∃ b, (finishAttempt E plan s k input clock w).2.projection.attempts =
        s.projection.attempts.insert k b ∧ eventStatus input.event = some b.status := by
  unfold finishAttempt
  generalize hi : ({ input with now := input.at clock } : TransitionInput) = i
  simp only
  have hevent : i.event = input.event := by rw [← hi]
  have hblank : trimSpace i.idempotencyKey = "" := by rw [← hi]; simp only [hkey]; decide
  rcases finishAttempt_cases E.toHost plan s.projection k i clock with
    ⟨e, h⟩ | ⟨a, h, hne⟩ | ⟨f, a, hf, hres⟩
  · simp only [h]; exact .inl trivial
  · exact absurd (.inl hblank) hne
  · have hatt := hres.attempts hf
    have hstatus := hf.event
    generalize Orchestration.finishAttempt E.toHost plan s.projection k i clock = reply at hatt
    obtain ⟨res, q⟩ := reply
    rcases hatt with ⟨e, rfl, hq⟩ | ⟨b, rfl, hq, -, hb⟩
    · exact .inl hq
    · simp only
      split
      · exact .inl rfl
      · exact .inr ⟨b, hq, by rw [← hevent, hstatus, hb]⟩

end Adro.Orchestration
