import Adro.Control.Bundle
import Adro.Control.Outbox
import Adro.Orchestration.Workers

/-!
# Calls of the repository

One step of the repository is one call of a method that writes. A run is a list
of calls, each with the error that the write of its snapshot ends in, if it
fails.
-/

namespace Adro.Control

open Adro.Go Adro.Orchestration

inductive Call
  | saveAgent (a : AgentDefinition) (expected : Int)
  | saveSquad (s : SquadDefinition) (expected : Int)
  | createPlan (plan : RequirementExecutionPlan)
  | createPlanWithEvent (plan : RequirementExecutionPlan) (e : Event)
  | saveProjection (p : PlanProjection)
  | appendEvent (e : Event)
  | commitEventProjection (e : Event) (p : PlanProjection)
  | enqueueOutbox (record : OutboxRecord) (clock : EnqueueClock)
  | claimOutbox (planID owner : String) (ttl : Duration) (now clock : Time) (order : List String)
  | claimOutboxByID (id owner : String) (ttl : Duration) (now clock : Time)
  | ackOutbox (id owner : String) (now clock : Time) (deliveryErr : Option String)
  | failOutbox (id owner : String) (now clock : Time) (reason : String)
  | importDefinitionBundle (workspaceID : String) (bundle : DefinitionBundle) (dryRun : Bool)
      (now : Time)
  | flush

inductive Answer
  | done
  | claimed (record : OutboxRecord)
  | enqueued (record : OutboxRecord) (created : Bool)
  | imported (report : DefinitionImportReport)

variable (H : ControlHost)

def Call.change (r : Repository) : Call → Change Repository Answer
  | .saveAgent a expected => (r.saveAgent H a expected).returning fun _ => .done
  | .saveSquad s expected => (r.saveSquad s expected).returning fun _ => .done
  | .createPlan plan => (r.createPlan H plan).returning fun _ => .done
  | .createPlanWithEvent plan e => (r.createPlanWithEvent H plan e).returning fun _ => .done
  | .saveProjection p => (r.saveProjection p).returning fun _ => .done
  | .appendEvent e => (r.appendEvent H e).returning fun _ => .done
  | .commitEventProjection e p => (r.commitEventProjection H e p).returning fun _ => .done
  | .enqueueOutbox record clock =>
    (r.enqueueOutbox H record clock).returning fun out => .enqueued out.1 out.2
  | .claimOutbox planID owner ttl now clock order =>
    (r.claimOutbox H planID owner ttl now clock order).returning .claimed
  | .claimOutboxByID id owner ttl now clock =>
    (r.claimOutboxByID H id owner ttl now clock).returning .claimed
  | .ackOutbox id owner now clock deliveryErr =>
    (r.ackOutbox id owner now clock deliveryErr).returning fun _ => .done
  | .failOutbox id owner now clock reason =>
    (r.failOutbox id owner now clock reason).returning fun _ => .done
  | .importDefinitionBundle ws bundle dryRun now =>
    (r.importDefinitionBundle H ws bundle dryRun now).returning .imported
  | .flush => r.flush.returning fun _ => .done

/-- A call, and the error with which the write of its snapshot fails. -/
structure Request where
  call : Call
  fault : Option Err := none

def perform (r : Repository) (q : Request) : Except Err Answer × Repository :=
  (q.call.change H r).settle (Repository.persistLocked · q.fault)

def step (r : Repository) (q : Request) : Repository := (perform H r q).2

/-- A host for runs on given calls; every payload and bundle has the same text. -/
def plainHost : ControlHost where
  toEventHost := sampleLog
  lower := id
  payloadText := fun _ => some ""
  bundleDigest := fun _ => some "digest"

end Adro.Control
