import Adro.Control.Repository

/-!
# The outbox

Intents with a delivery lease. An intent is enqueued once for its plan and key
under an id that the caller may choose; a claim leases it to an owner, and only
that owner settles it while the lease runs. `ClaimOutbox` looks through the
whole map, in an order the language does not fix: the keys come in the order the
caller of the model gives.
-/

namespace Adro.Control

open Adro.Go Adro.Orchestration

/-- The clock readings of an enqueue: for the id, in nanoseconds, and for the
time of creation. -/
structure EnqueueClock where
  nanos : Int
  now : Time

namespace OutboxRecord

section

variable (record : OutboxRecord)

def trimmed : OutboxRecord :=
  { record with
    planID := trimSpace record.planID
    workspaceID := trimSpace record.workspaceID
    idempotencyKey := trimSpace record.idempotencyKey }

/-- The bound on the attempts is positive afterwards, so the check for that
in the source never fails. -/
def filled (clock : EnqueueClock) : OutboxRecord :=
  let createdAt := if record.createdAt.isZero then clock.now else record.createdAt
  { record with
    id := if record.id == "" then "outbox-" ++ toString clock.nanos else record.id
    createdAt := createdAt
    updatedAt := createdAt
    status := if record.status == .unset then .pending else record.status
    maxAttempts := if record.maxAttempts ≤ 0 then defaultOutboxMaxAttempts else record.maxAttempts }

def complete : Bool :=
  !(record.planID == "" || record.workspaceID == "" || record.idempotencyKey == "" ||
    blank record.kind)

def held (now : Time) : Bool :=
  record.status == .leased && record.leaseExpiresAt > now

def spent : Bool :=
  record.maxAttempts > 0 && record.attempts ≥ record.maxAttempts

def leasedTo (owner : String) (ttl : Duration) (now : Time) : OutboxRecord :=
  { record with
    status := .leased
    owner := owner
    leaseExpiresAt := now + ttl
    updatedAt := now
    attempts := i64 (record.attempts + 1) }

def scope : String × String := (record.planID, record.idempotencyKey)

end

end OutboxRecord

def enqueueID (record : OutboxRecord) (clock : EnqueueClock) : String :=
  (record.trimmed.filled clock).id

namespace Repository

variable (H : ControlHost) (r : Repository)

def jsonEqual (a b : GoMap Value) : Bool :=
  match H.payloadText a, H.payloadText b with
  | some left, some right => left == right
  | _, _ => false

/-- The intent with the plan and key, if there is one. -/
def enqueued (record : OutboxRecord) : Option OutboxRecord :=
  (r.outbox.find fun _ x => x.scope == record.scope).map (·.2)

def stored (record : OutboxRecord) (clock : EnqueueClock) : OutboxRecord :=
  (record.trimmed.filled clock).clone H.short

/-- The entry is deleted by its id when the snapshot cannot be written. -/
def enqueueOutbox (record : OutboxRecord) (clock : EnqueueClock) :
    Change Repository (OutboxRecord × Bool) :=
  let trimmed := record.trimmed
  if !trimmed.complete then
    .refuse (errorNew "outbox plan, workspace, kind and idempotency key are required") r
  else
    match r.enqueued trimmed with
    | some existing =>
      if !jsonEqual H existing.payload trimmed.payload || existing.kind != trimmed.kind then
        .refuse (errorNew "orchestration outbox conflict") r
      else .reply (existing.clone H.short, false) r
    | none =>
      let id := (trimmed.filled clock).id
      let written := { r with outbox := r.outbox.insert id (stored H record clock), dirty := true }
      .write written { written with outbox := written.outbox.erase id, dirty := r.dirty }
        (stored H record clock, true)

/-- The instant a caller gives; the zero time stands for the clock's. -/
def instant (now clock : Time) : Time := if now.isZero then clock else now

/-- `id` is trimmed by the callers that take it from outside. The record is
written under its own id; when the snapshot cannot be written, what was there is
put back and the repository stays dirty. -/
def claimOutboxLocked (id owner : String) (ttl : Duration) (now : Time) :
    Change Repository OutboxRecord :=
  match r.outbox[id]? with
  | none => .refuse Sentinel.notFound.err r
  | some item =>
    if item.status.final then .refuse Sentinel.notFound.err r
    else if item.held now then .refuse Sentinel.leaseLost.err r
    else
      let selected := item.leasedTo owner ttl now
      let written := { r with outbox := r.outbox.insert item.id selected, dirty := true }
      .write written
        { written with outbox := written.outbox.insert item.id ((r.outbox[item.id]?).getD {}) }
        (selected.clone H.short)

def claimCheck (owner : String) (ttl : Duration) : Except Err Unit :=
  ensure (!(blank owner || ttl ≤ 0)) (errorNew "outbox owner and positive ttl are required")

/-- The intents the search for the next one does not skip. -/
def claimable (planID : String) (now : Time) (item : OutboxRecord) : Bool :=
  (planID == "" || item.planID == planID) && !item.status.final && !item.spent && !item.held now

/-- The intent that the search keeps after it has seen another. -/
def preferred (selected item : OutboxRecord) : OutboxRecord :=
  if selected.id == "" || item.createdAt < selected.createdAt || item.id < selected.id then item
  else selected

/-- The records a claim chooses from, as they are read. -/
def candidates (planID : String) (now : Time) (order : List String) : List OutboxRecord :=
  (order.filterMap fun k => r.outbox[k]?).filter (claimable planID now)

def claimOutbox (planID owner : String) (ttl : Duration) (now clock : Time) (order : List String) :
    Change Repository OutboxRecord :=
  .guarded (claimCheck owner ttl) r <|
    let now := instant now clock
    let selected := (r.candidates planID now order).foldl preferred {}
    if selected.id == "" then .refuse Sentinel.notFound.err r
    else r.claimOutboxLocked H selected.id owner ttl now

/-- Here the number of attempts is not looked at. -/
def claimOutboxByID (id owner : String) (ttl : Duration) (now clock : Time) :
    Change Repository OutboxRecord :=
  .guarded (do
    ensure (!blank id) (errorNew "outbox id is required")
    claimCheck owner ttl) r <|
    r.claimOutboxLocked H (trimSpace id) owner ttl (instant now clock)

def settleOutbox (id owner : String) (now : Time) (settle : OutboxRecord → OutboxRecord) :
    Change Repository Unit :=
  match r.outbox[trimSpace id]? with
  | none => .refuse Sentinel.notFound.err r
  | some item =>
    if item.status != .leased || item.owner != owner || !(item.leaseExpiresAt > now) then
      .refuse Sentinel.leaseLost.err r
    else
      let settled := { settle item with owner := "", leaseExpiresAt := 0, updatedAt := now }
      let written := { r with outbox := r.outbox.insert item.id settled, dirty := true }
      .write written { written with outbox := written.outbox.insert item.id item } ()

/-- `deliveryErr` is the text of the delivery's error. -/
def ackOutbox (id owner : String) (now clock : Time) (deliveryErr : Option String) :
    Change Repository Unit :=
  r.settleOutbox id owner (instant now clock) fun item =>
    match deliveryErr with
    | none => { item with status := .acked, lastError := "" }
    | some text =>
      { item with lastError := text, status := if item.spent then .failed else .pending }

def failOutbox (id owner : String) (now clock : Time) (reason : String) :
    Change Repository Unit :=
  .guarded (ensure (!blank reason) (errorNew "outbox failure reason is required")) r <|
    r.settleOutbox id owner (instant now clock) fun item =>
      { item with status := .failed, lastError := reason }

end Repository

end Adro.Control
