import Adro.Control.Laws

/-!
# What a call does to the outbox

`Outcome` reads off the answer of a call what has become of the outbox: one
constructor for each way a call can end. `perform_outcome` says that there are no
others. Everything about runs of the outbox follows from it.
-/

namespace Adro.Control

open Adro.Go Adro.Orchestration

namespace OutboxRecord

def intent (x : OutboxRecord) : OutboxRecord :=
  { x with
    status := .unset, owner := "", leaseExpiresAt := 0, attempts := 0, lastError :=
      "", updatedAt := 0 }

def lease (x : OutboxRecord) : String × Time := (x.owner, x.leaseExpiresAt)

variable {x y : OutboxRecord} {owner : String} {ttl : Duration} {short : Rat → Rat}

theorem scope_of_intent (h : x.intent = y.intent) : x.scope = y.scope := by
  have hp : x.intent.planID = y.intent.planID := by rw [h]
  have hk : x.intent.idempotencyKey = y.intent.idempotencyKey := by rw [h]
  exact Prod.ext hp hk

theorem id_of_intent (h : x.intent = y.intent) : x.id = y.id := by
  have hid : x.intent.id = y.intent.id := by rw [h]
  exact hid

theorem clone_eq : ∃ payload, x.clone short = { x with payload } := by
  unfold clone image
  split
  · cases imageFields short x.payload with
    | none => exact ⟨x.payload, rfl⟩
    | some payload => exact ⟨payload, rfl⟩
  · exact ⟨x.payload, rfl⟩

@[simp] theorem clone_id : (x.clone short).id = x.id := by
  obtain ⟨payload, h⟩ := clone_eq
  rw [h]

@[simp] theorem clone_lease : (x.clone short).lease = x.lease := by
  obtain ⟨payload, h⟩ := clone_eq
  rw [h]
  rfl

/-- What is stored for a new intent has the fields that were given or filled in. -/
theorem stored_eq :
    ∃ payload, Repository.stored H x clock = { x.trimmed.filled clock with payload } :=
  clone_eq

end OutboxRecord

def Call.time : Call → Option Time
  | .claimOutbox _ _ _ now clock _ => some (Repository.instant now clock)
  | .claimOutboxByID _ _ _ now clock => some (Repository.instant now clock)
  | .ackOutbox _ _ now clock _ => some (Repository.instant now clock)
  | .failOutbox _ _ now clock _ => some (Repository.instant now clock)
  | _ => none

def Call.settles : Call → Option (String × String)
  | .ackOutbox id owner _ _ _ => some (trimSpace id, owner)
  | .failOutbox id owner _ _ _ => some (trimSpace id, owner)
  | _ => none

open Repository in
inductive Outcome (H : ControlHost) (r : Repository) (c : Call) :
    Except Err Answer → GoMap OutboxRecord → Prop
  | quiet {out : Except Err Answer} (claims : ∀ x, out ≠ .ok (.claimed x))
    (creates : ∀ x, out ≠ .ok (.enqueued x true)) (settles : c.settles = none ∨ out ≠ .ok .done) :
    Outcome H r c out r.outbox
  | created {record : OutboxRecord} {clock : EnqueueClock} (call : c = .enqueueOutbox record clock)
    (complete : record.trimmed.complete = true) (fresh : r.enqueued record.trimmed = none) :
    Outcome H r c (.ok (.enqueued (stored H record clock) true))
      (r.outbox.insert (enqueueID record clock) (stored H record clock))
  | dropped {record : OutboxRecord} {clock : EnqueueClock} {err : Err}
    (call : c = .enqueueOutbox record clock) (complete : record.trimmed.complete = true)
    (fresh : r.enqueued record.trimmed = none) :
    Outcome H r c (.error err) (r.outbox.erase (enqueueID record clock))
  | claimed {id owner : String} {ttl : Duration} {now : Time} {item : OutboxRecord}
    (time : c.time = some now) (settles : c.settles = none) (found : r.outbox[id]? = some item)
    (open_ : item.status.final = false) (free : item.held now = false)
    (spent : item.spent = true → ∃ given owner ttl t clock,
      c = .claimOutboxByID given owner ttl t clock ∧ trimSpace given = id) :
    Outcome H r c (.ok (.claimed ((item.leasedTo owner ttl now).clone H.short)))
      (r.outbox.insert item.id (item.leasedTo owner ttl now))
  | settled {id owner : String} {now : Time} {item x : OutboxRecord} (time : c.time = some now)
    (call : c.settles = some (id, owner)) (found : r.outbox[id]? = some item)
    (leased : item.status = .leased) (owned : item.owner = owner)
    (running : now < item.leaseExpiresAt) (intent : x.intent = item.intent)
    (ended : x.status ≠ .leased) (attempts : x.attempts = item.attempts) :
    Outcome H r c (.ok .done) (r.outbox.insert item.id x)

variable {H : ControlHost}

/-- A write ends in its answer with the written outbox, or in an error with the one
it is taken back to. -/
theorem settle_write_outbox
    {failure : Err → Err} {P : Except Err ρ' → GoMap OutboxRecord → Prop}
    (hw : P (.ok (f value)) written.outbox) (hu : ∀ err, P (.error err) undone.outbox) :
    P (((Change.write written undone value failure).returning f).settle
        (Repository.persistLocked · fault)).1
      (((Change.write written undone value failure).returning f).settle
        (Repository.persistLocked · fault)).2.outbox := by
  simp only [Change.returning, Change.settle]
  split
  · rename_i saved hsaved
    rw [(Repository.persistLocked_tables hsaved).outbox]
    exact hw
  · exact hu _

theorem outcome_error : Outcome H r c (.error err) r.outbox :=
  .quiet (by simp) (by simp) (.inr (by simp))

theorem settle_returning_ok {ch : Change σ ρ} {y : ρ'}
    (h : ((ch.returning f).settle persist).1 = .ok y) :
    ∃ v, y = f v := by
  cases ch with
  | refuse err left => cases h
  | reply value left => exact ⟨value, (Except.ok.inj h).symm⟩
  | write written undone value failure =>
    simp only [Change.returning, Change.settle] at h
    split at h
    · exact ⟨value, (Except.ok.inj h).symm⟩
    · cases h

/-- The calls that have nothing to do with the outbox answer nothing about it. -/
theorem other_outcome (h : q.call.outboxed = false) :
    Outcome H r q.call (perform H r q).1 (perform H r q).2.outbox := by
  have hkept : (perform H r q).2.outbox = r.outbox :=
    step_all (change_keeps_outbox q.call h) fun w s hs hw => hs.outbox.trans hw
  rw [hkept]
  have hdone {x : Answer} (hx : (perform H r q).1 = .ok x) :
      x = .done ∨ ∃ report, x = .imported report := by
    unfold perform at hx
    cases hc : q.call with
    | saveAgent | saveSquad | createPlan | createPlanWithEvent | saveProjection | appendEvent
    | commitEventProjection | flush =>
      simp only [hc, Call.change] at hx
      obtain ⟨v, hv⟩ := settle_returning_ok hx
      exact .inl hv
    | importDefinitionBundle =>
      simp only [hc, Call.change] at hx
      obtain ⟨v, hv⟩ := settle_returning_ok hx
      exact .inr ⟨v, hv⟩
    | enqueueOutbox | claimOutbox | claimOutboxByID | ackOutbox | failOutbox =>
      simp [hc, Call.outboxed] at h
  refine .quiet (fun x hx => ?_) (fun x hx => ?_) (.inl ?_)
  · obtain hd | ⟨_, hd⟩ := hdone hx <;> cases hd
  · obtain hd | ⟨_, hd⟩ := hdone hx <;> cases hd
  · cases hc : q.call <;> first | rfl | simp [hc, Call.outboxed] at h

theorem enqueue_outcome (record : OutboxRecord) :
    Outcome H r (.enqueueOutbox record clock)
      (perform H r ⟨.enqueueOutbox record clock, fault⟩).1
      (perform H r ⟨.enqueueOutbox record clock, fault⟩).2.outbox := by
  simp only [perform, Call.change]
  unfold Repository.enqueueOutbox
  simp only
  split
  · exact outcome_error
  · rename_i hcomplete
    have hcomplete : record.trimmed.complete = true := by simpa using hcomplete
    cases hfound : r.enqueued record.trimmed with
    | some existing =>
      simp only
      split
      · exact outcome_error
      · exact .quiet (by simp [Change.returning, Change.settle])
          (by simp [Change.returning, Change.settle]) (.inl rfl)
    | none =>
      exact settle_write_outbox
        (.created rfl hcomplete hfound) fun err => by
          rw [GoMap.erase_set]
          exact .dropped rfl hcomplete hfound

variable {id : String}

/-- A claim of one intent; a claim that looks for the next one takes none whose
attempts are spent. -/
theorem claim_outcome (hkeyed : Keyed r.outbox)
    (time : c.time = some now) (settles : c.settles = none)
    (spent : ∀ item, r.outbox[id]? = some item → item.spent = true → ∃ given owner ttl t clock,
      c = .claimOutboxByID given owner ttl t clock ∧ trimSpace given = id) :
    let out := ((r.claimOutboxLocked H id owner ttl now).returning Answer.claimed).settle
      (Repository.persistLocked · fault)
    Outcome H r c out.1 out.2.outbox := by
  unfold Repository.claimOutboxLocked
  cases hfound : r.outbox[id]? with
  | none => exact outcome_error
  | some item =>
    simp only
    split
    · exact outcome_error
    · rename_i hopen
      split
      · exact outcome_error
      · rename_i hfree
        exact settle_write_outbox
          (.claimed time settles hfound (by simpa using hopen) (by simpa using hfree)
            (spent item hfound)) fun err => by
          rw [hkeyed id item hfound, hfound, GoMap.set_set]
          show Outcome H r c _ (r.outbox.insert id item)
          rw [GoMap.set_get_self hfound]
          exact outcome_error

/-- What the search for the next intent selects is one it has not skipped. -/
theorem foldl_preferred (items : List OutboxRecord) (first : OutboxRecord) :
    items.foldl Repository.preferred first = first ∨
      items.foldl Repository.preferred first ∈ items := by
  induction items generalizing first with
  | nil => exact .inl rfl
  | cons item items ih =>
    simp only [List.foldl_cons, List.mem_cons]
    rcases ih (Repository.preferred first item) with h | h
    · rw [h]
      unfold Repository.preferred
      split
      · exact .inr (.inl rfl)
      · exact .inl rfl
    · exact .inr (.inr h)

theorem claimNext_outcome (planID owner : String) (ttl : Duration) (hkeyed : Keyed r.outbox) :
    Outcome H r (.claimOutbox planID owner ttl now clock order)
      (perform H r ⟨.claimOutbox planID owner ttl now clock order, fault⟩).1
      (perform H r ⟨.claimOutbox planID owner ttl now clock order, fault⟩).2.outbox := by
  simp only [perform, Call.change]
  unfold Repository.claimOutbox Change.guarded
  split
  · exact outcome_error
  · simp only
    generalize hitems : r.candidates planID (Repository.instant now clock) order = items
    split
    · exact outcome_error
    · rename_i hid
      refine claim_outcome hkeyed rfl rfl fun item hitem hspent => absurd hspent ?_
      -- The selected record is not the zero one, so it was found and not skipped.
      rcases foldl_preferred items {} with h | h
      · rw [h] at hid
        exact absurd rfl hid
      · generalize items.foldl Repository.preferred {} = selected at h hitem
        rw [← hitems, Repository.candidates, List.mem_filter, List.mem_filterMap] at h
        obtain ⟨⟨k, -, hk⟩, hclaimable⟩ := h
        have hk' : k = selected.id := (hkeyed k selected hk).symm
        rw [hk', hitem] at hk
        simp only [Repository.claimable, Bool.and_eq_true, Bool.not_eq_true'] at hclaimable
        rw [Option.some.inj hk, hclaimable.1.2]
        exact Bool.false_ne_true

theorem settle_outcome {settle : OutboxRecord → OutboxRecord}
    (hkeyed : Keyed r.outbox) (time : c.time = some now)
    (call : c.settles = some (trimSpace id, owner)) (hintent : ∀ x, (settle x).intent = x.intent)
    (hattempts : ∀ x, (settle x).attempts = x.attempts) (hended : ∀ x, (settle x).status ≠ .leased)
    :
    let out := ((r.settleOutbox id owner now settle).returning fun _ => Answer.done).settle
      (Repository.persistLocked · fault)
    Outcome H r c out.1 out.2.outbox := by
  unfold Repository.settleOutbox
  cases hfound : r.outbox[trimSpace id]? with
  | none => exact outcome_error
  | some item =>
    simp only
    split
    · exact outcome_error
    · rename_i hlease
      simp only [Bool.or_eq_true, bne_iff_ne, Bool.not_eq_true', decide_eq_false_iff_not, not_or,
        not_not] at hlease
      obtain ⟨⟨hleased, howner⟩, hrunning⟩ := hlease
      exact settle_write_outbox
        (.settled time call hfound hleased howner hrunning (hintent item) (hended item)
          (hattempts item))
        fun err => by
          rw [hkeyed _ item hfound, GoMap.set_set, GoMap.set_get_self hfound]
          exact outcome_error

theorem perform_outcome (hkeyed : Keyed r.outbox) (q : Request) :
    Outcome H r q.call (perform H r q).1 (perform H r q).2.outbox := by
  cases hq : q.call.outboxed with
  | false => exact other_outcome hq
  | true =>
    obtain ⟨c, fault⟩ := q
    cases c with
    | enqueueOutbox record clock => exact enqueue_outcome record
    | claimOutbox planID owner ttl now clock order =>
      exact claimNext_outcome planID owner ttl hkeyed
    | claimOutboxByID id owner ttl now clock =>
      simp only [perform, Call.change, Repository.claimOutboxByID, Change.guarded]
      split
      · exact outcome_error
      · exact claim_outcome hkeyed rfl rfl fun _ _ _ => ⟨id, owner, ttl, now, clock, rfl, rfl⟩
    | ackOutbox id owner now clock deliveryErr =>
      refine settle_outcome hkeyed rfl rfl (fun x => ?_) (fun x => ?_) fun x => ?_
      · cases deliveryErr <;> rfl
      · cases deliveryErr <;> rfl
      · cases deliveryErr with
        | none => simp
        | some text => simp only; split <;> simp
    | failOutbox id owner now clock reason =>
      simp only [perform, Call.change, Repository.failOutbox, Change.guarded]
      split
      · exact outcome_error
      · exact settle_outcome hkeyed rfl rfl (fun _ => rfl) (fun _ => rfl) fun _ => by simp
    | _ => simp [Call.outboxed] at hq

end Adro.Control
