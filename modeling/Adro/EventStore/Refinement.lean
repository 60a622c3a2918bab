import Adro.EventStore.Ledger
import Adro.Lib.Runs

/-!
# The tables refine the ledger

`Refines db l` reads a ledger off the tables: their rows are those of its
batches, in order, and the row of a stream is what its last batch left. Every
call keeps the relation: an append extends the ledger by one batch, any other
call leaves it.
-/

namespace Adro.EventStore

open Adro.Go Adro.Encoding Adro.Event

variable {p : Platform} {db db' : Database} {l : Ledger p} {b : Batch p} {s t : Bytes}

def Batch.rows (b : Batch p) : List RecordRow := b.envelopes.map (rowOf b.validated.digest)

def Batch.messages (b : Batch p) : List OutboxRow :=
  messageRows b.validated.tenantID b.request.streamID (resultOf b.envelopes).lastSequence 0
    b.request.outbox

def Batch.streamRow (b : Batch p) : StreamRow :=
  ⟨b.request.streamID, b.validated.tenantID, b.validated.workspaceID,
    (resultOf b.envelopes).lastSequence, lastDigest [] b.envelopes⟩

def Batch.snapshotRow (t s : Bytes) (old : Option SnapshotRow) (b : Batch p) : Option SnapshotRow :=
  match b.request.snapshot with
  | some w =>
    if b.validated.tenantID = t ∧ b.request.streamID = s then
      some ⟨b.validated.tenantID, b.request.streamID, w.sequence, w.digest, w.payload.getD []⟩
    else old
  | none => old

structure Refines (db : Database) (l : Ledger p) : Prop where
  grown : l.Grown
  records : db.records.rows = l.flatMap Batch.rows
  outbox : db.outbox.rows = l.flatMap Batch.messages
  streams : ∀ s, db.findStream s = (l.ofStream s).getLast?.map Batch.streamRow
  snapshots : ∀ t s, db.findSnapshot t s = l.foldl (Batch.snapshotRow t s) none

theorem Refines.empty : Refines Database.empty ([] : Ledger p) :=
  ⟨.nil, rfl, rfl, fun _ => rfl, fun _ _ => rfl⟩

theorem resultOf_append (h : fs ≠ []) :
    (resultOf (es ++ fs)).lastSequence = (resultOf fs).lastSequence := by
  simp only [resultOf, List.getLast?_append_of_ne_nil _ h]

theorem lastDigest_append (d d' : Bytes) (h : fs ≠ []) :
    lastDigest d (es ++ fs) = lastDigest d' fs := by
  rw [lastDigest, lastDigest, List.getLast?_append_of_ne_nil _ h,
    List.getLast?_eq_some_getLast h]
  rfl

theorem Refines.headOf (h : Refines db l) (s : Bytes) :
    headOf db s = (((l.events s).length : Int), lastDigest [] (l.events s)) := by
  have hstream := h.grown.stream s
  unfold EventStore.headOf
  rw [h.streams]
  cases hlast : (l.ofStream s).getLast? with
  | none =>
    rw [List.getLast?_eq_none_iff] at hlast
    simp [Ledger.events, hlast]
  | some b =>
    obtain ⟨init, hinit⟩ := List.getLast?_eq_some_iff.1 hlast
    have hevents : l.events s = init.flatMap (·.envelopes) ++ b.envelopes := by
      simp [Ledger.events, hinit]
    have hne : l.events s ≠ [] := by simp [hevents, b.nonempty]
    have hseq := hstream.numbered.last hne
    rw [zero_add] at hseq
    simp only [Option.map_some, Option.getD_some, Batch.streamRow]
    rw [← hseq, hevents, resultOf_append b.nonempty, lastDigest_append [] [] b.nonempty]

theorem Ledger.Grown.owner (h : l.Grown) (hb : b ∈ l.ofStream s) (hc : c ∈ l.ofStream s) :
    c.validated.tenantID = b.validated.tenantID ∧
      c.validated.workspaceID = b.validated.workspaceID := by
  induction h with
  | nil => simp [Ledger.ofStream] at hb
  | @snoc l d hl hd ih =>
    rw [Ledger.ofStream_snoc] at hb hc
    split at hb
    · next hs =>
      have howner := hd.owner
      rw [hs] at howner
      rw [if_pos hs] at hc
      rcases List.mem_append.1 hb with hb | hb <;> rcases List.mem_append.1 hc with hc | hc
      · exact ih hb hc
      · rw [List.mem_singleton.1 hc]
        exact ⟨(howner b hb).1.symm, (howner b hb).2.symm⟩
      · rw [List.mem_singleton.1 hb]
        exact howner c hc
      · rw [List.mem_singleton.1 hb, List.mem_singleton.1 hc]
        exact ⟨rfl, rfl⟩
    · next hs =>
      rw [if_neg hs] at hc
      exact ih (by simpa using hb) (by simpa using hc)

variable {request : AppendRequest} {assertedAt committedAt : Time} {newID : Nat → Bytes}
  {validated : ValidatedAppend} {envelopes : List Envelope}

def Appends.batch (h : Appends p db request assertedAt committedAt newID validated envelopes db') :
    Batch p where
  request := request
  validated := validated
  previous := (headOf db request.streamID).2
  envelopes := envelopes
  accepted := h.accepted
  committed := ⟨_, _, h.committed⟩
  documents := h.documents
  snapshot := h.snapshot

theorem Refines.append (h : Refines db l)
    (ha : Appends p db request assertedAt committedAt newID validated envelopes db') :
    Refines db' (l ++ [ha.batch]) := by
  have hhead := h.headOf request.streamID
  refine ⟨.snoc h.grown ⟨?_, ?_, fun c hc => ?_⟩, ?_, ?_, fun s => ?_, fun t s => ?_⟩
  · show request.expectedSequence = _
    rw [← ha.expected, hhead]
    rfl
  · show (EventStore.headOf db request.streamID).2 = _
    rw [hhead]
    rfl
  · -- The last batch of the stream has the owner that the append checked.
    have hc' : c ∈ l.ofStream request.streamID := hc
    have hlast := List.getLast?_eq_some_getLast (List.ne_nil_of_mem hc')
    have hrow := h.streams request.streamID
    rw [hlast] at hrow
    obtain ⟨htenant, hworkspace⟩ := ha.owner _ hrow
    obtain ⟨ht, hw⟩ := h.grown.owner (List.getLast_mem (List.ne_nil_of_mem hc')) hc'
    exact ⟨ht.trans htenant, hw.trans hworkspace⟩
  · rw [ha.records, h.records, List.flatMap_append, List.flatMap_singleton]
    rfl
  · rw [ha.outbox, h.outbox, List.flatMap_append, List.flatMap_singleton]
    rfl
  · rw [ha.streams, Ledger.ofStream_snoc]
    show _ = Option.map Batch.streamRow
      (l.ofStream s ++ if request.streamID = s then [ha.batch] else []).getLast?
    split
    · rw [List.getLast?_append_of_ne_nil _ (List.cons_ne_nil _ _)]
      rfl
    · rw [List.append_nil, h.streams]
  · rw [ha.snapshots, List.foldl_append, ← h.snapshots]
    rfl

structure SameEvents (db db' : Database) : Prop where
  streams : db'.streams = db.streams
  records : db'.records = db.records
  outbox : db'.outbox = db.outbox
  snapshots : db'.snapshots = db.snapshots

theorem SameEvents.refl : SameEvents db db := ⟨rfl, rfl, rfl, rfl⟩

theorem Refines.same (h : Refines db l) (hs : SameEvents db db') : Refines db' l := by
  refine ⟨h.grown, hs.records ▸ h.records, hs.outbox ▸ h.outbox, fun s => ?_, fun t s => ?_⟩
  · rw [Database.findStream, hs.streams]
    exact h.streams s
  · rw [Database.findSnapshot, hs.snapshots]
    exact h.snapshots t s

theorem putLease_same (h : db.putLease context row = .ok db') : SameEvents db db' := by
  unfold Database.putLease at h
  split at h
  · cases h
    exact ⟨rfl, rfl, rfl, rfl⟩
  · cases h

theorem insertLease_same (h : db.insertLease context row = .ok db') : SameEvents db db' := by
  unfold Database.insertLease at h
  split at h
  · cases h
    exact ⟨rfl, rfl, rfl, rfl⟩
  · cases h

theorem updateLease_same {set : LeaseRow → LeaseRow}
    (h : db.updateLease context q set = .ok (db', n)) : SameEvents db db' := by
  unfold Database.updateLease at h
  split at h
  · cases h
    exact ⟨rfl, rfl, rfl, rfl⟩
  · cases h

variable {lease : Lease} {ttl : Duration}

theorem acquire_same
    (h : acquire backend p db tenantID streamID owner ttl now = .ok (db', lease)) :
    SameEvents db db' := by
  cases backend with
  | sqlite =>
    simp only [acquire, Sqlite.acquire, bind_ok] at h
    obtain ⟨⟨⟩, -, token, -, db₁, hdb₁, h⟩ := h
    cases h
    exact putLease_same hdb₁
  | postgres =>
    simp only [acquire, Postgres.acquire, bind_ok] at h
    obtain ⟨⟨⟩, -, clock, -, expiresAt, -, h⟩ := h
    split at h
    · simp only [bind_ok] at h
      obtain ⟨db₁, hdb₁, h⟩ := h
      cases h
      exact insertLease_same hdb₁
    · simp only [bind_ok] at h
      obtain ⟨clock, -, h⟩ := h
      split at h
      · cases h
      · simp only [bind_ok] at h
        obtain ⟨⟨db₁, n⟩, hdb₁, h⟩ := h
        cases h
        exact updateLease_same hdb₁

theorem renew_same (h : renew backend p db lease ttl now = .ok (db', lease')) :
    SameEvents db db' := by
  cases backend with
  | sqlite =>
    simp only [renew, Sqlite.renew, bind_ok] at h
    obtain ⟨⟨⟩, -, ⟨⟩, -, ⟨db₁, n⟩, hdb₁, h⟩ := h
    split at h
    · cases h
    · cases h
      exact updateLease_same hdb₁
  | postgres =>
    simp only [renew, Postgres.renew, bind_ok] at h
    obtain ⟨⟨⟩, -, ⟨⟩, -, clock, -, ⟨db₁, n⟩, hdb₁, h⟩ := h
    split at h
    · cases h
    · cases h
      exact updateLease_same hdb₁

theorem release_same (h : release backend p db lease now = .ok db') : SameEvents db db' := by
  cases backend with
  | sqlite =>
    simp only [release, Sqlite.release, bind_ok] at h
    obtain ⟨⟨⟩, -, ⟨⟩, -, ⟨db₁, n⟩, hdb₁, h⟩ := h
    split at h
    · cases h
    · cases h
      exact updateLease_same hdb₁
  | postgres =>
    simp only [release, Postgres.release, bind_ok] at h
    obtain ⟨⟨⟩, -, ⟨⟩, -, clock, -, ⟨db₁, n⟩, hdb₁, h⟩ := h
    split at h
    · cases h
    · cases h
      exact updateLease_same hdb₁

/-- A call that returns the result of an earlier append. -/
def IsReplay (p : Platform) (db : Database) (c : Call) (result : AppendResult) : Prop :=
  ∃ request assertedAt committedAt newID validated,
    c = .append request assertedAt committedAt newID ∧
    validateAppend p request = .ok validated ∧
    findReplay p db request validated.digest = .ok (some result)

theorem step_cases (backend : Backend) (p : Platform) (db : Database) (c : Call) :
    (SameEvents db (step backend p db c) ∧
        ∀ result, respond backend p db c = .ok (.appended result) → IsReplay p db c result) ∨
      ∃ request assertedAt committedAt newID validated envelopes,
        c = .append request assertedAt committedAt newID ∧
        Appends p db request assertedAt committedAt newID validated envelopes
          (step backend p db c) ∧
        respond backend p db c = .ok (.appended (resultOf envelopes)) := by
  unfold step respond
  cases hcall : call backend p db c with
  | error e => exact .inl ⟨.refl, fun _ h => by cases h⟩
  | ok x =>
    cases c with
    | append request assertedAt committedAt newID =>
      simp only [call, map_ok] at hcall
      obtain ⟨⟨db₁, result⟩, happend, rfl, rfl⟩ := hcall
      obtain ⟨validated, hv, ⟨hreplay, rfl⟩ | ⟨envelopes, ha, rfl⟩⟩ := append_ok happend
      · refine .inl ⟨.refl, fun _ h => ?_⟩
        cases h
        exact ⟨_, _, _, _, validated, rfl, hv, hreplay⟩
      · exact .inr ⟨_, _, _, _, validated, envelopes, rfl, ha, rfl⟩
    | read | head =>
      simp only [call, map_ok] at hcall
      obtain ⟨-, -, rfl, rfl⟩ := hcall
      exact .inl ⟨.refl, fun _ h => by cases h⟩
    | acquire tenantID streamID owner ttl now =>
      simp only [call, map_ok] at hcall
      obtain ⟨⟨db₁, lease⟩, h, rfl, rfl⟩ := hcall
      exact .inl ⟨acquire_same h, fun _ h => by cases h⟩
    | renew lease ttl now =>
      simp only [call, map_ok] at hcall
      obtain ⟨⟨db₁, lease⟩, h, rfl, rfl⟩ := hcall
      exact .inl ⟨renew_same h, fun _ h => by cases h⟩
    | release lease now =>
      simp only [call, map_ok] at hcall
      obtain ⟨db₁, h, rfl, rfl⟩ := hcall
      exact .inl ⟨release_same h, fun _ h => by cases h⟩

theorem Refines.step (backend : Backend) (h : Refines db l) (c : Call) :
    ∃ l', Refines (step backend p db c) l' ∧ l <+: l' := by
  rcases step_cases backend p db c with ⟨hs, -⟩ | ⟨_, _, _, _, _, _, -, ha, -⟩
  · exact ⟨l, h.same hs, List.prefix_rfl⟩
  · exact ⟨_, h.append ha, List.prefix_append _ _⟩

theorem Refines.run (backend : Backend) (h : Refines db l) (run : List Call) :
    ∃ l', Refines (Runs.exec (EventStore.step backend p) db run) l' ∧ l <+: l' := by
  induction run generalizing db l with
  | nil => exact ⟨l, h, List.prefix_rfl⟩
  | cons c run ih =>
    obtain ⟨l₁, h₁, hle₁⟩ := h.step backend c
    obtain ⟨l₂, h₂, hle₂⟩ := ih h₁
    exact ⟨l₂, h₂, hle₁.trans hle₂⟩

end Adro.EventStore
