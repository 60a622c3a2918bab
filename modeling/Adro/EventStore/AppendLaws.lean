import Adro.EventStore.Adapters

/-!
# What an append writes

Statement by statement, what a successful write leaves in the tables, and from
that the one fact about `Append` that both adapters share: it returns a replay
and changes nothing, or it commits the events of the request at the end of their
stream.
-/

namespace Adro.EventStore

open Adro.Go Adro.Encoding Adro.Event

variable {p : Platform} {db db' : Database} {dialect : Dialect} {request : AppendRequest}
  {validated : ValidatedAppend} {envelopes : List Envelope} {streamID tenantID id : Bytes}
  {s row : StreamRow}

def document (e : Envelope) : Bytes :=
  match e.marshal with
  | .ok raw => raw
  | .error _ => []

def rowOf (appendDigest : Bytes) (e : Envelope) : RecordRow := recordOf appendDigest e (document e)

theorem insertEvents_ok (h : insertEvents dialect validated db envelopes = .ok db') :
    (∀ e ∈ envelopes, e.marshal = .ok (document e)) ∧
      db'.records.rows = db.records.rows ++ envelopes.map (rowOf validated.digest) ∧
      db'.streams = db.streams ∧ db'.outbox = db.outbox ∧ db'.snapshots = db.snapshots ∧
      db'.leases = db.leases := by
  induction envelopes generalizing db with
  | nil =>
    cases h
    simp
  | cons e es ih =>
    simp only [insertEvents, bind_ok, mapError_ok, encoded_ok] at h
    obtain ⟨raw, hraw, db₁, hinsert, h⟩ := h
    unfold Database.insertRecord at hinsert
    split at hinsert
    · cases hinsert
      obtain ⟨hdocs, hrecords, hframe⟩ := ih h
      have hdoc : document e = raw := by rw [document, hraw]
      refine ⟨List.forall_mem_cons.2 ⟨by rw [hdoc, hraw], hdocs⟩, ?_, hframe⟩
      rw [hrecords, Table.rows_insert, List.append_assoc, List.map_cons, rowOf, hdoc]
      rfl
    · cases hinsert

theorem scope_clash (h : a = x ∧ c = y) :
    (a = b ∧ c = d) ↔ (b = x ∧ d = y) := by
  obtain ⟨rfl, rfl⟩ := h
  simp [eq_comm]

def snapshotAfter (db : Database) (request : AppendRequest) (validated : ValidatedAppend)
    (tenantID streamID : Bytes) : Option SnapshotRow :=
  match request.snapshot with
  | some s =>
    if validated.tenantID = tenantID ∧ request.streamID = streamID then
      some ⟨validated.tenantID, request.streamID, s.sequence, s.digest, s.payload.getD []⟩
    else db.findSnapshot tenantID streamID
  | none => db.findSnapshot tenantID streamID

theorem writeSnapshot_ok (h : writeSnapshot dialect request validated db = .ok db') :
    (∀ tenantID streamID,
        db'.findSnapshot tenantID streamID = snapshotAfter db request validated tenantID streamID) ∧
      db'.streams = db.streams ∧ db'.records = db.records ∧ db'.outbox = db.outbox ∧
      db'.leases = db.leases := by
  unfold writeSnapshot at h
  split at h
  · next hs =>
    cases h
    simp [snapshotAfter, hs]
  · next s hs =>
    split at h
    · cases h
    · next payload hpayload =>
      unfold Database.putSnapshot at h
      split_ifs at h
      split at h
      · next snapshots hput =>
        cases h
        refine ⟨fun tenantID streamID => ?_, rfl, rfl, rfl, rfl⟩
        simp only [snapshotAfter, hs, hpayload]
        show snapshots.find _ = _
        rw [Table.find_upsert hput]
        · simp only [decide_eq_true_eq]
          rfl
        · intro a b hab
          rw [decide_eq_true_eq] at hab ⊢
          exact scope_clash hab
      · cases h

def messageRows (tenantID streamID : Bytes) (sequence : Int) :
    Nat → List OutboxMessage → List OutboxRow
  | _, [] => []
  | index, m :: ms =>
    ⟨tenantID, streamID, sequence, index, m.topic, m.key, m.payload.getD []⟩ ::
      messageRows tenantID streamID sequence (index + 1) ms

theorem insertMessages_ok {sequence : Int}
    (h : insertMessages dialect request validated sequence index db messages = .ok db') :
    db'.outbox.rows = db.outbox.rows ++
        messageRows validated.tenantID request.streamID sequence index messages ∧
      db'.streams = db.streams ∧ db'.records = db.records ∧ db'.snapshots = db.snapshots ∧
      db'.leases = db.leases := by
  induction messages generalizing db index with
  | nil =>
    cases h
    simp [messageRows]
  | cons m ms ih =>
    rw [insertMessages] at h
    split at h
    · cases h
    · next payload hpayload =>
      simp only [bind_ok] at h
      obtain ⟨⟨⟩, -, db₁, hinsert, h⟩ := h
      unfold Database.insertOutbox at hinsert
      split at hinsert
      · cases hinsert
        obtain ⟨houtbox, hframe⟩ := ih h
        refine ⟨?_, hframe⟩
        rw [houtbox, Table.rows_insert, List.append_assoc, messageRows, hpayload]
        rfl
      · cases hinsert

theorem findStream_advance {head : Bytes}
    (h : db.advanceStream context streamID tenantID expected last head = .ok (db', n)) :
    (∀ id, db'.findStream id =
        (db.findStream id).map (Database.advanced streamID tenantID expected last head)) ∧
      n = db.streams.rows.countP (fun s =>
        s.streamID = streamID ∧ s.tenantID = tenantID ∧ s.currentSequence = expected) ∧
      db'.records = db.records ∧ db'.outbox = db.outbox ∧ db'.snapshots = db.snapshots ∧
      db'.leases = db.leases := by
  unfold Database.advanceStream at h
  split at h
  · next hallow =>
    cases h
    refine ⟨fun id => ?_, rfl, rfl, rfl, rfl, rfl⟩
    refine Table.find_update hallow fun s => ?_
    rw [(Database.advanced_keys streamID tenantID expected last head).1]
  · cases h

theorem byKey_stream : Table.ByKey streamSchema fun s => s.streamID = id := by
  intro a b ha hb
  rw [decide_eq_true_eq] at ha hb
  exact ha.trans hb.symm

theorem findStream_streamID (h : db.findStream id = some s) : s.streamID = id := by
  simpa using (Table.find_iff byKey_stream).1 h |>.2

/-- The rows that `Append` adds. -/
structure Adds (db : Database) (request : AppendRequest) (validated : ValidatedAppend)
    (envelopes : List Envelope) (db' : Database) : Prop where
  documents : ∀ e ∈ envelopes, e.marshal = .ok (document e)
  records : db'.records.rows = db.records.rows ++ envelopes.map (rowOf validated.digest)
  outbox : db'.outbox.rows = db.outbox.rows ++ messageRows validated.tenantID request.streamID
    (resultOf envelopes).lastSequence 0 request.outbox
  snapshots : ∀ tenantID streamID,
    db'.findSnapshot tenantID streamID = snapshotAfter db request validated tenantID streamID
  leases : db'.leases = db.leases

/-- What the statements after the checks of `Append` leave. -/
structure Writes (db : Database) (request : AppendRequest) (validated : ValidatedAppend)
    (envelopes : List Envelope) (db' : Database) : Prop
    extends Adds db request validated envelopes db' where
  streams : ∀ id, db'.findStream id = (db.findStream id).map (Database.advanced request.streamID
    validated.tenantID request.expectedSequence (resultOf envelopes).lastSequence
    ((envelopes.getLast?.map (·.envelopeDigest)).getD []))

theorem writeAppend_ok
    (h : writeAppend dialect request validated db envelopes = .ok (db', result)) :
    Writes db request validated envelopes db' ∧ result = resultOf envelopes := by
  unfold writeAppend at h
  simp only [bind_ok] at h
  obtain ⟨db₁, h₁, db₂, h₂, db₃, h₃, ⟨db₄, n⟩, h₄, h⟩ := h
  split at h
  · cases h
  · cases h
    obtain ⟨hdocs, hrecords, s₁, o₁, n₁, l₁⟩ := insertEvents_ok h₁
    obtain ⟨hsnap, s₂, r₂, o₂, l₂⟩ := writeSnapshot_ok h₂
    obtain ⟨houtbox, s₃, r₃, n₃, l₃⟩ := insertMessages_ok h₃
    obtain ⟨s₄, -, r₄, o₄, n₄, l₄⟩ := findStream_advance h₄
    refine ⟨⟨⟨hdocs, ?_, ?_, fun tenantID streamID => ?_, ?_⟩, fun id => ?_⟩, rfl⟩
    · rw [r₄, r₃, r₂, hrecords]
    · rw [o₄, houtbox, o₂, o₁]
    · have hsame : db₁.findSnapshot = db.findSnapshot := by
        unfold Database.findSnapshot
        rw [n₁]
      rw [Database.findSnapshot, n₄, n₃, ← Database.findSnapshot, hsnap, snapshotAfter, hsame]
      rfl
    · rw [l₄, l₃, l₂, l₁]
    · rw [s₄, Database.findStream, s₃, s₂, s₁]
      rfl

/-- The sequence and the digest that a stream has reached. -/
def headOf (db : Database) (streamID : Bytes) : Int × Bytes :=
  ((db.findStream streamID).map fun s => (s.currentSequence, s.headDigest)).getD (0, [])

theorem headOf_none (h : db.findStream id = none) : headOf db id = (0, []) := by simp [headOf, h]

theorem headOf_some (h : db.findStream id = some s) :
    headOf db id = (s.currentSequence, s.headDigest) := by
  simp [headOf, h]

/-- The stream of a row is there, with that row if it was not. -/
structure Ensures (db : Database) (row : StreamRow) (db' : Database) : Prop where
  records : db'.records = db.records
  outbox : db'.outbox = db.outbox
  snapshots : db'.snapshots = db.snapshots
  leases : db'.leases = db.leases
  streams : ∀ id, db'.findStream id =
    if row.streamID = id then some ((db.findStream row.streamID).getD row) else db.findStream id

theorem ensures_some (h : db.findStream row.streamID = some s) : Ensures db row db := by
  refine ⟨rfl, rfl, rfl, rfl, fun id => ?_⟩
  split
  · next heq => rw [← heq, h, Option.getD_some]
  · rfl

theorem ensures_insert (h : db.insertStream context row = .ok db') : Ensures db row db' := by
  unfold Database.insertStream at h
  split at h
  · next hfits =>
    cases h
    refine ⟨rfl, rfl, rfl, rfl, fun id => ?_⟩
    show (db.streams.insert row hfits).find _ = _
    rw [Table.find_insert, ← Database.findStream]
    by_cases hid : row.streamID = id
    · rw [← hid]
      simp
    · simp [hid]
  · cases h

theorem ensureStream_ok (h : Postgres.ensureStream db row = .ok db') : Ensures db row db' := by
  unfold Postgres.ensureStream at h
  split at h
  · next s hs =>
    cases h
    exact ensures_some hs
  · exact ensures_insert h

theorem findReplay_unknown {digest : Bytes}
    (hkey : ∀ tenantID key, db.findByKey tenantID request.streamID key = none) :
    findReplay p db request digest = .ok none := by
  have hevents : ∀ items, replayedEvents p db request digest [] items = .ok [] := by
    intro items
    induction items with
    | nil => rfl
    | cons item items ih =>
      rw [replayedEvents, hkey]
      simpa using ih
  simp [findReplay, hevents, bind, Except.bind]

theorem findByKey_new (hnone : db.findStream streamID = none) :
    db.findByKey tenantID streamID key = none := by
  refine Table.find_eq_none.2 fun r hr hq => ?_
  rw [decide_eq_true_eq] at hq
  obtain ⟨s, hs, -, hid⟩ := db.recordsRef r hr
  exact Table.find_eq_none.1 hnone s hs (by simpa using hid.trans hq.2.1)

theorem Ensures.findReplay {digest : Bytes} (hrow : row.streamID = request.streamID)
    (h : Ensures db row db') :
    findReplay p db' request digest = findReplay p db request digest := by
  cases hs : db.findStream row.streamID with
  | some s =>
    have hsame : db'.findStream request.streamID = db.findStream request.streamID := by
      rw [h.streams, if_pos hrow, ← hrow, hs, Option.getD_some]
    have hevents : ∀ es items, replayedEvents p db' request digest es items =
        replayedEvents p db request digest es items := by
      intro es items
      induction items generalizing es with
      | nil => rfl
      | cons item items ih =>
        simp only [replayedEvents, Database.findByKey, h.records, ih]
    have houtbox : verifyReplayOutbox db' request = verifyReplayOutbox db request := by
      funext tenantID sequence
      rw [verifyReplayOutbox, Database.outboxAt, h.outbox]
      rfl
    have hsnapshot : verifyReplaySnapshot db' request = verifyReplaySnapshot db request := by
      funext tenantID sequence
      rw [verifyReplaySnapshot, hsame, Database.findSnapshot, h.snapshots]
      rfl
    rw [EventStore.findReplay, hevents, houtbox, hsnapshot]
    rfl
  | none =>
    rw [hrow] at hs
    have hkey : db'.findByKey = db.findByKey := by
      unfold Database.findByKey
      rw [h.records]
    rw [findReplay_unknown fun _ _ => findByKey_new hs,
      findReplay_unknown fun _ _ => by rw [hkey]; exact findByKey_new hs]

/-- What an append that is no replay found, and the events it commits. -/
structure Checked (p : Platform) (db : Database) (request : AppendRequest)
    (assertedAt committedAt : Time) (newID : Nat → Bytes) (validated : ValidatedAppend)
    (envelopes : List Envelope) : Prop where
  accepted : validateAppend p request = .ok validated
  fresh : findReplay p db request validated.digest = .ok none
  owner : ∀ s, db.findStream request.streamID = some s →
    s.tenantID = validated.tenantID ∧ s.workspaceID = validated.workspaceID
  expected : (headOf db request.streamID).1 = request.expectedSequence
  asserted : ∀ a ∈ request.lease, ∃ row,
    db.findLease validated.tenantID request.streamID = some row ∧ row.owner = a.owner ∧
      row.fencingToken = a.fencingToken ∧ unixMicro assertedAt < row.expiresAt
  committed : commitEvents p request.expectedSequence (normalizeTime committedAt) newID 0
    (headOf db request.streamID).2 request.events = .ok envelopes
  snapshot : checkSnapshot p request (resultOf envelopes).lastSequence = .ok ()

/-- An append that is no replay, and the tables it left. -/
structure Appends (p : Platform) (db : Database) (request : AppendRequest)
    (assertedAt committedAt : Time) (newID : Nat → Bytes) (validated : ValidatedAppend)
    (envelopes : List Envelope) (db' : Database) : Prop
    extends Checked p db request assertedAt committedAt newID validated envelopes,
      Adds db request validated envelopes db' where
  streams : ∀ id, db'.findStream id =
    if request.streamID = id then
      some ⟨request.streamID, validated.tenantID, validated.workspaceID,
        (resultOf envelopes).lastSequence, (envelopes.getLast?.map (·.envelopeDigest)).getD []⟩
    else db.findStream id

theorem assertRequest_ok
    (h : assertRequest db request tenantID now = .ok ()) : ∀ a ∈ request.lease, ∃ row t,
      db.findLease tenantID request.streamID = some row ∧ row.owner = a.owner ∧
        row.fencingToken = a.fencingToken ∧ now = .ok t ∧ t < row.expiresAt := by
  intro a ha
  rw [assertRequest, Option.mem_def.1 ha] at h
  dsimp only at h
  unfold assertLease at h
  split at h
  · cases h
  · split at h
    · cases h
    · next row hrow =>
      rw [bind_ok] at h
      obtain ⟨t, ht, h⟩ := h
      split at h
      · cases h
      · next hheld =>
        simp only [not_or, not_not, not_le] at hheld
        exact ⟨row, t, hrow, hheld.1, hheld.2.1, ht, hheld.2.2⟩

/-- The statements of an append on the tables in which its stream was ensured. -/
theorem Writes.appends
    (hensure : Ensures db ⟨request.streamID, validated.tenantID, validated.workspaceID, 0, []⟩ db₁)
    (hw : Writes db₁ request validated envelopes db')
    (hc : Checked p db request assertedAt committedAt newID validated envelopes) :
    Appends p db request assertedAt committedAt newID validated envelopes db' := by
  refine ⟨hc, ⟨hw.documents, ?_, ?_, fun tenantID streamID => ?_, ?_⟩, fun id => ?_⟩
  · rw [hw.records, hensure.records]
  · rw [hw.outbox, hensure.outbox]
  · have hsame : db₁.findSnapshot = db.findSnapshot := by
      unfold Database.findSnapshot
      rw [hensure.snapshots]
    rw [hw.snapshots, snapshotAfter, hsame]
    rfl
  · rw [hw.leases, hensure.leases]
  · have expected := hc.expected
    rw [hw.streams, hensure.streams]
    by_cases hid : request.streamID = id
    · rw [if_pos hid, if_pos hid, Option.map_some]
      unfold headOf at expected
      cases hs : db.findStream request.streamID with
      | none =>
        rw [hs] at expected
        simp [Database.advanced, ← expected]
      | some s =>
        rw [hs] at expected
        obtain ⟨htenant, hworkspace⟩ := hc.owner s hs
        have hstream := findStream_streamID hs
        rw [Database.advanced, if_pos ⟨hstream, htenant, expected⟩]
        simp [hstream, htenant, hworkspace]
    · rw [if_neg hid, if_neg hid]
      cases hs : db.findStream id with
      | none => rfl
      | some s =>
        have : ¬ s.streamID = request.streamID := fun h =>
          hid (h.symm.trans (findStream_streamID hs))
        simp [Database.advanced, this]

variable {assertedAt committedAt : Time} {newID : Nat → Bytes} {result : AppendResult}

theorem loadStream_eq (id : Bytes) : Sqlite.loadStream db id = ((headOf db id).1, (headOf db id).2,
    (db.findStream id).map fun s => (s.tenantID, s.workspaceID)) := by
  unfold Sqlite.loadStream headOf
  cases db.findStream id <;> rfl

theorem insertMissing_ok
    (h : Sqlite.insertMissing db (db.findStream row.streamID).isSome row = .ok db') :
    Ensures db row db' := by
  unfold Sqlite.insertMissing at h
  split at h
  · next hs =>
    cases h
    obtain ⟨s, hs⟩ := Option.isSome_iff_exists.1 hs
    exact ensures_some hs
  · exact ensures_insert h

/-- A successful append is a replay that changes nothing, or commits its events. -/
def AppendOk (p : Platform) (db : Database) (request : AppendRequest)
    (assertedAt committedAt : Time)
    (newID : Nat → Bytes) (db' : Database) (result : AppendResult) : Prop :=
  ∃ validated, validateAppend p request = .ok validated ∧
    (findReplay p db request validated.digest = .ok (some result) ∧ db' = db ∨
      ∃ envelopes, Appends p db request assertedAt committedAt newID validated envelopes db' ∧
        result = resultOf envelopes)

theorem sqlite_append_ok
    (h : Sqlite.append p db request assertedAt committedAt newID = .ok (db', result)) :
    AppendOk p db request assertedAt committedAt newID db' result := by
  unfold Sqlite.append at h
  simp only [bind_ok] at h
  obtain ⟨validated, hv, replay, hreplay, h⟩ := h
  refine ⟨validated, hv, ?_⟩
  cases replay with
  | some r =>
    cases h
    exact .inl ⟨hreplay, rfl⟩
  | none =>
    simp only [loadStream_eq, Option.isSome_map, bind_ok, ensure_ok, beq_iff_eq] at h
    obtain ⟨⟨⟩, howner, ⟨⟩, hexpected, ⟨⟩, hlease, envelopes, hcommit, ⟨⟩, hsnapshot,
      db₁, hdb₁, h⟩ := h
    obtain ⟨hw, hresult⟩ := writeAppend_ok h
    refine .inr ⟨envelopes, hw.appends (insertMissing_ok hdb₁)
      ⟨hv, hreplay, fun s hs => ?_, hexpected, fun a ha => ?_, hcommit, hsnapshot⟩, hresult⟩
    · simpa [hs] using howner
    · obtain ⟨row, t, hrow, ho, htoken, ht, hlt⟩ := assertRequest_ok hlease a ha
      cases ht
      exact ⟨row, hrow, ho, htoken, hlt⟩

theorem databaseNowMicros_ok (h : Postgres.databaseNowMicros now = .ok t) :
    t = unixMicro now := by
  unfold Postgres.databaseNowMicros Postgres.bigint at h
  split at h
  · next hrange =>
    cases h
    exact (i64_eq hrange.1 hrange.2).symm
  · cases h

theorem postgres_append_ok
    (h : Postgres.append p db request assertedAt committedAt newID = .ok (db', result)) :
    AppendOk p db request assertedAt committedAt newID db' result := by
  unfold Postgres.append at h
  simp only [bind_ok] at h
  obtain ⟨validated, hv, db₁, hdb₁, stream, hstream, replay, hreplay, h⟩ := h
  have hensure := ensureStream_ok hdb₁
  rw [hensure.findReplay rfl] at hreplay
  refine ⟨validated, hv, ?_⟩
  cases replay with
  | some r =>
    cases h
    -- There is a record of the stream, so the stream was there.
    cases hs : db.findStream request.streamID with
    | none => cases (findReplay_unknown fun _ _ => findByKey_new hs).symm.trans hreplay
    | some s =>
      rw [Postgres.ensureStream, hs] at hdb₁
      cases hdb₁
      exact .inl ⟨hreplay, rfl⟩
  | none =>
    simp only [bind_ok, ensure_ok, beq_iff_eq, Bool.and_eq_true] at h
    obtain ⟨⟨⟩, howner, ⟨⟩, hexpected, ⟨⟩, hlease, envelopes, hcommit, ⟨⟩, hsnapshot, h⟩ := h
    obtain ⟨hw, hresult⟩ := writeAppend_ok h
    have hload : stream = (db.findStream request.streamID).getD
        ⟨request.streamID, validated.tenantID, validated.workspaceID, 0, []⟩ := by
      unfold Postgres.loadStreamForUpdate at hstream
      rw [hensure.streams, if_pos rfl] at hstream
      cases hstream
      rfl
    have hhead : headOf db request.streamID = (stream.currentSequence, stream.headDigest) := by
      rw [headOf, hload]
      cases db.findStream request.streamID <;> rfl
    refine .inr ⟨envelopes, hw.appends hensure ⟨hv, hreplay, fun s hs => ?_,
      by rw [hhead, hexpected], fun a ha => ?_, by rw [hhead, hcommit], hsnapshot⟩, hresult⟩
    · rw [hload, hs] at howner
      exact howner
    · obtain ⟨row, t, hrow, ho, htoken, ht, hlt⟩ := assertRequest_ok hlease a ha
      rw [Database.findLease, hensure.leases] at hrow
      exact ⟨row, hrow, ho, htoken, databaseNowMicros_ok ht ▸ hlt⟩

theorem append_ok (h : append b p db request assertedAt committedAt newID = .ok (db', result)) :
    AppendOk p db request assertedAt committedAt newID db' result := by
  cases b with
  | sqlite => exact sqlite_append_ok h
  | postgres => exact postgres_append_ok h

theorem append_replay (hv : validateAppend p request = .ok validated)
    (h : findReplay p db request validated.digest = .ok (some result)) :
    append b p db request assertedAt committedAt newID = .ok (db, result) := by
  cases b with
  | sqlite => simp [append, Sqlite.append, hv, h, bind, Except.bind]
  | postgres =>
    cases hs : db.findStream request.streamID with
    | none => cases (findReplay_unknown fun _ _ => findByKey_new hs).symm.trans h
    | some s =>
      simp [append, Postgres.append, Postgres.ensureStream, Postgres.loadStreamForUpdate, hv, hs, h,
        bind, Except.bind]

end Adro.EventStore
