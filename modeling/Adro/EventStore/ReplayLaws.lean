import Adro.EventStore.ReadBack

/-!
# Replays

A request that was just committed is found as a replay with its result, and what
is found once is found in every later state. A replay returns events of the
ledger; a request of which some key is known is replayed or refused.
-/

namespace Adro.EventStore

open Adro.Go Adro.Encoding Adro.Event

variable {p : Platform} {db db' : Database} {l l' : Ledger p} {b : Batch p} {s : Bytes}
  {e : Envelope} {request : AppendRequest} {digest : Bytes} {es : List Envelope}
  {streamID key : Bytes} {row : RecordRow}

/-- An event of a request that is found with its row. -/
structure Found (p : Platform) (db : Database) (request : AppendRequest) (digest : Bytes)
    (u : Uncommitted) (e : Envelope) (row : RecordRow) : Prop where
  stored : db.findByKey u.tenantID request.streamID u.idempotencyKey = some row
  same : row.appendDigest = digest
  document : unmarshal p row.envelopeJSON = some e
  verifies : Verifies p e
  streamID : e.streamID = request.streamID
  tenantID : e.tenantID = u.tenantID
  agrees : row.Agrees e

theorem replayedEvents_cons
    (hrow : db.findByKey u.tenantID request.streamID u.idempotencyKey = some row) :
    replayedEvents p db request digest acc (u :: us) = .ok es ↔
      ∃ e, Found p db request digest u e row ∧
        replayedEvents p db request digest (acc ++ [e]) us = .ok es := by
  rw [replayedEvents, hrow]
  constructor
  · intro h
    dsimp only at h
    split_ifs at h with hdigest
    split at h
    · cases h
    · next e he =>
      split_ifs at h with hverify hagree
      exact ⟨e, ⟨hrow, not_not.1 hdigest, he, hverify, hagree.1, hagree.2.1, hagree.2.2⟩, h⟩
  · rintro ⟨e, hf, h⟩
    dsimp only
    rw [if_neg (by simpa using hf.same), hf.document]
    dsimp only
    rw [if_neg (by simpa using hf.verifies), if_pos ⟨hf.streamID, hf.tenantID, hf.agrees⟩]
    exact h

theorem replayedEvents_found (hacc : acc ≠ []) :
    replayedEvents p db request digest acc items = .ok es ↔
      ∃ fs, es = acc ++ fs ∧
        List.Forall₂ (fun u e => ∃ row, Found p db request digest u e row) items fs := by
  induction items generalizing acc es with
  | nil => simp [replayedEvents, eq_comm]
  | cons u us ih =>
    constructor
    · intro h
      cases hrow : db.findByKey u.tenantID request.streamID u.idempotencyKey with
      | none => simp [replayedEvents, hrow, hacc] at h
      | some row =>
        obtain ⟨e, hf, h⟩ := (replayedEvents_cons hrow).1 h
        obtain ⟨fs, rfl, hfs⟩ := (ih (by simp)).1 h
        exact ⟨e :: fs, by simp, .cons ⟨row, hf⟩ hfs⟩
    · rintro ⟨fs, rfl, hfs⟩
      cases hfs with
      | @cons _ e _ fs hf hfs =>
        obtain ⟨row, hf⟩ := hf
        exact (replayedEvents_cons hf.stored).2 ⟨e, hf, (ih (by simp)).2 ⟨fs, by simp, hfs⟩⟩

theorem replayedEvents_ok :
    replayedEvents p db request digest [] items = .ok es ↔
      ∃ skipped found, items = skipped ++ found ∧
        (∀ u ∈ skipped, db.findByKey u.tenantID request.streamID u.idempotencyKey = none) ∧
        List.Forall₂ (fun u e => ∃ row, Found p db request digest u e row) found es := by
  induction items with
  | nil =>
    constructor
    · intro h
      cases h
      exact ⟨[], [], by simp⟩
    · rintro ⟨skipped, found, hitems, -, hfound⟩
      obtain ⟨-, rfl⟩ := List.append_eq_nil_iff.1 hitems.symm
      cases hfound
      rfl
  | cons u us ih =>
    cases hrow : db.findByKey u.tenantID request.streamID u.idempotencyKey with
    | none =>
      have hskip : replayedEvents p db request digest [] (u :: us) =
          replayedEvents p db request digest [] us := by
        rw [replayedEvents, hrow]
        simp
      rw [hskip, ih]
      constructor
      · rintro ⟨skipped, found, rfl, hskipped, hfound⟩
        exact ⟨u :: skipped, found, rfl, List.forall_mem_cons.2 ⟨hrow, hskipped⟩, hfound⟩
      · rintro ⟨skipped, found, hitems, hskipped, hfound⟩
        cases skipped with
        | nil =>
          subst hitems
          cases hfound with
          | cons hf _ =>
            obtain ⟨row, hf⟩ := hf
            cases hf.stored.symm.trans hrow
        | cons v skipped =>
          obtain ⟨rfl, rfl⟩ := List.cons.inj hitems
          exact ⟨skipped, found, rfl, (List.forall_mem_cons.1 hskipped).2, hfound⟩
    | some row =>
      rw [replayedEvents_cons hrow]
      constructor
      · rintro ⟨e, hf, h⟩
        obtain ⟨fs, rfl, hfs⟩ := (replayedEvents_found (by simp)).1 h
        exact ⟨[], u :: us, rfl, by simp, .cons ⟨row, hf⟩ hfs⟩
      · rintro ⟨skipped, found, hitems, hskipped, hfound⟩
        cases skipped with
        | cons v skipped =>
          obtain ⟨rfl, -⟩ := List.cons.inj hitems
          rw [hskipped u (by simp)] at hrow
          cases hrow
        | nil =>
          subst hitems
          cases hfound with
          | @cons _ e _ fs hf hfs =>
            obtain ⟨row', hf⟩ := hf
            cases hf.stored.symm.trans hrow
            exact ⟨e, hf, (replayedEvents_found (by simp)).2 ⟨fs, by simp, hfs⟩⟩

def AppendRequest.tenantID (r : AppendRequest) : Bytes := (r.events.head?.map (·.tenantID)).getD []

def bySequence (es : List Envelope) : List Envelope :=
  es.mergeSort fun a b => a.sequence ≤ b.sequence

/-- A replay that was found: the envelopes of all its events and its side effects. -/
structure Replays (p : Platform) (db : Database) (request : AppendRequest) (digest : Bytes)
    (es : List Envelope) : Prop where
  found : List.Forall₂ (fun u e => ∃ row, Found p db request digest u e row) request.events es
  nonempty : es ≠ []
  follow : followExpected request.expectedSequence 0 (bySequence es) = true
  outbox : verifyReplayOutbox db request request.tenantID
    (resultOf (bySequence es)).lastSequence = .ok ()
  snapshot : verifyReplaySnapshot db request request.tenantID
    (resultOf (bySequence es)).lastSequence =
    .ok ()

theorem findReplay_some : findReplay p db request digest = .ok (some result) ↔
    ∃ es, Replays p db request digest es ∧ result = resultOf (bySequence es) := by
  unfold findReplay
  rw [bind_ok]
  constructor
  · rintro ⟨es, hes, h⟩
    by_cases hnil : es = []
    · rw [if_pos hnil] at h
      cases h
    rw [if_neg hnil] at h
    simp only [bind_ok, ensure_ok, beq_iff_eq] at h
    obtain ⟨⟨⟩, hlength, ⟨⟩, hfollow, ⟨⟩, houtbox, ⟨⟩, hsnapshot, h⟩ := h
    cases h
    obtain ⟨skipped, found, hitems, -, hfound⟩ := replayedEvents_ok.1 hes
    -- As many were found as there are events, so none was skipped.
    have hskipped : skipped = [] := by
      have hlen := hfound.length_eq
      have hsum := congrArg List.length hitems
      rw [List.length_append] at hsum
      rw [← List.length_eq_zero_iff]
      omega
    rw [hskipped] at hitems
    exact ⟨es, ⟨hitems ▸ hfound, hnil, hfollow, houtbox, hsnapshot⟩, rfl⟩
  · rintro ⟨es, h, rfl⟩
    refine ⟨es, replayedEvents_ok.2 ⟨[], _, rfl, by simp, h.found⟩, ?_⟩
    rw [if_neg h.nonempty]
    simp only [bind_ok, ensure_ok, beq_iff_eq]
    exact ⟨(), h.found.length_eq.symm, (), h.follow, (), h.outbox, (), h.snapshot, rfl⟩

theorem findReplay_none (h : findReplay p db request digest = .ok none) :
    ∀ u ∈ request.events, db.findByKey u.tenantID request.streamID u.idempotencyKey = none := by
  unfold findReplay at h
  rw [bind_ok] at h
  obtain ⟨es, hes, h⟩ := h
  split_ifs at h with hnil
  · obtain ⟨skipped, found, hitems, hskipped, hfound⟩ := replayedEvents_ok.1 hes
    rw [hnil] at hfound
    cases hfound
    rw [List.append_nil] at hitems
    exact hitems ▸ hskipped
  · simp only [bind_ok] at h
    obtain ⟨⟨⟩, -, ⟨⟩, -, ⟨⟩, -, ⟨⟩, -, h⟩ := h
    cases h

theorem byKey_record : Table.ByKey recordSchema
    fun r => r.tenantID = tenantID ∧ r.streamID = streamID ∧ r.idempotencyKey = key := by
  intro a b ha hb
  rw [decide_eq_true_eq] at ha hb
  exact .inr (.inr ⟨ha.1.trans hb.1.symm, ha.2.1.trans hb.2.1.symm, ha.2.2.trans hb.2.2.symm⟩)

theorem findByKey_iff :
    db.findByKey tenantID streamID key = some row ↔ row ∈ db.records.rows ∧
      row.tenantID = tenantID ∧ row.streamID = streamID ∧ row.idempotencyKey = key := by
  rw [Database.findByKey, Table.find_iff byKey_record, decide_eq_true_eq]

theorem Refines.mem_rows (h : Refines db l) :
    row ∈ db.records.rows ↔ ∃ b ∈ l, ∃ e ∈ b.envelopes, row = rowOf b.validated.digest e := by
  rw [h.records, List.mem_flatMap]
  simp only [Batch.rows, List.mem_map, eq_comm]

def Batch.last (b : Batch p) : Int := (resultOf b.envelopes).lastSequence

theorem Ledger.Grown.last (h : l.Grown) (hb : l.Continues b) :
    b.request.expectedSequence = (l.events b.request.streamID).length ∧
      Numbered b.request.expectedSequence b.envelopes ∧
      b.request.expectedSequence + b.envelopes.length ≤ maxInt64 ∧
      b.last = b.request.expectedSequence + b.envelopes.length ∧ 0 < b.envelopes.length := by
  have hexpected := hb.expected
  have hbound := (h.stream b.request.streamID).bound
  obtain ⟨hnumbered, hmax⟩ := b.numbered (by omega)
  exact ⟨hexpected, hnumbered, hmax, hnumbered.last b.nonempty,
    List.length_pos_of_ne_nil b.nonempty⟩

theorem Ledger.Grown.numbered (h : l.Grown) (hb : b ∈ l) :
    Numbered b.request.expectedSequence b.envelopes ∧
      b.request.expectedSequence + b.envelopes.length ≤ maxInt64 ∧
      b.last ≤ (l.events b.request.streamID).length := by
  induction h with
  | nil => cases hb
  | @snoc l c hl hc ih =>
    rcases List.mem_append.1 hb with hb | hb
    · obtain ⟨hnumbered, hmax, hlast⟩ := ih hb
      refine ⟨hnumbered, hmax, hlast.trans ?_⟩
      rw [Ledger.events_snoc, List.length_append]
      omega
    · rw [List.mem_singleton.1 hb]
      obtain ⟨hexpected, hnumbered, hmax, hlast, -⟩ := hl.last hc
      refine ⟨hnumbered, hmax, ?_⟩
      rw [Ledger.events_snoc, if_pos rfl, List.length_append]
      omega

theorem Ledger.Grown.ordered (h : l.Grown) :
    l.Pairwise fun b c => b.request.streamID = c.request.streamID → b.last < c.last := by
  induction h with
  | nil => exact .nil
  | @snoc l c hl hc ih =>
    rw [List.pairwise_append]
    refine ⟨ih, List.pairwise_singleton _ _, fun b hb d hd hs => ?_⟩
    rw [List.mem_singleton.1 hd] at hs ⊢
    obtain ⟨-, -, hlast⟩ := hl.numbered hb
    obtain ⟨hexpected, -, -, hclast, hpos⟩ := hl.last hc
    rw [hs] at hlast
    omega

theorem Ledger.Grown.unsnoc (h : Ledger.Grown (l ++ [b])) : l.Grown ∧ l.Continues b := by
  generalize hm : l ++ [b] = m at h
  cases h with
  | nil => simp at hm
  | snoc hl hc =>
    obtain ⟨rfl, heq⟩ := List.append_inj' hm rfl
    cases heq
    exact ⟨hl, hc⟩

theorem Ledger.Grown.later (h : Ledger.Grown (l ++ l')) (hb : b ∈ l') :
    ((l.events b.request.streamID).length : Int) < b.last := by
  induction l' using List.reverseRecOn with
  | nil => cases hb
  | append_singleton l' c ih =>
    rw [← List.append_assoc] at h
    obtain ⟨hl, hc⟩ := h.unsnoc
    rcases List.mem_append.1 hb with hb | hb
    · exact ih hl hb
    · rw [List.mem_singleton.1 hb]
      obtain ⟨hexpected, -, -, hlast, hpos⟩ := hl.last hc
      have hle : (l.events c.request.streamID).length ≤
        ((l ++ l').events c.request.streamID).length := by
        simp [Ledger.events, Ledger.ofStream]
      omega

section Messages

variable {t : Bytes} {n : Int}

theorem messageRows_scope : ∀ r ∈ messageRows t s n i ms,
    r.tenantID = t ∧ r.streamID = s ∧ r.sequence = n ∧ i ≤ r.ordinal := by
  induction ms generalizing i with
  | nil => simp [messageRows]
  | cons m ms ih =>
    rw [messageRows, List.forall_mem_cons]
    refine ⟨by simp, fun r hr => ?_⟩
    obtain ⟨h₁, h₂, h₃, h₄⟩ := ih r hr
    exact ⟨h₁, h₂, h₃, by omega⟩

theorem messageRows_sorted :
    (messageRows t s n i ms).Pairwise fun a b => decide (a.ordinal ≤ b.ordinal) := by
  induction ms generalizing i with
  | nil => exact .nil
  | cons m ms ih =>
    rw [messageRows, List.pairwise_cons]
    refine ⟨fun r hr => ?_, ih⟩
    have := (messageRows_scope r hr).2.2.2
    rw [decide_eq_true_eq]
    show i ≤ r.ordinal
    omega

theorem sameMessages_rows : sameMessages (messageRows t s n i ms) ms = true := by
  induction ms generalizing i with
  | nil => rfl
  | cons m ms ih => simp [messageRows, sameMessages, ih]

end Messages

theorem tenantID_eq (h : validateAppend p request = .ok validated) :
    request.tenantID = validated.tenantID := by
  have ha := validateAppend_ok h
  cases hevents : request.events with
  | nil => exact absurd hevents ha.nonempty
  | cons u us =>
    have := (ha.scope u (by simp [hevents])).2.1
    simpa [AppendRequest.tenantID, hevents] using this

theorem numbered_sorted (h : Numbered n es) : bySequence es = es := by
  refine List.mergeSort_of_pairwise ?_
  induction es generalizing n with
  | nil => exact .nil
  | cons e es ih =>
    refine List.pairwise_cons.2 ⟨fun f hf => ?_, ih h.2⟩
    have := (Numbered.bounds h.2 hf).1
    have he := h.1
    rw [decide_eq_true_eq]
    omega

theorem numbered_follow {n : Int} {i : Nat} (h : Numbered (n + i) es) (hnonneg : 0 ≤ n)
    (hmax : n + i + es.length ≤ maxInt64) : followExpected n i es = true := by
  induction es generalizing i with
  | nil => rfl
  | cons e es ih =>
    rw [List.length_cons] at hmax
    have hrest := ih (i := i + 1) (by push_cast; rw [← add_assoc]; exact h.2) (by push_cast; omega)
    rw [followExpected, hrest, i64_eq (by omega) (by omega), h.1]
    simp

/-- Batches of the stream that end elsewhere have no messages at `n`. -/
theorem messages_elsewhere (h : ∀ c ∈ l, c.request.streamID = s → c.last ≠ n) :
    ((l.flatMap Batch.messages).filter fun r => r.tenantID = t ∧ r.streamID = s ∧ r.sequence = n) =
      [] := by
  refine List.filter_eq_nil_iff.2 fun r hr hq => ?_
  obtain ⟨c, hc, hr⟩ := List.mem_flatMap.1 hr
  obtain ⟨-, hs, hn, -⟩ := messageRows_scope r hr
  rw [decide_eq_true_eq] at hq
  exact h c hc (hs.symm.trans hq.2.1) (hn.symm.trans hq.2.2)

theorem messages_own : (b.messages.filter fun r => r.tenantID = b.validated.tenantID ∧
    r.streamID = b.request.streamID ∧ r.sequence = b.last) = b.messages := by
  refine List.filter_eq_self.2 fun r hr => ?_
  obtain ⟨ht, hs, hn, -⟩ := messageRows_scope r hr
  exact decide_eq_true ⟨ht, hs, hn⟩

theorem forall₂_mem (h : List.Forall₂ R xs ys) (himp : ∀ x y, x ∈ xs → y ∈ ys → R x y → S x y) :
    List.Forall₂ S xs ys := by
  rw [List.forall₂_iff_zip] at h ⊢
  refine ⟨h.1, fun hz => ?_⟩
  obtain ⟨hx, hy⟩ := List.of_mem_zip hz
  exact himp _ _ hx hy (h.2 hz)

theorem Refines.replays (h : Refines db (l ++ [b])) (hvalid : b.request.Legible) :
    Replays p db b.request b.validated.digest b.envelopes ∧ bySequence b.envelopes =
      b.envelopes := by
  have hb : b ∈ l ++ [b] := by simp
  obtain ⟨hnumbered, hmax, -⟩ := h.grown.numbered hb
  have hsorted := numbered_sorted hnumbered
  have haccepted := validateAppend_ok b.accepted
  have htenant := tenantID_eq b.accepted
  refine ⟨⟨forall₂_mem b.commits.each fun u e hu he ⟨m, hc⟩ => ?_, b.nonempty, ?_, ?_, ?_⟩, hsorted⟩
  · have hread := h.grown.readable hb hvalid he
    have hscope := b.scope he
    have hkey : e.idempotencyKey = u.idempotencyKey := by rw [hc.drafted]; rfl
    have hu' := (haccepted.scope u hu).2.1
    refine ⟨rowOf b.validated.digest e,
      findByKey_iff.2 ⟨h.mem_rows.2 ⟨b, hb, e, he, rfl⟩, ?_, ?_, ?_⟩,
      rfl, hread.document, hread.verifies, hscope.1, hscope.2.1.trans hu'.symm,
      ⟨rfl, rfl, rfl, rfl, rfl, rfl, rfl, rfl⟩⟩
    · exact hscope.2.1.trans hu'.symm
    · exact hscope.1
    · exact hkey
  · rw [hsorted]
    exact numbered_follow (by simpa using hnumbered) haccepted.expected (by simpa using hmax)
  · have hother : ∀ c ∈ l, c.request.streamID = b.request.streamID → c.last ≠ b.last :=
      fun c hc hs => ((List.pairwise_append.1 h.grown.ordered).2.2 c hc b (by simp) hs).ne
    rw [hsorted, verifyReplayOutbox, ensure_ok, htenant, Database.outboxAt, h.outbox,
      List.flatMap_append, List.flatMap_singleton, List.filter_append, ← Batch.last,
      messages_elsewhere hother, messages_own, List.nil_append, Batch.messages,
      List.mergeSort_of_pairwise messageRows_sorted]
    exact sameMessages_rows
  · rw [verifyReplaySnapshot]
    cases hsnap : b.request.snapshot with
    | none => rfl
    | some w =>
      rw [h.streams, Ledger.ofStream_snoc]
      have hrow : db.findSnapshot b.request.tenantID b.request.streamID =
          some ⟨b.validated.tenantID, b.request.streamID, w.sequence, w.digest,
            w.payload.getD []⟩ := by
        rw [h.snapshots, htenant]
        simp [Batch.snapshotRow, hsnap]
      simp [hrow, ensure]

theorem bySequence_perm : (bySequence es).Perm es := List.mergeSort_perm _ _

theorem Replays.exists_row (h : Replays p db request digest es) (he : e ∈ es) :
    ∃ u row, Found p db request digest u e row := by
  obtain ⟨u, -, hf⟩ := forall₂_right h.found he
  exact ⟨u, hf⟩

theorem Replays.last_le (h : Replays p db request digest es) (hr : Refines db l) :
    (resultOf (bySequence es)).lastSequence ≤ (l.events request.streamID).length := by
  have hne : bySequence es ≠ [] := fun hnil =>
    h.nonempty (List.nil_perm.1 (hnil ▸ bySequence_perm))
  have hsome := List.getLast?_eq_some_getLast hne
  have hmem : (bySequence es).getLast hne ∈ es := bySequence_perm.subset (List.getLast_mem hne)
  obtain ⟨u, row, hf⟩ := h.exists_row hmem
  obtain ⟨hrow, -, hs, -⟩ := findByKey_iff.1 hf.stored
  obtain ⟨b, hb, e, he, rfl⟩ := hr.mem_rows.1 hrow
  have hevent : e ∈ l.events request.streamID := by
    have := Ledger.mem_events hb he
    rwa [← (b.scope he).1, show e.streamID = request.streamID from hs] at this
  have hbound := ((hr.grown.stream _).numbered.bounds hevent).2
  simp only [resultOf, hsome, Option.map_some, Option.getD_some]
  have hse : ((bySequence es).getLast hne).sequence = e.sequence := hf.agrees.1
  omega

theorem foldl_snapshot
    (h : ∀ c ∈ l, c.request.streamID ≠ s) : l.foldl (Batch.snapshotRow t s) old = old := by
  induction l generalizing old with
  | nil => rfl
  | cons c l ih =>
    rw [List.forall_mem_cons] at h
    rw [List.foldl_cons, ih h.2, Batch.snapshotRow]
    split
    · exact if_neg fun hc => h.1 hc.2
    · rfl

theorem Found.later (h : Found p db request digest u e row)
    (hrows : ∀ r ∈ db.records.rows, r ∈ db'.records.rows) : Found p db' request digest u e row := by
  obtain ⟨hrow, hscope⟩ := findByKey_iff.1 h.stored
  exact { h with stored := findByKey_iff.2 ⟨hrows row hrow, hscope⟩ }

/-- A replay that was found is found in every later state, with the same envelopes. -/
theorem Replays.later (h : Replays p db request digest es) (hr : Refines db l)
    (hr' : Refines db' (l ++ l')) : Replays p db' request digest es := by
  have hlast := h.last_le hr
  have hlater : ∀ c ∈ l', c.request.streamID = request.streamID →
      (resultOf (bySequence es)).lastSequence < c.last := by
    intro c hc hs
    have := hr'.grown.later hc
    rw [hs] at this
    omega
  have hrows : ∀ r ∈ db.records.rows, r ∈ db'.records.rows := by
    intro r hmem
    rw [hr'.records, List.flatMap_append, ← hr.records]
    exact List.mem_append_left _ hmem
  refine ⟨h.found.imp fun u e ⟨row, hf⟩ => ⟨row, hf.later hrows⟩, h.nonempty, h.follow, ?_, ?_⟩
  · have houtbox := h.outbox
    unfold verifyReplayOutbox Database.outboxAt
    rw [hr'.outbox, List.flatMap_append, List.filter_append, ← hr.outbox,
      messages_elsewhere fun c hc hs => (hlater c hc hs).ne', List.append_nil]
    exact houtbox
  · have hsnapshot := h.snapshot
    by_cases hmore : ∃ c ∈ l', c.request.streamID = request.streamID
    · -- The stream has grown, so the snapshot is not compared.
      obtain ⟨c, hc, hs⟩ := hmore
      have hgrown := hr'.grown.later hc
      obtain ⟨-, -, hle⟩ := hr'.grown.numbered (List.mem_append_right l hc)
      rw [hs] at hle hgrown
      have hhead := hr'.headOf request.streamID
      unfold verifyReplaySnapshot
      split
      · rfl
      · cases hfind : db'.findStream request.streamID with
        | none =>
          rw [headOf_none hfind, Prod.mk.injEq] at hhead
          omega
        | some stream =>
          rw [headOf_some hfind, Prod.mk.injEq] at hhead
          dsimp only
          rw [if_neg (by omega)]
    · simp only [not_exists, not_and] at hmore
      have hstream : db'.findStream request.streamID = db.findStream request.streamID := by
        have hnone : Ledger.ofStream l' request.streamID = [] :=
          List.filter_eq_nil_iff.2 fun c hc => by simpa using hmore c hc
        rw [hr'.streams, hr.streams, Ledger.ofStream, List.filter_append, ← Ledger.ofStream,
          ← Ledger.ofStream, hnone, List.append_nil]
      have hsnap : db'.findSnapshot request.tenantID request.streamID =
          db.findSnapshot request.tenantID request.streamID := by
        rw [hr'.snapshots, hr.snapshots, List.foldl_append, foldl_snapshot hmore]
      rw [verifyReplaySnapshot, hstream, hsnap]
      exact hsnapshot

/-- A replay from a ledger that can be read returns events of the ledger. -/
theorem Replays.mem_events (h : Replays p db request digest es) (hr : Refines db l)
    (hvalid : ∀ b ∈ l, b.request.Legible) : ∀ e ∈ es, e ∈ l.events request.streamID := by
  intro e he
  obtain ⟨u, row, hf⟩ := h.exists_row he
  obtain ⟨hrow, -, hs, -⟩ := findByKey_iff.1 hf.stored
  obtain ⟨b, hb, e', he', rfl⟩ := hr.mem_rows.1 hrow
  have hdoc := (hr.grown.readable hb (hvalid b hb) he').document
  cases hdoc.symm.trans hf.document
  have hevent := Ledger.mem_events hb he'
  rwa [← (b.scope he').1, hf.streamID] at hevent

end Adro.EventStore
