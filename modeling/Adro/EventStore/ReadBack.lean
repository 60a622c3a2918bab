import Adro.EventStore.Refinement

/-!
# Reading committed events back

Where the texts of the events are valid, a document is read back as the envelope
it was written from, so `Read`, `Head` and a reader that takes one page after the
other see the events of the ledger.
-/

namespace Adro.EventStore

open Adro.Go Adro.Encoding Adro.Event

variable {p : Platform} {db : Database} {l : Ledger p} {b : Batch p} {s : Bytes} {e : Envelope}
  {k : Nat}

/-- The document of an envelope is read back and passes `Verify`. -/
structure Readable (p : Platform) (e : Envelope) : Prop where
  document : unmarshal p (document e) = some e
  verifies : Verifies p e

def AppendRequest.Legible (r : AppendRequest) : Prop := ∀ u ∈ r.events, u.ValidTexts

instance : DecidablePred AppendRequest.Legible := fun r =>
  inferInstanceAs (Decidable (∀ u ∈ r.events, u.ValidTexts))

theorem Linked.previous_valid (h : Linked d es) (hd : Valid d)
    (hes : ∀ e ∈ es, Valid e.envelopeDigest) : ∀ e ∈ es, Valid e.previousDigest := by
  induction es generalizing d with
  | nil => simp
  | cons e es ih =>
    rw [List.forall_mem_cons] at hes ⊢
    exact ⟨h.1 ▸ hd, ih h.2 hes.1 hes.2⟩

theorem Ledger.mem_events (hb : b ∈ l) (he : e ∈ b.envelopes) : e ∈ l.events b.request.streamID :=
  List.mem_flatMap.2 ⟨b, List.mem_filter.2 ⟨hb, by simp⟩, he⟩

theorem Ledger.of_mem_events (he : e ∈ l.events s) :
    ∃ b ∈ l, b.request.streamID = s ∧ e ∈ b.envelopes := by
  obtain ⟨b, hb, he⟩ := List.mem_flatMap.1 he
  obtain ⟨hb, hs⟩ := List.mem_filter.1 hb
  exact ⟨b, hb, by simpa using hs, he⟩

theorem Ledger.Grown.readable (h : l.Grown) (hb : b ∈ l) (hvalid : b.request.Legible)
    (he : e ∈ b.envelopes) : Readable p e := by
  obtain ⟨u, hu, m, hc⟩ := b.event he
  have hstream := h.stream b.request.streamID
  have hmem := Ledger.mem_events hb he
  have hprevious : Valid e.previousDigest :=
    hstream.linked.previous_valid valid_nil (fun f hf => by
      obtain ⟨b', hb', -, hf⟩ := Ledger.of_mem_events hf
      obtain ⟨u, hu, m, hc⟩ := b'.event hf
      exact hc.digest_valid) e hmem
  have hm : e.previousDigest = m.previousDigest := by rw [hc.drafted]; rfl
  obtain ⟨hlow, hhigh⟩ := hstream.numbered.bounds hmem
  have hbound := hstream.bound
  have hschema : e.schemaVersion = 1 := (required_of_ok hc.required).schemaVersion
  refine ⟨unmarshal_marshal (hc.validTexts (hvalid u hu) (hm ▸ hprevious)) ⟨by omega, by omega⟩
    (by rw [hschema]; exact ⟨by decide, by decide⟩) hc.canonical (b.documents e he), ?_⟩
  rw [Verifies, hc.verify]
  rfl

/-- Events with the digest of the request that committed them. -/
def Batch.entries (b : Batch p) : List (Bytes × Envelope) :=
  b.envelopes.map (Prod.mk b.validated.digest)

def Ledger.entries (l : Ledger p) (s : Bytes) : List (Bytes × Envelope) :=
  (l.ofStream s).flatMap Batch.entries

def entryRow (x : Bytes × Envelope) : RecordRow := rowOf x.1 x.2

@[simp] theorem entryRow_sequence : (entryRow x).sequence = x.2.sequence := rfl

theorem Ledger.events_eq : l.events s = (l.entries s).map Prod.snd := by
  simp [Ledger.events, Ledger.entries, Batch.entries, List.map_flatMap]

theorem Refines.rows (h : Refines db l) (s : Bytes) :
    (db.records.rows.filter fun r => r.streamID = s) = (l.entries s).map entryRow := by
  rw [h.records]
  clear h
  induction l with
  | nil => rfl
  | cons b l ih =>
    rw [List.flatMap_cons, List.filter_append, ih]
    have hrow : ∀ r ∈ b.rows, r.streamID = b.request.streamID := by
      intro r hr
      obtain ⟨e, he, rfl⟩ := List.mem_map.1 hr
      exact (b.scope he).1
    by_cases hs : b.request.streamID = s
    · rw [List.filter_eq_self.2 fun r hr => by simp [hrow r hr, hs]]
      simp [Ledger.entries, Ledger.ofStream, hs, Batch.rows, Batch.entries, entryRow]
    · rw [List.filter_eq_nil_iff.2 fun r hr => by simp [hrow r hr, hs]]
      simp [Ledger.entries, Ledger.ofStream, hs]

/-- No two rows of a stream have one number, whatever their tenant says. -/
theorem findAt_iff :
    db.findAt s n = some r ↔ r ∈ db.records.rows ∧ r.streamID = s ∧ r.sequence = n := by
  have hfound {a : RecordRow} (h : db.findAt s n = some a) :
      a ∈ db.records.rows ∧ a.streamID = s ∧ a.sequence = n :=
    ⟨List.mem_of_find?_eq_some h, by simpa using List.find?_some h⟩
  refine ⟨hfound, fun ⟨hr, hstream, hseq⟩ => ?_⟩
  cases hfind : db.findAt s n with
  | none => simpa [hstream, hseq] using Table.find_eq_none.1 hfind r hr
  | some a =>
    obtain ⟨ha, hstream', hseq'⟩ := hfound hfind
    obtain ⟨x, hx, htenant, hx'⟩ := db.recordsRef a ha
    obtain ⟨y, hy, htenant', hy'⟩ := db.recordsRef r hr
    have hsame : a.streamID = r.streamID := hstream'.trans hstream.symm
    have hxy : x = y := Table.eq_of_clash hx hy (hx'.trans (hsame.trans hy'.symm))
    have htenants : a.tenantID = r.tenantID := by rw [← htenant, ← htenant', hxy]
    rw [Table.eq_of_clash ha hr (.inl ⟨htenants, hsame, hseq'.trans hseq.symm⟩)]

section Rows

variable {xs : List (Bytes × Envelope)} {n : Int} {d : Bytes}

theorem rows_after (h : Numbered n (xs.map Prod.snd)) (k : Nat) :
    ((xs.map entryRow).filter fun r => n + k < r.sequence) = (xs.drop k).map entryRow := by
  induction xs generalizing n k with
  | nil => simp
  | cons x xs ih =>
    have hx : (entryRow x).sequence = n + 1 := h.1
    cases k with
    | zero =>
      rw [List.drop_zero, List.filter_eq_self]
      intro r hr
      obtain ⟨y, hy, rfl⟩ := List.mem_map.1 hr
      simpa using (h.bounds (List.mem_map_of_mem hy)).1
    | succ k =>
      have hrest := ih h.2 k
      rw [show n + 1 + (k : Int) = n + ((k + 1 : Nat) : Int) by omega] at hrest
      rw [List.map_cons, List.filter_cons_of_neg, hrest, List.drop_succ_cons]
      rw [decide_eq_true_eq]
      omega

theorem rows_sorted (h : Numbered n (xs.map Prod.snd)) :
    (xs.map entryRow).Pairwise fun a b => decide (a.sequence ≤ b.sequence) := by
  induction xs generalizing n with
  | nil => exact .nil
  | cons x xs ih =>
    refine List.pairwise_cons.2 ⟨fun r hr => ?_, ih h.2⟩
    obtain ⟨y, hy, rfl⟩ := List.mem_map.1 hr
    have hx : (entryRow x).sequence = n + 1 := h.1
    have := (Numbered.bounds h.2 (List.mem_map_of_mem hy)).1
    rw [decide_eq_true_eq, hx]
    exact this.le

/-- The loop of `Read` returns the events of the rows. -/
theorem readRows_entries (hown : ∀ x ∈ xs, x.2.streamID = s) (hread : ∀ x ∈ xs, Readable p x.2)
    (hlinked : Linked d (xs.map Prod.snd)) (hnumbered : Numbered n (xs.map Prod.snd)) :
    readRows p s (n + 1) d (xs.map entryRow) = .ok (xs.map Prod.snd) := by
  induction xs generalizing n d with
  | nil => rfl
  | cons x xs ih =>
    rw [List.forall_mem_cons] at hown hread
    have hrest := ih hown.2 hread.2 hlinked.2 hnumbered.2
    have hdoc : unmarshal p (entryRow x).envelopeJSON = some x.2 := hread.1.document
    rw [List.map_cons, readRows, hdoc]
    dsimp only
    rw [if_pos ⟨hown.1, rfl, ⟨rfl, rfl, rfl, rfl, rfl, rfl, rfl, rfl⟩, hnumbered.1, hlinked.1,
      hread.1.verifies⟩]
    have hdigest : (entryRow x).envelopeDigest = x.2.envelopeDigest := rfl
    rw [hdigest, hrest]
    rfl

end Rows

/-- What a ledger says of a stream whose events can all be read. -/
structure Reads (p : Platform) (db : Database) (s : Bytes) (log : List Envelope) : Prop where
  valid : validateID p "stream" s = .ok ()
  linked : Linked [] log
  numbered : Numbered 0 log
  rows : ∃ xs : List (Bytes × Envelope), xs.map Prod.snd = log ∧
    (db.records.rows.filter fun r => r.streamID = s) = xs.map entryRow
  own : ∀ e ∈ log, e.streamID = s
  readable : ∀ e ∈ log, Readable p e
  head : headOf db s = ((log.length : Int), lastDigest [] log)
  missing : db.findStream s = none ↔ log = []

theorem Refines.reads (h : Refines db l) (hs : validateID p "stream" s = .ok ())
    (hvalid : ∀ b ∈ l, b.request.Legible) : Reads p db s (l.events s) := by
  have hstream := h.grown.stream s
  refine ⟨hs, hstream.linked, hstream.numbered, ⟨l.entries s, Ledger.events_eq.symm, h.rows s⟩,
    hstream.own, fun e he => ?_, h.headOf s, ?_⟩
  · obtain ⟨b, hb, -, he⟩ := Ledger.of_mem_events he
    exact h.grown.readable hb (hvalid b hb) he
  · rw [h.streams, Option.map_eq_none_iff, List.getLast?_eq_none_iff, Ledger.events,
      List.flatMap_eq_nil_iff]
    constructor
    · intro hnil
      simp [hnil]
    · intro hnil
      refine List.eq_nil_iff_forall_not_mem.2 fun b hb => b.nonempty (hnil b hb)

section Pages

variable {log : List Envelope}

theorem Reads.findAt (h : Reads p db s log) (hk : log[k]? = some e) :
    ∃ d, db.findAt s (k + 1) = some (rowOf d e) := by
  obtain ⟨xs, rfl, hrows⟩ := h.rows
  have hseq : e.sequence = k + 1 := by simpa using h.numbered.get k e hk
  rw [List.getElem?_map] at hk
  obtain ⟨x, hx, rfl⟩ := Option.map_eq_some_iff.1 hk
  have hmem : entryRow x ∈ xs.map entryRow := List.mem_map_of_mem (List.mem_of_getElem? hx)
  rw [← hrows, List.mem_filter, decide_eq_true_eq] at hmem
  exact ⟨x.1, findAt_iff.2 ⟨hmem.1, hmem.2, hseq⟩⟩

theorem lastDigest_take (hk : log[k]? = some e) (d : Bytes) :
    lastDigest d (log.take (k + 1)) = e.envelopeDigest := by
  rw [List.take_add_one, hk, Option.toList_some, lastDigest_append d d (List.cons_ne_nil _ _)]
  simp

section
variable (h : Reads p db s log)
include h

theorem Reads.digestAt (hk : k ≤ log.length) :
    digestAt db s k = .ok (lastDigest [] (log.take k)) := by
  unfold EventStore.digestAt
  cases k with
  | zero => simp
  | succ k =>
    obtain ⟨e, he⟩ : ∃ e, log[k]? = some e := ⟨_, List.getElem?_eq_getElem hk⟩
    obtain ⟨d, hfind⟩ := h.findAt he
    rw [if_pos (by push_cast; omega)]
    push_cast
    rw [hfind, lastDigest_take he]
    rfl

theorem Reads.recordsAfter (k : Nat) (limit : Int) :
    ∃ xs : List (Bytes × Envelope), xs.map Prod.snd = (log.drop k).take limit.toNat ∧
      db.recordsAfter s k limit = xs.map entryRow := by
  obtain ⟨xs, rfl, hrows⟩ := h.rows
  refine ⟨(xs.drop k).take limit.toNat, by simp, ?_⟩
  have hafter := rows_after h.numbered k
  have hdrop : Numbered (0 + k) ((xs.drop k).map Prod.snd) := by
    rw [List.map_drop]
    exact h.numbered.drop k
  have hfilter : (db.records.rows.filter fun r => r.streamID = s ∧ (k : Int) < r.sequence) =
      (xs.drop k).map entryRow := by
    rw [← hafter, ← hrows]
    simp [Bool.and_comm]
  rw [Database.recordsAfter, hfilter, List.mergeSort_of_pairwise (rows_sorted hdrop), List.map_take]

/-- A page of the log passes the checks against the head of its stream. -/
theorem Reads.checkPage {stream : StreamRow} {limit : Int}
    (hseq : stream.currentSequence = log.length) (hdigest : stream.headDigest = lastDigest [] log)
    (hk : k < log.length) (hlimit : 1 ≤ limit) :
    checkPage stream limit ((log.drop k).take limit.toNat) =
      .ok ((log.drop k).take limit.toNat) := by
  have hlength : ((log.drop k).take limit.toNat).length = min limit.toNat
    (log.length - k) := by simp
  have hnumbered := (h.numbered.drop k).take limit.toNat
  have hne : (log.drop k).take limit.toNat ≠ [] := by
    rw [← List.length_pos_iff]
    omega
  have hlast := hnumbered.last hne
  have hsome := List.getLast?_eq_some_getLast hne
  unfold EventStore.checkPage
  rw [hsome]
  simp only [resultOf, hsome, Option.map_some, Option.getD_some] at hlast
  dsimp only
  rw [if_neg (by omega), if_neg]
  rintro ⟨hend, hdiff⟩
  -- A page that reaches the head is the rest of the log.
  have hrest : (log.drop k).take limit.toNat = log.drop k :=
    List.take_of_length_le (by rw [List.length_drop]; omega)
  refine hdiff ?_
  have hlog : lastDigest [] log = lastDigest [] (log.drop k) := by
    conv_lhs => rw [← List.take_append_drop k log]
    exact lastDigest_append [] [] (hrest ▸ hne)
  have hpage : lastDigest [] ((log.drop k).take limit.toNat) =
      (((log.drop k).take limit.toNat).getLast hne).envelopeDigest := by
    rw [lastDigest, hsome]
    rfl
  rw [hdigest, hlog, ← hpage, hrest]

/-- `Read` returns the events after a sequence, as many as the limit lets through. -/
theorem Reads.read {after limit : Int} (hafter : 0 ≤ after) (hlimit : 1 ≤ limit)
    (hmax : limit ≤ maxReadLimit) :
    read p db s after limit = .ok ((log.drop after.toNat).take limit.toNat) := by
  obtain ⟨k, rfl⟩ := Int.eq_ofNat_of_zero_le hafter
  unfold EventStore.read
  rw [h.valid]
  have hensure : ensure (decide (0 ≤ (k : Int)) && decide (1 ≤ limit) &&
    decide (limit ≤ maxReadLimit))
      (errorText "event read requires after >= 0 and limit between 1 and 1000") = .ok () := by
    rw [ensure_ok]
    simp [hlimit, hmax]
  simp only [hensure, bind, Except.bind]
  cases hfind : db.findStream s with
  | none => simp [h.missing.1 hfind]
  | some stream =>
    obtain ⟨hseq, hdigest⟩ := Prod.mk.inj ((headOf_some hfind).symm.trans h.head)
    dsimp only
    split
    · rw [List.drop_of_length_le (by omega)]
      simp
    · obtain ⟨xs, hxs, hrecords⟩ := h.recordsAfter k limit
      have hnumbered := (h.numbered.drop k).take limit.toNat
      rw [zero_add] at hnumbered
      have hsub : ∀ e ∈ (log.drop k).take limit.toNat, e ∈ log := fun e he =>
        List.mem_of_mem_drop (List.mem_of_mem_take he)
      have hmem : ∀ x ∈ xs, x.2 ∈ log := fun x hx =>
        hsub _ (hxs ▸ List.mem_map_of_mem hx)
      rw [h.digestAt (by omega)]
      dsimp only
      rw [hrecords, readRows_entries (fun x hx => h.own _ (hmem x hx))
        (fun x hx => h.readable _ (hmem x hx)) (hxs ▸ (h.linked.drop k).take _)
        (hxs ▸ hnumbered), hxs]
      exact h.checkPage hseq hdigest (by omega) hlimit

theorem Reads.notCorrupt :
    EventStore.read p db s after limit ≠ .error errCorrupt := by
  by_cases hargs : 0 ≤ after ∧ 1 ≤ limit ∧ limit ≤ maxReadLimit
  · rw [h.read hargs.1 hargs.2.1 hargs.2.2]
    simp
  · -- Other arguments are refused before anything is read.
    have hrefused : (decide (0 ≤ after) && decide (1 ≤ limit) && decide (limit ≤ maxReadLimit)) =
      false := by
      simpa using hargs
    unfold EventStore.read
    rw [h.valid, hrefused]
    simp [bind, Except.bind, ensure, errorText, errCorrupt]

/-- `Head` returns the number of events and the digest of the last. -/
theorem Reads.headRead : EventStore.head p db s = .ok ((log.length : Int), lastDigest [] log) := by
  unfold EventStore.head
  rw [h.valid]
  simp only [bind, Except.bind]
  cases hfind : db.findStream s with
  | none => simp [h.missing.1 hfind]
  | some stream =>
    obtain ⟨hseq, hdigest⟩ := Prod.mk.inj ((headOf_some hfind).symm.trans h.head)
    have hne : log ≠ [] := fun hnil => by
      rw [h.missing.2 hnil] at hfind
      cases hfind
    have hpos := List.length_pos_of_ne_nil hne
    obtain ⟨e, he⟩ : ∃ e, log[log.length - 1]? = some e :=
      ⟨_, List.getElem?_eq_getElem (by omega)⟩
    obtain ⟨d, hrow⟩ := h.findAt he
    have hmem := List.mem_of_getElem? he
    have hlast : lastDigest [] log = e.envelopeDigest := by
      have := lastDigest_take he []
      rwa [List.take_of_length_le (by omega)] at this
    have hsequence : e.sequence = stream.currentSequence := by
      have := h.numbered.get _ _ he
      omega
    dsimp only
    rw [if_neg (by omega), show stream.currentSequence =
      ((log.length - 1 : Nat) : Int) + 1 by omega, hrow]
    have hdoc : unmarshal p (rowOf d e).envelopeJSON = some e := (h.readable e hmem).document
    dsimp only
    rw [hdoc]
    dsimp only
    rw [if_pos ⟨(h.readable e hmem).verifies, by omega, h.own e hmem, hlast.symm.trans hdigest.symm,
      hlast.symm.trans hdigest.symm⟩, hdigest, show ((log.length - 1 : Nat) :
      Int) + 1 = log.length by omega]

end

/-- A reader that asks for one page after the other, each after the last event it has seen. -/
def readPages (p : Platform) (db : Database) (s : Bytes) :
    Int → List Int → Except Error (List Envelope)
  | _, [] => .ok []
  | after, limit :: limits => do
    let page ← EventStore.read p db s after limit
    let rest ← readPages p db s ((page.getLast?.map (·.sequence)).getD after) limits
    .ok (page ++ rest)

theorem Reads.readPages (h : Reads p db s log) (hk : k ≤ log.length)
    (hlimits : ∀ n ∈ limits, 1 ≤ n ∧ n ≤ maxReadLimit) :
    readPages p db s k limits = .ok ((log.drop k).take (limits.map Int.toNat).sum) := by
  induction limits generalizing k with
  | nil => simp [EventStore.readPages]
  | cons n limits ih =>
    rw [List.forall_mem_cons] at hlimits
    rw [EventStore.readPages, h.read (by omega) hlimits.1.1 hlimits.1.2, Int.toNat_natCast]
    -- The next page starts where this one ends.
    have hnext : ((((log.drop k).take n.toNat).getLast?.map (·.sequence)).getD (k : Int)) =
        ((min (k + n.toNat) log.length : Nat) : Int) := by
      by_cases hnil : (log.drop k).take n.toNat = []
      · have hlength := congrArg List.length hnil
        rw [List.length_take, List.length_drop, List.length_nil] at hlength
        rw [hnil]
        simp only [List.getLast?_nil, Option.map_none, Option.getD_none]
        omega
      · have hlast := ((h.numbered.drop k).take n.toNat).last hnil
        rw [List.length_take, List.length_drop] at hlast
        have hsome := List.getLast?_eq_some_getLast hnil
        simp only [resultOf, hsome, Option.map_some, Option.getD_some] at hlast ⊢
        omega
    simp only [bind, Except.bind]
    rw [hnext, ih (by omega) hlimits.2]
    rw [List.map_cons, List.sum_cons, List.take_add, List.drop_drop]
    by_cases hle : k + n.toNat ≤ log.length
    · rw [Nat.min_eq_left hle]
    · rw [Nat.min_eq_right (by omega), List.drop_of_length_le (by omega : log.length ≤ log.length),
        List.drop_of_length_le (by omega : log.length ≤ k + n.toNat)]

end Pages

end Adro.EventStore
