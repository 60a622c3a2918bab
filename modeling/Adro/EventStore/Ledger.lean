import Adro.EventStore.AppendLaws
import Adro.Lib.Grow

/-!
# The ledger of an event store

What an event store is for: a list of committed batches, each of which continues
its stream by its events, linked by their digests and numbered without gaps. The
model of the tables is compared with it.
-/

namespace Adro.EventStore

open Adro.Go Adro.Encoding Adro.Event

/-- Each envelope names the digest of the one before it. -/
def Linked : Bytes → List Envelope → Prop
  | _, [] => True
  | d, e :: es => e.previousDigest = d ∧ Linked e.envelopeDigest es

def Numbered : Int → List Envelope → Prop
  | _, [] => True
  | n, e :: es => e.sequence = n + 1 ∧ Numbered (n + 1) es

def lastDigest (d : Bytes) (es : List Envelope) : Bytes :=
  (es.getLast?.map (·.envelopeDigest)).getD d

section Chains

@[simp] theorem lastDigest_nil : lastDigest d [] = d := rfl

@[simp] theorem lastDigest_cons : lastDigest d (e :: es) = lastDigest e.envelopeDigest es := by
  cases es with
  | nil => rfl
  | cons f es =>
    simp [lastDigest, List.getLast?_eq_some_getLast (List.cons_ne_nil f es)]

theorem linked_append : Linked d (es ++ fs) ↔ Linked d es ∧ Linked (lastDigest d es) fs := by
  induction es generalizing d with
  | nil => simp [Linked]
  | cons e es ih => simp [Linked, ih, and_assoc]

theorem numbered_append : Numbered n (es ++ fs) ↔ Numbered n es ∧ Numbered (n + es.length) fs := by
  induction es generalizing n with
  | nil => simp [Numbered]
  | cons e es ih =>
    simp only [List.cons_append, Numbered, ih, List.length_cons, and_assoc]
    rw [show n + 1 + (es.length : Int) = n + ((es.length + 1 : Nat) : Int) by omega]

theorem Numbered.get (h : Numbered n es) :
    ∀ (i : Nat) (e : Envelope), es[i]? = some e → e.sequence = n + i + 1 := by
  induction es generalizing n with
  | nil => simp
  | cons e es ih =>
    intro i f hf
    cases i with
    | zero =>
      cases hf
      simpa using h.1
    | succ i =>
      rw [ih h.2 i f hf]
      omega

theorem Numbered.bounds (h : Numbered n es) (he : e ∈ es) :
    n < e.sequence ∧ e.sequence ≤ n + es.length := by
  obtain ⟨i, hi⟩ := List.getElem?_of_mem he
  have := h.get i e hi
  have hlt := (List.getElem?_eq_some_iff.1 hi).1
  omega

theorem Numbered.drop (h : Numbered n es) (k : Nat) : Numbered (n + k) (es.drop k) := by
  induction k generalizing n es with
  | zero => simpa using h
  | succ k ih =>
    cases es with
    | nil => simp [Numbered]
    | cons e es =>
      have := ih h.2
      rw [show n + 1 + (k : Int) = n + ((k + 1 : Nat) : Int) by omega] at this
      exact this

theorem Numbered.take (h : Numbered n es) (k : Nat) : Numbered n (es.take k) := by
  rw [← List.take_append_drop k es, numbered_append] at h
  exact h.1

theorem Linked.drop (h : Linked d es) (k : Nat) :
    Linked (lastDigest d (es.take k)) (es.drop k) := by
  rw [← List.take_append_drop k es, linked_append] at h
  exact h.2

theorem Linked.take (h : Linked d es) (k : Nat) : Linked d (es.take k) := by
  rw [← List.take_append_drop k es, linked_append] at h
  exact h.1

theorem Numbered.getLast (h : Numbered n es) (hlast : es.getLast? = some e) :
    e.sequence = n + es.length := by
  have hne := List.length_pos_of_mem (List.mem_of_getLast? hlast)
  rw [List.getLast?_eq_getElem?] at hlast
  have := h.get _ _ hlast
  omega

theorem Numbered.last (h : Numbered n es) (hne : es ≠ []) :
    (resultOf es).lastSequence = n + es.length := by
  have hlast := List.getLast?_eq_some_getLast hne
  simp only [resultOf, hlast, Option.map_some, Option.getD_some, h.getLast hlast]

end Chains

section Requests

variable {p : Platform} {request : AppendRequest} {validated : ValidatedAppend}

/-- The checks of a request that its commit relies on. -/
structure Accepted (p : Platform) (request : AppendRequest) (validated : ValidatedAppend) :
    Prop where
  nonempty : request.events ≠ []
  expected : 0 ≤ request.expectedSequence
  streamID : validateID p "stream" request.streamID = .ok ()
  scope : ∀ u ∈ request.events, u.streamID = request.streamID ∧ u.tenantID = validated.tenantID ∧
    u.workspaceID = validated.workspaceID
  keys : (request.events.map (·.idempotencyKey)).Nodup

variable {index : Nat}

theorem validateEvents_ok
    (h : validateEvents streamID tenantID workspaceID index seen items = .ok trees) :
    (∀ u ∈ items, u.streamID = streamID ∧ u.tenantID = tenantID ∧ u.workspaceID = workspaceID) ∧
      (items.map (·.idempotencyKey)).Nodup ∧ ∀ u ∈ items, u.idempotencyKey ∉ seen := by
  induction items generalizing index seen trees with
  | nil => simp
  | cons item items ih =>
    rw [validateEvents] at h
    simp only [bind_ok, ensure_ok] at h
    obtain ⟨⟨⟩, hscope, ⟨⟩, -, ⟨⟩, hseen, payload, -, h⟩ := h
    split at h
    · cases h
    · simp only [bind_ok] at h
      obtain ⟨rest, hrest, -⟩ := h
      obtain ⟨hscopes, hkeys, hfresh⟩ := ih hrest
      simp only [Bool.and_eq_true, beq_iff_eq] at hscope
      simp only [Bool.not_eq_true', List.contains_eq_mem, decide_eq_false_iff_not] at hseen
      refine ⟨List.forall_mem_cons.2 ⟨⟨hscope.1.1, hscope.1.2, hscope.2⟩, hscopes⟩, ?_,
        List.forall_mem_cons.2 ⟨hseen, fun u hu hmem => hfresh u hu (List.mem_cons_of_mem _ hmem)⟩⟩
      rw [List.map_cons, List.nodup_cons]
      refine ⟨fun hmem => ?_, hkeys⟩
      obtain ⟨u, hu, heq⟩ := List.mem_map.1 hmem
      exact hfresh u hu (by simp [heq])

theorem validateAppend_ok (h : validateAppend p request = .ok validated) :
    Accepted p request validated := by
  unfold validateAppend at h
  split at h
  · cases h
  · next first rest hevents =>
    simp only [bind_ok, ensure_ok, decide_eq_true_eq, pure_ok] at h
    obtain ⟨⟨⟩, hexpected, ⟨⟩, hstream, ⟨⟩, -, ⟨⟩, -, trees, htrees, ⟨⟩, -, digest, -, rfl⟩ := h
    obtain ⟨hscope, hkeys, -⟩ := validateEvents_ok htrees
    exact ⟨by simp [hevents], hexpected, hstream, hscope, hkeys⟩

structure CommitsAll (p : Platform) (previous : Bytes) (events : List Uncommitted)
    (envelopes : List Envelope) : Prop where
  each : List.Forall₂ (fun u e => ∃ m, Commits p u m e) events envelopes
  linked : Linked previous envelopes

theorem commitEvents_ok
    (h : commitEvents p expected committedAt newID index previous events = .ok envelopes) :
    CommitsAll p previous events envelopes ∧
      (0 ≤ expected + index → expected + index ≤ maxInt64 →
        Numbered (expected + index) envelopes ∧
        expected + index + envelopes.length ≤ maxInt64) := by
  induction events generalizing index previous envelopes with
  | nil =>
    cases h
    exact ⟨⟨.nil, trivial⟩, fun _ hmax => ⟨trivial, by simpa using hmax⟩⟩
  | cons u us ih =>
    rw [commitEvents] at h
    simp only [bind_ok, mapError_ok, pure_ok] at h
    obtain ⟨e, he, es, hes, rfl⟩ := h
    have hcommit := commit_ok he
    obtain ⟨hall, hnumbered⟩ := ih hes
    have hprev : e.previousDigest = previous := by rw [hcommit.drafted]; rfl
    have hseq : e.sequence = i64 (expected + index + 1) := by rw [hcommit.drafted]; rfl
    refine ⟨⟨.cons ⟨_, hcommit⟩ hall.each, hprev, hall.linked⟩, fun hnonneg hmax => ?_⟩
    -- A sequence that wrapped would not be positive.
    have hpos := (required_of_ok hcommit.required).sequence
    have hsucc : e.sequence = expected + index + 1 ∧ expected + index + 1 ≤ maxInt64 := by
      unfold i64 maxInt64 at *
      omega
    obtain ⟨hrest, hle⟩ := hnumbered (by push_cast; omega) (by push_cast; omega)
    push_cast at hrest
    rw [← add_assoc] at hrest
    refine ⟨⟨hsucc.1, hrest⟩, ?_⟩
    rw [List.length_cons]
    omega

end Requests

/-- A request that was committed after an envelope of digest `previous`. -/
structure Batch (p : Platform) where
  request : AppendRequest
  validated : ValidatedAppend
  previous : Bytes
  envelopes : List Envelope
  accepted : validateAppend p request = .ok validated
  committed : ∃ committedAt newID,
    commitEvents p request.expectedSequence committedAt newID 0 previous
    request.events = .ok envelopes
  documents : ∀ e ∈ envelopes, e.marshal = .ok (document e)
  snapshot : checkSnapshot p request (resultOf envelopes).lastSequence = .ok ()

section Batches

variable {p : Platform}

theorem Batch.commits (b : Batch p) : CommitsAll p b.previous b.request.events b.envelopes := by
  obtain ⟨committedAt, newID, h⟩ := b.committed
  exact (commitEvents_ok h).1

theorem Batch.numbered (b : Batch p) (h : b.request.expectedSequence ≤ maxInt64) :
    Numbered b.request.expectedSequence b.envelopes ∧
      b.request.expectedSequence + b.envelopes.length ≤ maxInt64 := by
  obtain ⟨committedAt, newID, hcommit⟩ := b.committed
  have := (commitEvents_ok hcommit).2 (by simpa using (validateAppend_ok b.accepted).expected)
    (by simpa using h)
  simpa using this

theorem Batch.length (b : Batch p) : b.envelopes.length = b.request.events.length :=
  b.commits.each.length_eq.symm

theorem Batch.nonempty (b : Batch p) : b.envelopes ≠ [] := by
  have := (validateAppend_ok b.accepted).nonempty
  rw [← List.length_pos_iff] at this ⊢
  rwa [b.length]

theorem Batch.event (b : Batch p) (he : e ∈ b.envelopes) :
    ∃ u ∈ b.request.events, ∃ m, Commits p u m e :=
  forall₂_right b.commits.each he

theorem Batch.scope (b : Batch p) (he : e ∈ b.envelopes) :
    e.streamID = b.request.streamID ∧ e.tenantID = b.validated.tenantID ∧
      e.workspaceID = b.validated.workspaceID := by
  obtain ⟨u, hu, m, hc⟩ := b.event he
  obtain ⟨hs, ht, hw⟩ := (validateAppend_ok b.accepted).scope u hu
  rw [hc.drafted]
  exact ⟨hs, ht, hw⟩

end Batches

/-- The batches of an event store in the order of their commits. -/
abbrev Ledger (p : Platform) := List (Batch p)

namespace Ledger

variable {p : Platform} {l : Ledger p} {b : Batch p} {s : Bytes}

def ofStream (l : Ledger p) (s : Bytes) : Ledger p := l.filter fun b => b.request.streamID = s

def events (l : Ledger p) (s : Bytes) : List Envelope := (l.ofStream s).flatMap (·.envelopes)

structure Continues (l : Ledger p) (b : Batch p) : Prop where
  expected : b.request.expectedSequence = (l.events b.request.streamID).length
  previous : b.previous = lastDigest [] (l.events b.request.streamID)
  owner : ∀ c ∈ l.ofStream b.request.streamID, c.validated.tenantID = b.validated.tenantID ∧
    c.validated.workspaceID = b.validated.workspaceID

/-- Every batch continued its stream when it was committed. -/
inductive Grown : Ledger p → Prop
  | nil : Grown []
  | snoc {l : Ledger p} {b : Batch p} : Grown l → Continues l b → Grown (l ++ [b])

theorem ofStream_snoc :
    (l ++ [b]).ofStream s = l.ofStream s ++ if b.request.streamID = s then [b] else [] := by
  unfold ofStream
  split <;> simp [*]

theorem events_snoc :
    (l ++ [b]).events s = l.events s ++ if b.request.streamID = s then b.envelopes else [] := by
  unfold events
  rw [ofStream_snoc]
  split <;> simp

/-- What the events of a stream are: its own, linked, and numbered from one on. -/
structure Stream (s : Bytes) (es : List Envelope) : Prop where
  linked : Linked [] es
  numbered : Numbered 0 es
  bound : (es.length : Int) ≤ maxInt64
  own : ∀ e ∈ es, e.streamID = s

theorem Grown.stream (h : Grown l) (s : Bytes) : Stream s (l.events s) := by
  induction h with
  | nil =>
    exact ⟨trivial, trivial, by simp [events, ofStream, maxInt64], by simp [events, ofStream]⟩
  | @snoc l b hl hc ih =>
    rw [events_snoc]
    split
    · next hs =>
      have hexpected := hc.expected
      have hprevious := hc.previous
      rw [hs] at hexpected hprevious
      have hbound := ih.bound
      obtain ⟨hnumbered, hmax⟩ := b.numbered (by rw [hexpected]; exact hbound)
      rw [hexpected] at hnumbered hmax
      refine ⟨linked_append.2 ⟨ih.linked, hprevious ▸ b.commits.linked⟩,
        numbered_append.2 ⟨ih.numbered, by simpa using hnumbered⟩, ?_, ?_⟩
      · rw [List.length_append]
        exact hmax
      · intro e he
        rcases List.mem_append.1 he with he | he
        · exact ih.own e he
        · exact (b.scope he).1.trans hs
    · rw [List.append_nil]
      exact ih

end Ledger

end Adro.EventStore
