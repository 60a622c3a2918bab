import Adro.EventStore.ReplayLaws

/-!
# What was appended is read

In every run whose events have valid texts, a reader of a stream sees the
envelopes that the appends of the run returned: each once, in the order of their
numbers, linked by their digests. A text that is not valid UTF-8 is stored as it
is in its column and as U+FFFD in the document, and `Read` then calls the stream
corrupt.
-/

namespace Adro.EventStore

open Adro.Go Adro.Encoding Adro.Event

variable {p : Platform} {db : Database} {l : Ledger p} {s : Bytes}

/-- The result of a call that is a successful append. -/
def resultsOf (r : Except Error Response) : List AppendResult :=
  match r with
  | .ok (.appended result) => [result]
  | _ => []

/-- The results of the appends of a run that succeed. -/
def results (backend : Backend) (p : Platform) : Database → List Call → List AppendResult
  | _, [] => []
  | db, c :: run =>
    resultsOf (respond backend p db c) ++ results backend p (step backend p db c) run

/-- The envelopes of a stream that the appends of a run returned. -/
def returned (backend : Backend) (p : Platform) (db : Database) (run : List Call) (s : Bytes) :
    List Envelope :=
  ((results backend p db run).flatMap (·.events)).filter fun e => e.streamID = s

def Call.Legible : Call → Prop
  | .append request _ _ _ => request.Legible
  | _ => True

instance : DecidablePred Call.Legible := fun c => by
  cases c <;> unfold Call.Legible <;> infer_instance

theorem resultsOf_eq (h : result ∈ resultsOf r) :
    r = .ok (.appended result) := by
  unfold resultsOf at h
  split at h
  · rw [List.mem_singleton.1 h]
  · cases h

theorem Refines.returned (backend : Backend) (h : Refines db l)
    (hvalid : ∀ b ∈ l, b.request.Legible)
    {run : List Call} (hrun : ∀ c ∈ run, c.Legible) :
    ∃ l' : Ledger p, Refines (Runs.exec (EventStore.step backend p) db run) l' ∧
      (∀ b ∈ l', b.request.Legible) ∧
      ∀ s e, e ∈ l'.events s ↔ e ∈ l.events s ∨ e ∈ EventStore.returned backend p db run s := by
  induction run generalizing db l with
  | nil => exact ⟨l, h, hvalid, by simp [EventStore.returned, results]⟩
  | cons c run ih =>
    rw [List.forall_mem_cons] at hrun
    have hsplit : ∀ s e, e ∈ EventStore.returned backend p db (c :: run) s ↔
        (∃ r ∈ resultsOf (respond backend p db c), e ∈ r.events ∧ e.streamID = s) ∨
          e ∈ EventStore.returned backend p (EventStore.step backend p db c) run s := by
      intro s e
      simp only [EventStore.returned, results, List.flatMap_append, List.filter_append,
        List.mem_append, List.mem_filter, List.mem_flatMap, decide_eq_true_eq]
      constructor
      · rintro (⟨⟨r, hr, he⟩, hs⟩ | h)
        · exact .inl ⟨r, hr, he, hs⟩
        · exact .inr h
      · rintro (⟨r, hr, he, hs⟩ | h)
        · exact .inl ⟨⟨r, hr, he⟩, hs⟩
        · exact .inr h
    rcases step_cases backend p db c with ⟨hsame, hreplay⟩ |
      ⟨request, assertedAt, committedAt, newID, validated, envelopes, rfl, ha, hresponse⟩
    · obtain ⟨l', hl', hvalid', hmem⟩ := ih (h.same hsame) hvalid hrun.2
      refine ⟨l', hl', hvalid', fun s e => ?_⟩
      rw [hmem, hsplit]
      constructor
      · rintro (he | he)
        · exact .inl he
        · exact .inr (.inr he)
      · rintro (he | ⟨r, hr, he, hs⟩ | he)
        · exact .inl he
        · -- A replay returns what the ledger has.
          obtain ⟨request, _, _, _, validated, rfl, -, hfind⟩ := hreplay r (resultsOf_eq hr)
          obtain ⟨es, hes, rfl⟩ := findReplay_some.1 hfind
          have hevent := hes.mem_events h hvalid e (bySequence_perm.subset he)
          have hown := (h.grown.stream _).own e hevent
          rw [← hown, hs] at hevent
          exact .inl hevent
        · exact .inr he
    · have hbatch : ∀ b ∈ l ++ [ha.batch], b.request.Legible := by
        rw [List.forall_mem_append, List.forall_mem_singleton]
        exact ⟨hvalid, hrun.1⟩
      obtain ⟨l', hl', hvalid', hmem⟩ := ih (h.append ha) hbatch hrun.2
      refine ⟨l', hl', hvalid', fun s e => ?_⟩
      rw [hmem, hsplit, hresponse, Ledger.events_snoc, List.mem_append]
      have hstep : (e ∈ if ha.batch.request.streamID = s then ha.batch.envelopes else []) ↔
          ∃ r ∈ resultsOf (.ok (.appended (resultOf envelopes))), e ∈ r.events ∧
          e.streamID = s := by
        have hr : ∀ r, r ∈ resultsOf (.ok (.appended (resultOf envelopes))) ↔
          r = resultOf envelopes := by
          simp [resultsOf]
        simp only [hr, exists_eq_left]
        constructor
        · intro he
          split at he
          · next hs => exact ⟨he, (ha.batch.scope he).1.trans hs⟩
          · cases he
        · rintro ⟨he, hs⟩
          rw [if_pos ((ha.batch.scope he).1.symm.trans hs)]
          exact he
      rw [hstep, or_assoc]

theorem Ledger.events_nil : Ledger.events ([] : Ledger p) s = [] := rfl

/-- What a reader of a stream sees of a log of envelopes. -/
structure ReadsLog (p : Platform) (db : Database) (s : Bytes) (log : List Envelope) : Prop where
  numbered : Numbered 0 log
  linked : Linked [] log
  head : head p db s = .ok ((log.length : Int), lastDigest [] log)
  read : ∀ after limit : Int, 0 ≤ after → 1 ≤ limit → limit ≤ maxReadLimit →
    read p db s after limit = .ok ((log.drop after.toNat).take limit.toNat)
  notCorrupt : ∀ after limit : Int, EventStore.read p db s after limit ≠ .error errCorrupt
  pages : ∀ limits : List Int, (∀ n ∈ limits, 1 ≤ n ∧ n ≤ maxReadLimit) →
    log.length ≤ (limits.map Int.toNat).sum → readPages p db s 0 limits = .ok log

/-- After every run of calls whose events have valid texts, a reader of a stream sees exactly the
envelopes that appends to it have returned. -/
theorem committed_are_read (backend : Backend) (p : Platform) (run : List Call) (s : Bytes)
    (hs : validateID p "stream" s = .ok ()) (hrun : ∀ c ∈ run, c.Legible) :
    ∃ log, (∀ e, e ∈ log ↔ e ∈ returned backend p Database.empty run s) ∧
      ReadsLog p (Runs.exec (step backend p) Database.empty run) s log := by
  obtain ⟨l, hl, hvalid, hmem⟩ := (Refines.empty).returned backend (by simp) hrun
  have hreads := hl.reads hs hvalid
  refine ⟨l.events s, fun e => by rw [hmem, Ledger.events_nil]; simp,
    hreads.numbered, hreads.linked, hreads.headRead, fun after limit => hreads.read,
    fun after limit => hreads.notCorrupt, fun limits hlimits hsum => ?_⟩
  have hpages := hreads.readPages (k := 0) (by omega) hlimits
  rw [List.drop_zero, List.take_of_length_le hsum] at hpages
  exact hpages

/-- The first of January 1970. -/
def epoch : Time := 62135596800 * 10 ^ 9

/-- An event of the stream `s` of the tenant `t`. -/
def sampleEvent (eventType key payload : Bytes) : Uncommitted :=
  { streamID := bytesOf "s", eventType, tenantID := bytesOf "t", workspaceID := bytesOf "w",
    actor := ⟨bytesOf "user", bytesOf "a"⟩, correlationID := bytesOf "c", causationID := [],
    idempotencyKey := key, fencingToken := 0, occurredAt := epoch, classification := bytesOf "x",
    payload }

def committed (p : Platform) (eventType key : String) (metadata : CommitMetadata) : List Envelope :=
  (commit p (sampleEvent (bytesOf eventType) (bytesOf key) (bytesOf "1")) metadata).toOption.toList

/-- What is hashed for the digest of these events. -/
def hashedText (events : List Envelope) : Bytes :=
  events.flatMap fun e =>
    let tree payload :=
      object (e.fields (formatTime e.occurredAt) (formatTime e.committedAt) payload none)
    ((rawTree e.payload).bind fun payload => (Encoding.marshal (tree payload)).toOption).getD []

def firstPlace : CommitMetadata := ⟨1, bytesOf "e", epoch, []⟩

def sampleAppend (request : AppendRequest) : Call :=
  .append request epoch epoch fun _ => bytesOf "e"

def sampleRequest (eventType : Bytes) : AppendRequest :=
  ⟨bytesOf "s", 0, [sampleEvent eventType (bytesOf "k") (bytesOf "1")], [], none, none⟩

def samplePlatform : Platform := .ascii fun b => b.take 2

/-- The event type `\xff` is accepted, and the stream is then corrupt. -/
theorem invalid_type_is_corrupt :
    (respond .sqlite samplePlatform .empty (sampleAppend (sampleRequest [0xFF]))).isOk = true ∧
      read samplePlatform
          (step .sqlite samplePlatform .empty (sampleAppend (sampleRequest [0xFF])))
            (bytesOf "s") 0 10 =
        .error errCorrupt := by
  decide +kernel

/-- Two appends to the stream `s`. -/
def twoAppends : List Call :=
  [sampleAppend (sampleRequest (bytesOf "created")),
    .append ⟨bytesOf "s", 1, [sampleEvent (bytesOf "updated") (bytesOf "l") (bytesOf "2")], [],
      none, none⟩ epoch epoch fun _ => bytesOf "f"]

/-- Both events are read, one on each page. -/
theorem committed_are_read_in_pages :
    let db := Runs.exec (step .sqlite samplePlatform) .empty twoAppends
    ∃ log, log.length = 2 ∧
      (∀ e, e ∈ log ↔ e ∈ returned .sqlite samplePlatform .empty twoAppends (bytesOf "s")) ∧
      readPages samplePlatform db (bytesOf "s") 0 [1, 1] = .ok log := by
  intro db
  obtain ⟨log, hlog, hreads⟩ := committed_are_read .sqlite samplePlatform twoAppends (bytesOf "s")
    (by decide +kernel) (by decide +kernel)
  have hhead : (head samplePlatform db (bytesOf "s")).toOption.map Prod.fst = some 2 := by
    decide +kernel
  have hlength : log.length = 2 := by
    rw [show head samplePlatform db (bytesOf "s") = _ from hreads.head] at hhead
    exact Int.ofNat.inj (Option.some.inj hhead)
  exact ⟨log, hlength, hlog, hreads.pages [1, 1] (by decide) (by simp [hlength])⟩

end Adro.EventStore
