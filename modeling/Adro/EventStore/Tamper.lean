import Adro.EventStore.RoundTrip

/-!
# Tamper evidence of stored streams

What `Read` accepts of a database that someone may have edited: linked, numbered
and verified events, the last of which has the digest of the head. The digest of
an event covers the one before it, so the head fixes the whole stream as far as
an event is fixed by its digest, which leaves out how a payload is written and
what is below a microsecond, and as far as `Read` compares the head at all,
which it does not do when the page ends past the head.
-/

namespace Adro.EventStore

open Adro.Go Adro.Json Adro.Encoding Adro.Event

variable {p : Platform} {db db' : Database} {s d : Bytes} {n after limit : Int}
  {rows : List RecordRow} {e : Envelope} {es log log' : List Envelope} {limits limits' : List Int}
  {stream : StreamRow}

/-- The envelope as `Commit` would leave it: the payload canonical, the times whole microseconds. -/
def normalForm (e : Envelope) : Envelope :=
  { e with
    payload := (canonicalize e.payload).toOption.getD e.payload
    occurredAt := normalizeTime e.occurredAt
    committedAt := normalizeTime e.committedAt }

/-- A document that was read and passes `Verify`. -/
structure Sealed (p : Platform) (e : Envelope) : Prop where
  texts : e.ValidTexts
  verifies : e.verify p = .ok ()

theorem Sealed.normalForm_of_digest (hsha : Function.Injective p.sha256) (h : Sealed p e)
    (h' : Sealed p e') (hdigest : e.envelopeDigest = e'.envelopeDigest) :
    normalForm e = normalForm e' := by
  obtain ⟨-, hpayload, hd⟩ := verify_ok.1 h.verifies
  obtain ⟨-, hpayload', hd'⟩ := verify_ok.1 h'.verifies
  have hhashed := digest_inj hsha h.texts h'.texts hd (hdigest ▸ hd')
  have hpd : e.hashed.payloadDigest = e'.hashed.payloadDigest := congrArg _ hhashed
  have hp : (normalForm e).payload = (normalForm e').payload := by
    obtain ⟨c, hc, hc'⟩ := canonical_of_digest hsha hpayload (hpayload'.trans (congrArg _ hpd.symm))
    simp only [normalForm, hc, hc', Except.toOption, Option.getD_some]
  cases e
  simp_all [Envelope.hashed, normalForm]

theorem chain_inj (hsha : Function.Injective p.sha256) (h : ∀ e ∈ es, Sealed p e)
    (h' : ∀ e ∈ es', Sealed p e) (hlinked : Linked d es) (hlinked' : Linked d' es')
    (hlength : es.length = es'.length) (hlast : lastDigest d es = lastDigest d' es') :
    es.map normalForm = es'.map normalForm ∧ d = d' := by
  induction es generalizing d d' es' with
  | nil =>
    cases es' with
    | nil => exact ⟨rfl, hlast⟩
    | cons e' es' => simp at hlength
  | cons e es ih =>
    cases es' with
    | nil => simp at hlength
    | cons e' es' =>
      rw [List.forall_mem_cons] at h h'
      -- The rest fixes the digest it starts from, and that digest fixes the first event.
      obtain ⟨hrest, hdigest⟩ := ih h.2 h'.2 hlinked.2 hlinked'.2 (by simpa using hlength)
        (by simpa using hlast)
      have hfirst := h.1.normalForm_of_digest hsha h'.1 hdigest
      have hprevious : e.previousDigest = e'.previousDigest :=
        (congrArg Envelope.previousDigest hfirst :)
      exact ⟨by rw [List.map_cons, List.map_cons, hfirst, hrest],
        hlinked.1.symm.trans (hprevious.trans hlinked'.1)⟩

/-- The row at a number of the stream holds the event. -/
structure Held (p : Platform) (db : Database) (s : Bytes) (e : Envelope) : Prop where
  row : ∃ r, db.findAt s e.sequence = some r ∧ unmarshal p r.envelopeJSON = some e ∧
    e.streamID = s ∧ e.tenantID = r.tenantID ∧ r.Agrees e
  verifies : e.verify p = .ok ()

/-- What the loop of `Read` says of the rows it accepts. -/
theorem readRows_ok (hrows : ∀ r ∈ rows, r ∈ db.records.rows ∧ r.streamID = s)
    (h : readRows p s (n + 1) d rows = .ok es) :
    es.length = rows.length ∧ Linked d es ∧ Numbered n es ∧ ∀ e ∈ es, Held p db s e := by
  induction rows generalizing n d es with
  | nil =>
    cases h
    exact ⟨rfl, trivial, trivial, by simp⟩
  | cons r rows ih =>
    rw [List.forall_mem_cons] at hrows
    rw [readRows] at h
    split at h
    · cases h
    · next e hdoc =>
      split_ifs at h with hc
      obtain ⟨hstream, htenant, hagrees, hseq, hprevious, hverifies⟩ := hc
      obtain ⟨rest, hrest, hes⟩ := bind_ok.1 h
      cases hes
      obtain ⟨hlength, hlinked, hnumbered, hheld⟩ := ih hrows.2 hrest
      have hsequence : e.sequence = r.sequence := hagrees.1
      have hdigest : e.envelopeDigest = r.envelopeDigest := hagrees.2.2.2.2.2.2.1
      have hfind : db.findAt s e.sequence = some r :=
        findAt_iff.2 ⟨hrows.1.1, hrows.1.2, hsequence.symm⟩
      have hverify : e.verify p = .ok () := by
        unfold Verifies at hverifies
        cases hx : e.verify p <;> simp_all [Except.toBool]
      refine ⟨by simp [hlength], ⟨hagrees.2.2.2.2.2.1.trans hprevious, hdigest ▸ hlinked⟩,
        ⟨hsequence.trans hseq, hnumbered⟩,
        List.forall_mem_cons.2 ⟨⟨⟨r, hfind, hdoc, hstream, htenant,
          hagrees⟩, hverify⟩, hheld⟩⟩

/-- The events that `Read` returns after a number, over one page or over several. -/
structure Pages (p : Platform) (db : Database) (s : Bytes) (after : Int) (es : List Envelope) :
    Prop where
  linked : ∀ d, digestAt db s after = .ok d → Linked d es
  numbered : Numbered after es
  held : ∀ e ∈ es, Held p db s e
  last : ∀ e ∈ es.getLast?, e.sequence = (headOf db s).1 → e.envelopeDigest = (headOf db s).2

theorem Pages.nil : Pages p db s after [] := ⟨fun _ _ => trivial, trivial, by simp, by simp⟩

theorem Pages.append (h : Pages p db s after es) (hafter : 0 ≤ after)
    (h' : Pages p db s ((es.getLast?.map (·.sequence)).getD after) es') :
    Pages p db s after (es ++ es') := by
  cases hlast : es.getLast? with
  | none =>
    rw [List.getLast?_eq_none_iff] at hlast
    subst hlast
    exact h'
  | some e =>
    rw [hlast] at h'
    have hmem := List.mem_of_getLast? hlast
    have hseq := h.numbered.getLast hlast
    refine ⟨fun d hd => linked_append.2 ⟨h.linked d hd, ?_⟩,
      numbered_append.2 ⟨h.numbered, hseq ▸ h'.numbered⟩,
      List.forall_mem_append.2 ⟨h.held, h'.held⟩, ?_⟩
    · -- The row of the last event is the one that the next page starts from.
      obtain ⟨r, hfind, -, -, -, hagrees⟩ := (h.held e hmem).row
      have hpos := (h.numbered.bounds hmem).1
      have hd' : digestAt db s e.sequence = .ok e.envelopeDigest := by
        rw [digestAt, if_pos (by omega), hfind]
        exact congrArg _ hagrees.2.2.2.2.2.2.1.symm
      rw [lastDigest, hlast]
      exact h'.linked _ hd'
    · intro f hf
      rw [List.getLast?_append] at hf
      cases hlast' : es'.getLast? with
      | none =>
        rw [hlast'] at hf
        exact h.last f hf
      | some f' =>
        rw [hlast'] at hf
        exact h'.last f (hlast'.trans hf)

theorem checkPage_ok (h : checkPage stream limit es = .ok es') :
    es' = es ∧ ∃ e, es.getLast? = some e ∧
    ¬ (es.length < limit ∧ e.sequence < stream.currentSequence) ∧
      (e.sequence = stream.currentSequence → e.envelopeDigest = stream.headDigest) := by
  unfold checkPage at h
  cases hlast : es.getLast? with
  | none => simp [hlast] at h
  | some e =>
    simp only [hlast] at h
    split_ifs at h with hshort hhead
    cases h
    exact ⟨rfl, e, rfl, hshort, by simpa using hhead⟩

theorem read_ok (h : EventStore.read p db s after limit = .ok es) :
    validateID p "stream" s = .ok () ∧ 0 ≤ after ∧ Pages p db s after es ∧
      min (headOf db s).1 (after + limit) ≤ after + es.length := by
  simp only [EventStore.read, then_ok, ensure_ok, Bool.and_eq_true, decide_eq_true_eq] at h
  obtain ⟨hid, ⟨⟨hafter, -⟩, -⟩, h⟩ := h
  refine ⟨hid, hafter, ?_⟩
  cases hstream : db.findStream s with
  | none =>
    rw [hstream] at h
    cases h
    rw [headOf_none hstream]
    exact ⟨.nil, by simp; omega⟩
  | some stream =>
    simp only [hstream] at h
    have hhead := headOf_some hstream
    split_ifs at h with hpast
    · -- Past the head nothing is read.
      cases h
      rw [hhead]
      exact ⟨.nil, by simp; omega⟩
    · obtain ⟨d, hd, h⟩ := bind_ok.1 h
      obtain ⟨page, hpage, h⟩ := bind_ok.1 h
      obtain ⟨rfl, e, hlast, hshort, hlastDigest⟩ := checkPage_ok h
      have hrows : ∀ r ∈ db.recordsAfter s after limit, r ∈ db.records.rows ∧ r.streamID = s := by
        intro r hr
        have hmem := List.mem_of_mem_take hr
        rw [List.mem_mergeSort, List.mem_filter, decide_eq_true_eq] at hmem
        exact ⟨hmem.1, hmem.2.1⟩
      obtain ⟨-, hlinked, hnumbered, hheld⟩ := readRows_ok hrows hpage
      have hseq := hnumbered.getLast hlast
      refine ⟨⟨fun d' hd' => ?_, hnumbered, hheld, ?_⟩, ?_⟩
      · rw [hd] at hd'
        cases hd'
        exact hlinked
      · intro f hf
        cases hlast.symm.trans hf
        rw [hhead]
        exact hlastDigest
      · rw [hhead]
        omega

theorem readPages_ok (h : readPages p db s after limits = .ok log) (hafter : 0 ≤ after)
    (hlimits : ∀ n ∈ limits, 1 ≤ n ∧ n ≤ maxReadLimit) :
    Pages p db s after log ∧ min (headOf db s).1 (after + limits.sum) ≤ after + log.length := by
  induction limits generalizing after log with
  | nil =>
    cases h
    exact ⟨.nil, by simp⟩
  | cons limit limits ih =>
    rw [List.forall_mem_cons] at hlimits
    obtain ⟨page, hpage, h⟩ := bind_ok.1 h
    obtain ⟨rest, hrest, h⟩ := bind_ok.1 h
    cases h
    obtain ⟨-, -, hpages, hreach⟩ := read_ok hpage
    -- The next page starts behind the last number of this one.
    have hnext : (page.getLast?.map (·.sequence)).getD after = after + page.length := by
      cases hlast : page.getLast? with
      | none => simp [List.getLast?_eq_none_iff.1 hlast]
      | some e => exact hpages.numbered.getLast hlast
    obtain ⟨hpages', hreach'⟩ := ih hrest (by omega) hlimits.2
    refine ⟨hpages.append hafter (hnext ▸ hpages'), ?_⟩
    rw [List.sum_cons, List.length_append]
    omega

/-- The computation fails with `ErrCorrupt` or not at all. -/
def OnlyCorrupt {α : Type} (x : Except Error α) : Prop := ∀ err, x = .error err → err = errCorrupt

section OnlyCorrupt

variable {α β : Type}

theorem OnlyCorrupt.corrupt : OnlyCorrupt (.error errCorrupt : Except Error α) := by
  rintro err ⟨⟩
  rfl

theorem OnlyCorrupt.done (a : α) : OnlyCorrupt (.ok a) := by
  rintro err ⟨⟩

theorem OnlyCorrupt.bind (hx : OnlyCorrupt x)
    (hf : ∀ a, x = .ok a → OnlyCorrupt (f a)) : OnlyCorrupt (x >>= f) := by
  cases x with
  | ok a => exact hf a rfl
  | error e =>
    rintro err ⟨⟩
    exact hx e rfl

end OnlyCorrupt

theorem readRows_fails : OnlyCorrupt (readRows p s n d rows) := by
  induction rows generalizing n d with
  | nil => exact .done _
  | cons r rows ih =>
    rw [readRows]
    split
    · exact .corrupt
    · split_ifs
      · exact ih.bind fun _ _ => .done _
      · exact .corrupt

theorem digestAt_fails : OnlyCorrupt (digestAt db s after) := by
  unfold digestAt
  split_ifs
  · split
    · exact .done _
    · exact .corrupt
  · exact .done _

theorem checkPage_fails : OnlyCorrupt (checkPage stream limit es) := by
  unfold checkPage
  split
  · exact .corrupt
  · split_ifs
    · exact .corrupt
    · exact .corrupt
    · exact .done _

/-- Past its checks of the arguments, `Read` fails only with `ErrCorrupt`. -/
theorem read_fails (hid : validateID p "stream" s = .ok ()) (hafter : 0 ≤ after)
    (hlimit : 1 ≤ limit ∧ limit ≤ maxReadLimit) :
    OnlyCorrupt (EventStore.read p db s after limit) := by
  have hargs : (decide (0 ≤ after) && decide (1 ≤ limit) && decide (limit ≤ maxReadLimit)) =
    true := by
    simp [hafter, hlimit]
  rw [EventStore.read, hid, hargs]
  split
  · exact .done _
  · split_ifs
    · exact .done _
    · exact digestAt_fails.bind fun _ _ => readRows_fails.bind fun _ _ => checkPage_fails

theorem readPages_fails (hid : validateID p "stream" s = .ok ()) (hafter : 0 ≤ after)
    (hlimits : ∀ n ∈ limits, 1 ≤ n ∧ n ≤ maxReadLimit) :
    OnlyCorrupt (readPages p db s after limits) := by
  induction limits generalizing after with
  | nil => exact .done _
  | cons limit limits ih =>
    rw [List.forall_mem_cons] at hlimits
    refine (read_fails hid hafter hlimits.1).bind fun page hpage =>
      OnlyCorrupt.bind ?_ fun _ _ => .done _
    obtain ⟨-, -, hpages, -⟩ := read_ok hpage
    refine ih ?_ hlimits.2
    cases hlast : page.getLast? with
    | none => exact hafter
    | some e =>
      have hseq := (hpages.numbered.bounds (List.mem_of_getLast? hlast)).1
      show 0 ≤ e.sequence
      omega

/-- What is stored under a number of a stream, as `Read` looks at it: the columns it selects, which
leave out the digest of the append, and the document in its normal form, if it is an envelope. -/
def stored (p : Platform) (db : Database) (s : Bytes) (n : Int) :
    Option (RecordRow × Option Envelope) :=
  (db.findAt s n).map fun r => ({ r with appendDigest := [], envelopeJSON := [] },
    (unmarshal p r.envelopeJSON).map normalForm)

structure Full (db : Database) (s : Bytes) (limits : List Int) : Prop where
  asked : limits ≠ []
  allowed : ∀ n ∈ limits, 1 ≤ n ∧ n ≤ maxReadLimit
  reach : (headOf db s).1 ≤ limits.sum

/-- No row follows the head. -/
def Capped (db : Database) (s : Bytes) : Prop := db.findAt s ((headOf db s).1 + 1) = none

instance : Decidable (Capped db s) := inferInstanceAs (Decidable (_ = _))

theorem headOf_nonneg : 0 ≤ (headOf db s).1 := by
  cases hstream : db.findStream s with
  | none => simp [headOf_none hstream]
  | some stream =>
    rw [headOf_some hstream]
    exact db.streams.checked stream (List.mem_of_find?_eq_some hstream)

/-- What a full paged `Read` that succeeds says of a stream. -/
structure Whole (p : Platform) (db : Database) (s : Bytes) (log : List Envelope) : Prop where
  linked : Linked [] log
  numbered : Numbered 0 log
  held : ∀ e ∈ log, Held p db s e
  length : (log.length : Int) = (headOf db s).1
  digest : log ≠ [] → lastDigest [] log = (headOf db s).2

theorem Held.isSealed (h : Held p db s e) : Sealed p e :=
  have ⟨_, _, hdoc, _⟩ := h.row
  ⟨unmarshal_valid hdoc, h.verifies⟩

theorem whole_of_readPages (hc : Capped db s) (hf : Full db s limits)
    (h : readPages p db s 0 limits = .ok log) : Whole p db s log := by
  obtain ⟨hpages, hreach⟩ := readPages_ok h le_rfl hf.allowed
  have hhead : 0 ≤ (headOf db s).1 := headOf_nonneg
  have hlength : (log.length : Int) = (headOf db s).1 := by
    refine le_antisymm (not_lt.1 fun hlt => ?_) (by have := hf.reach; omega)
    -- A longer log holds the row after the head.
    have hpast : (headOf db s).1.toNat < log.length := by omega
    have hseq := hpages.numbered.get _ _ (List.getElem?_eq_getElem hpast)
    obtain ⟨r, hrow, -⟩ := (hpages.held _ (List.getElem_mem hpast)).row
    rw [hseq, Int.toNat_of_nonneg hhead, zero_add, hc] at hrow
    cases hrow
  refine ⟨hpages.linked [] (by simp [digestAt]), hpages.numbered, hpages.held, hlength,
    fun hne => ?_⟩
  obtain ⟨e, hlast⟩ := Option.isSome_iff_exists.1 (List.getLast?_isSome.2 hne)
  have hseq := hpages.numbered.getLast hlast
  rw [lastDigest, hlast]
  exact hpages.last e hlast (by omega)

theorem unixMicro_normalize (t : Time) : unixMicro (normalizeTime t) = unixMicro t := by
  unfold unixMicro microseconds normalizeTime
  congr 1
  omega

/-- The columns of a row that is read follow from the normal form of its document. -/
theorem Held.stored (h : Held p db s e) : stored p db s e.sequence =
    some (recordOf [] (normalForm e) [], some (normalForm e)) := by
  obtain ⟨r, hrow, hdoc, rfl, htenant, h₁, h₂, h₃, h₄, h₅, h₆, h₇, h₈⟩ := h.row
  obtain ⟨-, hstream, -⟩ := findAt_iff.1 hrow
  rw [EventStore.stored, hrow, Option.map_some, hdoc, Option.map_some]
  refine congrArg some (Prod.ext ?_ rfl)
  cases r
  simp_all [recordOf, normalForm, unixMicro_normalize]

theorem Whole.stored (h : Whole p db s log) (hn : n ≤ (headOf db s).1) :
    stored p db s n = if n ≤ 0 then none else
      ((log.map normalForm)[(n - 1).toNat]?).map fun e => (recordOf [] e [], some e) := by
  split
  · cases hrow : db.findAt s n with
    | none => simp [EventStore.stored, hrow]
    | some r =>
      obtain ⟨hmem, -, hseq⟩ := findAt_iff.1 hrow
      have hpos : 0 < r.sequence := db.records.checked r hmem
      omega
  · have hlength := h.length
    have hlt : (n - 1).toNat < log.length := by omega
    have hseq := h.numbered.get _ _ (List.getElem?_eq_getElem hlt)
    have hrow := (h.held _ (List.getElem_mem hlt)).stored
    rw [hseq, show 0 + ((n - 1).toNat : Int) + 1 = n by omega] at hrow
    rw [hrow, List.getElem?_map, List.getElem?_eq_getElem hlt]
    rfl

def secondPlace : CommitMetadata := ⟨2, bytesOf "f", epoch, hexText [2]⟩

/-- A hash without collisions that is short on three texts. -/
def shortHash : Equiv.Perm Bytes :=
  (Equiv.swap (hashedText (committed (.ascii id) "x" "k" firstPlace)) [1]).trans
    ((Equiv.swap (hashedText (committed (.ascii id) "y" "k" firstPlace)) [2]).trans
      (Equiv.swap (hashedText (committed (.ascii id) "x" "l" secondPlace)) [3]))

def shortPlatform : Platform := .ascii shortHash

def original : List Envelope := committed shortPlatform "x" "k" firstPlace

def delayed : List Envelope := original.map fun e => { e with occurredAt := e.occurredAt + 1 }

/-- Another event in the place of the original one, and one that follows it. -/
def replaced : List Envelope :=
  committed shortPlatform "y" "k" firstPlace ++ committed shortPlatform "x" "l" secondPlace

/-- A database with these events under the head of the original one. -/
def underHead (events : List Envelope) : Database :=
  ((Database.empty.insertStream "" ⟨bytesOf "s", bytesOf "t", bytesOf "w", 1, hexText [1]⟩).bind
    fun db =>
    events.foldlM (fun db e => db.insertRecord "" (rowOf [] e)) db).toOption.getD .empty

/-- What is computed of the samples, at once because most of it is shared. -/
theorem samples_read :
    (Capped (underHead original) (bytesOf "s") ∧
      stored shortPlatform (underHead original) (bytesOf "s") 1 ≠ none ∧
      headOf (underHead original) (bytesOf "s") = (1, hexText [1])) ∧
    readPages shortPlatform (underHead original) (bytesOf "s") 0 [10] = .ok original ∧
    readPages shortPlatform (underHead delayed) (bytesOf "s") 0 [10] = .ok delayed ∧
    (underHead delayed).findStream (bytesOf "s") = (underHead original).findStream (bytesOf "s") ∧
    (underHead []).findStream (bytesOf "s") = (underHead original).findStream (bytesOf "s") ∧
    ((underHead replaced).findStream (bytesOf "s") = (underHead original).findStream (bytesOf "s") ∧
      replaced.map (·.eventType) = [bytesOf "y", bytesOf "x"]) ∧
    delayed.length = original.length ∧ delayed ≠ original := by
  decide +kernel

theorem replaced_read :
    readPages shortPlatform (underHead replaced) (bytesOf "s") 0 [10] = .ok replaced := by
  -- The rows are in order, so the sorting of the query has nothing to do.
  simp only [readPages, EventStore.read, Database.recordsAfter]
  rw [List.mergeSort_of_pairwise (by decide +kernel)]
  decide +kernel

end Adro.EventStore
