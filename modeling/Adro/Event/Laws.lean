import Adro.Event.Envelope

/-!
# What a committed envelope keeps

A committed envelope verifies. Its document is read back as the envelope when
its texts are valid, and whatever a document is read as has valid texts. Two
envelopes of one digest agree on all that is hashed.
-/

namespace Adro.Event

open Adro.Go Adro.Json Adro.Encoding

variable {p : Platform} {e e' : Envelope} {u : Uncommitted} {m : CommitMetadata} {y : Option Syntax}
  {i : Identity}

theorem map_ok {x : Except ε α} :
    x.map f = .ok b ↔ ∃ a, x = .ok a ∧ f a = b := by
  cases x <;> simp [Except.map]

theorem encoded_ok : encoded x = .ok a ↔ x = .ok a :=
  mapError_ok

theorem validateRunes_ok {i : Nat}
    (h : validateRunes p nameSpace i us = .ok ()) : ∀ u ∈ us, u.isSome := by
  induction us generalizing i with
  | nil => simp
  | cons u us ih =>
    rw [validateRunes] at h
    split at h
    · next hr =>
      refine List.forall_mem_cons.2 ⟨?_, ih h⟩
      cases u with
      | none =>
        -- U+FFFD is none of the runes that are let through.
        have hdash : (replacement == '-') = false := by decide
        have hline : (replacement == '_') = false := by decide
        have hpoint : (replacement == '.') = false := by decide
        have hcolon : (replacement == ':') = false := by decide
        simp [p.not_letter, p.not_digit, hdash, hline, hpoint, hcolon] at hr
      | some c => rfl
    · cases h

theorem validateID_valid {value : Bytes} (h : validateID p nameSpace value = .ok ()) :
    Valid value := by
  unfold validateID at h
  split at h
  · cases h
  · exact valid_of_units (validateRunes_ok h)

/-- What `validateRequired` asks for. -/
structure Envelope.Required (p : Platform) (e : Envelope) : Prop where
  streamID : validateID p "stream" e.streamID = .ok ()
  eventID : validateID p "event" e.eventID = .ok ()
  tenantID : validateID p "tenant" e.tenantID = .ok ()
  workspaceID : validateID p "workspace" e.workspaceID = .ok ()
  actorID : validateID p "actor" e.actor.id = .ok ()
  sequence : 1 ≤ e.sequence
  schemaVersion : e.schemaVersion = Event.schemaVersion
  encoding : e.encoding = current

theorem required_of_ok (h : e.validateRequired p = .ok ()) : e.Required p := by
  unfold Envelope.validateRequired at h
  simp only [then_ok, ensure_ok, eachOk_ok, List.forall_mem_cons, Bool.and_eq_true, beq_iff_eq,
    decide_eq_true_eq] at h
  obtain ⟨⟨hs, he, ht, hw, ha, -⟩, ⟨⟨⟨⟨⟨hseq, -⟩, -⟩, -⟩, -⟩, -⟩, ⟨hv, hi⟩, -⟩ := h
  exact ⟨hs, he, ht, hw, ha, hseq, hv, hi⟩

/-- What `Commit` returns: the draft with its two digests. -/
structure Commits (p : Platform) (u : Uncommitted) (m : CommitMetadata) (e : Envelope) : Prop where
  payload : canonicalize u.payload = .ok e.payload
  drafted : e = { draft u m e.payload with
    payloadDigest := e.payloadDigest, envelopeDigest := e.envelopeDigest }
  required : e.validateRequired p = .ok ()
  payloadDigest : digestRaw p.sha256 e.payload = .ok e.payloadDigest
  envelopeDigest : e.digest p = .ok e.envelopeDigest

theorem commit_ok (h : commit p u m = .ok e) : Commits p u m e := by
  unfold commit at h
  simp only [bind_ok, mapError_ok, encoded_ok, pure_ok] at h
  obtain ⟨payload, hpayload, ⟨⟩, hrequired, pd, hpd, d, hd, rfl⟩ := h
  exact ⟨hpayload, rfl, hrequired, hpd, hd⟩

theorem Commits.canonical (h : Commits p u m e) : canonicalize e.payload = .ok e.payload := by
  obtain ⟨t, s, hc, hout⟩ := canonicalize_ok h.payload
  rw [hout]
  exact hc.again

theorem verify_ok : e.verify p = .ok () ↔ e.validateRequired p = .ok () ∧
    digestRaw p.sha256 e.payload = .ok e.payloadDigest ∧ e.digest p = .ok e.envelopeDigest := by
  unfold Envelope.verify
  simp only [bind_ok, encoded_ok, ensure_ok, beq_iff_eq]
  constructor
  · rintro ⟨⟨⟩, hr, _, hpd, ⟨⟩, rfl, _, hd, rfl⟩
    exact ⟨hr, hpd, hd⟩
  · rintro ⟨hr, hpd, hd⟩
    exact ⟨(), hr, _, hpd, (), rfl, _, hd, rfl⟩

theorem Commits.verify (h : Commits p u m e) : e.verify p = .ok () :=
  verify_ok.2 ⟨h.required, h.payloadDigest, h.envelopeDigest⟩

def Identity.texts (i : Identity) : List Bytes :=
  [i.name, i.version, i.hashAlgorithm, i.hashVersion]

def Envelope.texts (e : Envelope) : List Bytes :=
  [e.streamID, e.eventID, e.eventType, e.tenantID, e.workspaceID, e.actor.type, e.actor.id,
    e.correlationID, e.causationID, e.idempotencyKey, e.classification, e.payloadDigest,
    e.previousDigest, e.envelopeDigest] ++ e.encoding.texts

def Envelope.ValidTexts (e : Envelope) : Prop := ∀ s ∈ e.texts, Valid s

def Uncommitted.texts (u : Uncommitted) : List Bytes :=
  [u.streamID, u.eventType, u.tenantID, u.workspaceID, u.actor.type, u.actor.id, u.correlationID,
    u.causationID, u.idempotencyKey, u.classification]

def Uncommitted.ValidTexts (u : Uncommitted) : Prop := ∀ s ∈ u.texts, Valid s

instance : DecidablePred Uncommitted.ValidTexts := fun u =>
  inferInstanceAs (Decidable (∀ s ∈ u.texts, Valid s))

theorem valid_hexText : Valid (hexText b) := (literal_safe hexText_safe).2

theorem Commits.digest_valid (h : Commits p u m e) : Valid e.envelopeDigest := by
  have hd := h.envelopeDigest
  unfold Envelope.digest at hd
  split at hd
  · obtain ⟨out, -, hd⟩ := map_ok.1 hd
    rw [← hd]
    exact valid_hexText
  · cases hd

theorem Commits.validTexts (h : Commits p u m e) (hu : u.ValidTexts) (hm : Valid m.previousDigest) :
    e.ValidTexts := by
  have hr := required_of_ok h.required
  obtain ⟨out, -, hpd⟩ := map_ok.1 h.payloadDigest
  have hdigest := h.digest_valid
  have hcurrent : ∀ s ∈ current.texts, Valid s := by decide +kernel
  rw [h.drafted] at hr ⊢
  simp only [Uncommitted.ValidTexts, Uncommitted.texts, List.forall_mem_cons] at hu
  obtain ⟨hstream, htype, htenant, hworkspace, hactor, hactorID, hcorr, hcause, hkey,
    hclass, -⟩ := hu
  simp only [Envelope.ValidTexts, Envelope.texts, List.forall_mem_append, List.forall_mem_cons]
  refine ⟨⟨hstream, validateID_valid hr.eventID, htype, htenant, hworkspace, hactor,
    hactorID, hcorr,
    hcause, hkey, hclass, ?_, hm, hdigest, by simp⟩, hcurrent⟩
  rw [← hpd]
  exact valid_hexText

def Actor.fieldNames : List Bytes := [bytesOf "type", bytesOf "id"]

def Identity.fieldNames : List Bytes :=
  ["name", "version", "hash_algorithm", "hash_version"].map bytesOf

def Envelope.fieldNames : List Bytes :=
  ["stream_id", "sequence", "event_id", "event_type", "schema_version", "tenant_id", "workspace_id",
    "actor", "correlation_id", "causation_id", "idempotency_key", "fencing_token", "occurred_at",
    "committed_at", "classification", "payload", "payload_digest", "previous_digest",
    "envelope_digest", "encoding"].map bytesOf

theorem distinct_actor : Distinct [(bytesOf "type", x), (bytesOf "id", y)] :=
  .of_names Actor.fieldNames rfl (by decide +kernel) (by decide +kernel)

theorem distinct_identity :
    Distinct [(bytesOf "name", w), (bytesOf "version", x), (bytesOf "hash_algorithm", y),
      (bytesOf "hash_version", z)] :=
  .of_names Identity.fieldNames rfl (by decide +kernel) (by decide +kernel)

theorem wf_actor {a : Actor} : a.tree.Wf := wf_object (wf_present (by simp [wf_stringTree]))

theorem wf_identity : i.tree.Wf := wf_object (wf_present (by simp [wf_stringTree]))

section Fields

variable {o : Bytes} {payload : Syntax} {d : Option Syntax}

theorem distinct_fields : Distinct (e.fields o c payload d) :=
  .of_names Envelope.fieldNames rfl (by decide +kernel) (by decide +kernel)

theorem wf_fields (hp : payload.Wf) (hd : ∀ t ∈ d, t.Wf) :
    ∀ q ∈ present (e.fields o c payload d), q.2.Wf := by
  refine wf_present ?_
  simp only [Envelope.fields, List.forall_mem_cons, Option.mem_def, Option.some.injEq, forall_eq',
    List.not_mem_nil, false_implies, implies_true, and_true]
  exact ⟨wf_stringTree, wf_intTree, wf_stringTree, wf_stringTree, wf_intTree,
    wf_stringTree, wf_stringTree, wf_actor, wf_stringTree, wf_nonEmpty, wf_nonEmpty,
    wf_nonZero, wf_stringTree, wf_stringTree, wf_stringTree, hp, wf_stringTree, wf_nonEmpty,
    hd, wf_identity⟩

end Fields

theorem rawTree_wf (h : rawTree raw = some t) : t.Wf := by
  unfold rawTree at h
  split at h
  · cases h
    simp [Tree.Wf]
  · exact (parse_writable h).wf

theorem read_actor (ht : Valid a.type) (hi : Valid a.id) (h : Written k (some a.tree) ms) :
    readField k (readStruct readActor) zero ms = some a := by
  refine readField_struct distinct_actor (wf_present (by simp [wf_stringTree])) h fun ms hms => ?_
  rw [readActor, readField_string ht (hms _ _ (List.mem_of_getElem? (i := 0) rfl)),
    readField_string hi (hms _ _ (List.mem_of_getElem? (i := 1) rfl))]
  rfl

theorem read_identity (hi : ∀ s ∈ i.texts, Valid s)
    (h : Written k (some i.tree) ms) : readField k (readStruct readIdentity) zero ms = some i := by
  simp only [Identity.texts, List.forall_mem_cons] at hi
  obtain ⟨h₁, h₂, h₃, h₄, -⟩ := hi
  refine readField_struct distinct_identity (wf_present (by simp [wf_stringTree])) h
    fun ms hms => ?_
  rw [readIdentity, readField_string h₁ (hms _ _ (List.mem_of_getElem? (i := 0) rfl)),
    readField_string h₂ (hms _ _ (List.mem_of_getElem? (i := 1) rfl)),
    readField_string h₃ (hms _ _ (List.mem_of_getElem? (i := 2) rfl)),
    readField_string h₄ (hms _ _ (List.mem_of_getElem? (i := 3) rfl))]
  rfl

/-- Integers that an `int64` holds. -/
def InInt64 (n : Int) : Prop := -(2 ^ 63) ≤ n ∧ n ≤ maxInt64

theorem read_envelope (ht : e.ValidTexts)
    (hseq : InInt64 e.sequence) (hschema : InInt64 e.schemaVersion)
    (ho : rfc3339 e.occurredAt = some o) (hc : rfc3339 e.committedAt = some c)
    (hp : parse e.payload = some payload) (hcanon : canonicalize e.payload = .ok e.payload)
    (hms : ∀ k v, (k, v) ∈ e.fields o c payload (some (stringTree e.envelopeDigest)) →
      Written k v ms) : readEnvelope p ms = some e := by
  simp only [Envelope.ValidTexts, Envelope.texts, List.forall_mem_append,
    List.forall_mem_cons] at ht
  obtain ⟨⟨t₁, t₂, t₃, t₄, t₅, t₆, t₇, t₈, t₉, t₁₀, t₁₁, t₁₂, t₁₃, t₁₄, -⟩, hidentity⟩ := ht
  have hw : ∀ i k v, (e.fields o c payload (some (stringTree e.envelopeDigest)))[i]? = some (k, v) →
      Written k v ms := fun i k v h => hms k v (List.mem_of_getElem? h)
  have htoken : InInt64 e.fencingToken.toInt :=
    ⟨Int64.le_toInt _, Int.le_sub_one_of_lt (Int64.toInt_lt _)⟩
  unfold readEnvelope
  dsimp only
  rw [readField_string t₁ (hw 0 _ _ rfl), readField_int hseq.1 hseq.2 (hw 1 _ _ rfl),
    readField_string t₂ (hw 2 _ _ rfl), readField_string t₃ (hw 3 _ _ rfl),
    readField_int hschema.1 hschema.2 (hw 4 _ _ rfl), readField_string t₄ (hw 5 _ _ rfl),
    readField_string t₅ (hw 6 _ _ rfl), read_actor t₆ t₇ (hw 7 _ _ rfl),
    readField_string t₈ (hw 8 _ _ rfl), readField_nonEmpty t₉ (hw 9 _ _ rfl),
    readField_nonEmpty t₁₀ (hw 10 _ _ rfl), readField_nonZero htoken.1 htoken.2 (hw 11 _ _ rfl),
    readField_time ho (hw 12 _ _ rfl), readField_time hc (hw 13 _ _ rfl),
    readField_string t₁₁ (hw 14 _ _ rfl), readField_raw hp hcanon (hw 15 _ _ rfl),
    readField_string t₁₂ (hw 16 _ _ rfl), readField_nonEmpty t₁₃ (hw 17 _ _ rfl),
    readField_string t₁₄ (hw 18 _ _ rfl), read_identity hidentity (hw 19 _ _ rfl)]
  simp only [Option.bind_eq_bind, Option.bind_some, Int64.ofInt_toInt]
  rfl

/-- A document whose texts are valid and whose payload is canonical is read back. -/
theorem unmarshal_marshal (ht : e.ValidTexts) (hseq : InInt64 e.sequence)
    (hschema : InInt64 e.schemaVersion) (hcanon : canonicalize e.payload = .ok e.payload)
    (h : e.marshal = .ok raw) : unmarshal p raw = some e := by
  obtain ⟨t, s, hc, -⟩ := canonicalize_ok hcanon
  have hne : e.payload ≠ [] := by
    intro hnil
    have := hc.parsed
    rw [hnil] at this
    cases this
  unfold Envelope.marshal at h
  split at h
  · next payload o c hp ho hcm =>
    rw [rawTree, if_neg (by simpa using hne)] at hp
    have hw : ∀ q ∈ present (e.fields o c payload (some (stringTree e.envelopeDigest))), q.2.Wf :=
      wf_fields (parse_writable hp).wf (by simp [wf_stringTree])
    obtain ⟨s, hs, hwr, rfl⟩ := marshal_ok (wf_object hw) h
    obtain ⟨⟨ss, rfl⟩, ms, hms, hwritten⟩ := read_object distinct_fields hw hs hwr
    rw [unmarshal, parse_text hwr]
    simp only [hms]
    exact read_envelope ht hseq hschema ho hcm hp hcanon hwritten
  · cases h

section Read

variable {k : Bytes}

theorem readField_keeps {read : Member → α → Option α} {P : α → Prop} {start a : α}
    (hstart : P start) (hread : ∀ m old a, P old → read m old = some a → P a)
    (h : readField k read start ms = some a) : P a := by
  unfold readField at h
  generalize ms.filter (named k) = l at h
  induction l generalizing start with
  | nil =>
    cases h
    exact hstart
  | cons m l ih =>
    rw [List.foldlM_cons, Option.bind_eq_bind, Option.bind_eq_some_iff] at h
    obtain ⟨b, hb, h⟩ := h
    exact ih (hread m start b hstart hb) h

theorem readString_valid {m : Member} (hzero : Valid zero) (h : readString m zero = some s) :
    Valid s := by
  unfold readString at h
  split at h
  · cases h
    exact hzero
  · cases h
    exact valid_unquote _
  · cases h

theorem readText_valid (hzero : Valid zero) (h : readField k readString zero ms = some s) :
    Valid s :=
  readField_keeps hzero (fun _ _ _ => readString_valid) h

theorem readStruct_keeps {read : List Member → α → Option α} {P : α → Prop} {start a : α}
    (hstart : P start) (hread : ∀ ms old a, P old → read ms old = some a → P a)
    (h : readField k (readStruct read) start ms = some a) : P a := by
  refine readField_keeps hstart (fun m old a hold h => ?_) h
  unfold readStruct at h
  split at h
  · cases h
    exact hold
  · obtain ⟨ms', -, h⟩ := Option.bind_eq_some_iff.1 h
    exact hread ms' old a hold h
  · cases h

end Read

theorem readActor_valid (hold : Valid old.type ∧ Valid old.id)
    (h : readActor ms old = some a) : Valid a.type ∧ Valid a.id := by
  unfold readActor at h
  simp only [Option.bind_eq_bind, Option.bind_eq_some_iff, Option.pure_def, Option.some.injEq] at h
  obtain ⟨type, ht, id, hi, rfl⟩ := h
  exact ⟨readText_valid hold.1 ht, readText_valid hold.2 hi⟩

theorem readIdentity_valid (hold : ∀ s ∈ old.texts, Valid s)
    (h : readIdentity ms old = some i) : ∀ s ∈ i.texts, Valid s := by
  unfold readIdentity at h
  simp only [Option.bind_eq_bind, Option.bind_eq_some_iff, Option.pure_def, Option.some.injEq] at h
  simp only [Identity.texts, List.forall_mem_cons] at hold ⊢
  obtain ⟨h₁, h₂, h₃, h₄, -⟩ := hold
  obtain ⟨name, hn, version, hv, algorithm, ha, hash, hh, rfl⟩ := h
  exact ⟨readText_valid h₁ hn, readText_valid h₂ hv, readText_valid h₃ ha, readText_valid h₄ hh,
    by simp⟩

theorem valid_nil : Valid [] := rfl

theorem readEnvelope_valid (h : readEnvelope p ms = some e) : e.ValidTexts := by
  obtain ⟨streamID, h₁, h⟩ := Option.bind_eq_some_iff.1 h
  obtain ⟨sequence, -, h⟩ := Option.bind_eq_some_iff.1 h
  obtain ⟨eventID, h₂, h⟩ := Option.bind_eq_some_iff.1 h
  obtain ⟨eventType, h₃, h⟩ := Option.bind_eq_some_iff.1 h
  obtain ⟨schemaVersion, -, h⟩ := Option.bind_eq_some_iff.1 h
  obtain ⟨tenantID, h₄, h⟩ := Option.bind_eq_some_iff.1 h
  obtain ⟨workspaceID, h₅, h⟩ := Option.bind_eq_some_iff.1 h
  obtain ⟨actor, ha, h⟩ := Option.bind_eq_some_iff.1 h
  obtain ⟨correlationID, h₆, h⟩ := Option.bind_eq_some_iff.1 h
  obtain ⟨causationID, h₇, h⟩ := Option.bind_eq_some_iff.1 h
  obtain ⟨idempotencyKey, h₈, h⟩ := Option.bind_eq_some_iff.1 h
  obtain ⟨fencingToken, -, h⟩ := Option.bind_eq_some_iff.1 h
  obtain ⟨occurredAt, -, h⟩ := Option.bind_eq_some_iff.1 h
  obtain ⟨committedAt, -, h⟩ := Option.bind_eq_some_iff.1 h
  obtain ⟨classification, h₉, h⟩ := Option.bind_eq_some_iff.1 h
  obtain ⟨payload, -, h⟩ := Option.bind_eq_some_iff.1 h
  obtain ⟨payloadDigest, h₁₀, h⟩ := Option.bind_eq_some_iff.1 h
  obtain ⟨previousDigest, h₁₁, h⟩ := Option.bind_eq_some_iff.1 h
  obtain ⟨envelopeDigest, h₁₂, h⟩ := Option.bind_eq_some_iff.1 h
  obtain ⟨encoding, hi, h⟩ := Option.bind_eq_some_iff.1 h
  cases h
  have hactor := readStruct_keeps ⟨valid_nil, valid_nil⟩
    (fun _ _ _ => readActor_valid) ha
  have hidentity := readStruct_keeps
    (by simp [Identity.texts, valid_nil]) (fun _ _ _ => readIdentity_valid) hi
  have htext : ∀ {k s : Bytes}, readField k readString [] ms = some s → Valid s :=
    fun h => readText_valid valid_nil h
  simp only [Envelope.ValidTexts, Envelope.texts, List.forall_mem_append, List.forall_mem_cons]
  exact ⟨⟨htext h₁, htext h₂, htext h₃, htext h₄, htext h₅, hactor.1, hactor.2, htext h₆, htext h₇,
    htext h₈, htext h₉, htext h₁₀, htext h₁₁, htext h₁₂, by simp⟩, hidentity⟩

theorem unmarshal_valid (h : unmarshal p raw = some e) : e.ValidTexts := by
  unfold unmarshal at h
  split at h
  · exact readEnvelope_valid h
  · obtain ⟨ms, -, h⟩ := Option.bind_eq_some_iff.1 h
    exact readEnvelope_valid h
  · cases h

theorem actor_inj {a a' : Actor} (h : Valid a.type ∧ Valid a.id) (h' : Valid a'.type ∧ Valid a'.id)
    (heq : fieldValue (some a.tree) = fieldValue (some a'.tree)) : a = a' := by
  have hfield := fun i {k o u} => value_object_inj (k := k) (o := o) (u := u) distinct_actor
    distinct_actor (wf_present (by simp [wf_stringTree])) (wf_present (by simp [wf_stringTree]))
    (Option.some.inj heq) i
  have ht := stringTree_inj h.1 h'.1 (hfield 0 rfl rfl)
  have hi := stringTree_inj h.2 h'.2 (hfield 1 rfl rfl)
  cases a
  simp_all

theorem identity_inj (h : ∀ s ∈ i.texts, Valid s) (h' : ∀ s ∈ i'.texts, Valid s)
    (heq : fieldValue (some i.tree) = fieldValue (some i'.tree)) : i = i' := by
  simp only [Identity.texts, List.forall_mem_cons] at h h'
  obtain ⟨h₁, h₂, h₃, h₄, -⟩ := h
  obtain ⟨h₁', h₂', h₃', h₄', -⟩ := h'
  have hfield := fun i {k o u} => value_object_inj (k := k) (o := o) (u := u)
    distinct_identity distinct_identity (wf_present (by simp [wf_stringTree]))
    (wf_present (by simp [wf_stringTree])) (Option.some.inj heq) i
  have e₁ := stringTree_inj h₁ h₁' (hfield 0 rfl rfl)
  have e₂ := stringTree_inj h₂ h₂' (hfield 1 rfl rfl)
  have e₃ := stringTree_inj h₃ h₃' (hfield 2 rfl rfl)
  have e₄ := stringTree_inj h₄ h₄' (hfield 3 rfl rfl)
  cases i
  simp_all

theorem valid_formatTime : Valid (formatTime t) := (literal_safe (microsText_safe _)).2

theorem normalizeTime_of_format {t t' : Int} (h : formatTime t = formatTime t') :
    normalizeTime t = normalizeTime t' := by
  have hmicros : (t / 1000 * 1000 / 1000 : Int) = t' / 1000 * 1000 / 1000 := microsText_inj h
  show (t / 1000 * 1000 : Int) = t' / 1000 * 1000
  omega

/-- What the digest of an envelope is computed from, the payload apart. -/
def Envelope.hashed (e : Envelope) : Envelope :=
  { e with occurredAt := normalizeTime e.occurredAt, committedAt := normalizeTime e.committedAt,
           payload := [], envelopeDigest := [] }

theorem fields_inj {payload payload' : Syntax} (ht : e.ValidTexts) (ht' : e'.ValidTexts)
    (hp : payload.Wf) (hp' : payload'.Wf)
    (heq : value (decode (object
        (e.fields (formatTime e.occurredAt) (formatTime e.committedAt) payload none))) =
      value (decode (object
        (e'.fields (formatTime e'.occurredAt) (formatTime e'.committedAt) payload' none)))) :
    e.hashed = e'.hashed := by
  simp only [Envelope.ValidTexts, Envelope.texts, List.forall_mem_append,
    List.forall_mem_cons] at ht ht'
  obtain ⟨⟨t₁, t₂, t₃, t₄, t₅, t₆, t₇, t₈, t₉, t₁₀, t₁₁, t₁₂, t₁₃, -, -⟩, ti⟩ := ht
  obtain ⟨⟨t₁', t₂', t₃', t₄', t₅', t₆', t₇', t₈', t₉', t₁₀', t₁₁', t₁₂', t₁₃', -, -⟩, ti'⟩ := ht'
  have hfield := fun i {k o u} => value_object_inj (k := k) (o := o) (u := u)
    distinct_fields distinct_fields (wf_fields hp (by simp)) (wf_fields hp' (by simp)) heq i
  have e₀ := stringTree_inj t₁ t₁' (hfield 0 rfl rfl)
  have e₁ := intTree_inj (hfield 1 rfl rfl)
  have e₂ := stringTree_inj t₂ t₂' (hfield 2 rfl rfl)
  have e₃ := stringTree_inj t₃ t₃' (hfield 3 rfl rfl)
  have e₄ := intTree_inj (hfield 4 rfl rfl)
  have e₅ := stringTree_inj t₄ t₄' (hfield 5 rfl rfl)
  have e₆ := stringTree_inj t₅ t₅' (hfield 6 rfl rfl)
  have e₇ := actor_inj ⟨t₆, t₇⟩ ⟨t₆', t₇'⟩ (hfield 7 rfl rfl)
  have e₈ := stringTree_inj t₈ t₈' (hfield 8 rfl rfl)
  have e₉ := nonEmpty_inj t₉ t₉' (hfield 9 rfl rfl)
  have e₁₀ := nonEmpty_inj t₁₀ t₁₀' (hfield 10 rfl rfl)
  have e₁₁ := Int64.toInt_inj.1 (nonZero_inj (hfield 11 rfl rfl))
  have e₁₂ := normalizeTime_of_format (stringTree_inj valid_formatTime valid_formatTime
    (hfield 12 rfl rfl))
  have e₁₃ := normalizeTime_of_format (stringTree_inj valid_formatTime valid_formatTime
    (hfield 13 rfl rfl))
  have e₁₄ := stringTree_inj t₁₁ t₁₁' (hfield 14 rfl rfl)
  have e₁₆ := stringTree_inj t₁₂ t₁₂' (hfield 16 rfl rfl)
  have e₁₇ := nonEmpty_inj t₁₃ t₁₃' (hfield 17 rfl rfl)
  have e₁₉ := identity_inj ti ti' (hfield 19 rfl rfl)
  simp only [Envelope.hashed, e₀, e₁, e₂, e₃, e₄, e₅, e₆, e₇, e₈, e₉, e₁₀, e₁₁, e₁₂, e₁₃, e₁₄, e₁₆,
    e₁₇, e₁₉]

/-- Without collisions of the hash, envelopes of one digest agree on what is hashed. -/
theorem digest_inj {d : Bytes} (hsha : Function.Injective p.sha256) (ht : e.ValidTexts)
    (ht' : e'.ValidTexts) (h : e.digest p = .ok d) (h' : e'.digest p = .ok d) :
    e.hashed = e'.hashed := by
  unfold Envelope.digest at h h'
  split at h
  · next payload hp =>
    split at h'
    · next payload' hp' =>
      have hw := rawTree_wf hp
      have hw' := rawTree_wf hp'
      obtain ⟨out, hout, rfl⟩ := map_ok.1 h
      obtain ⟨out', hout', heq⟩ := map_ok.1 h'
      rw [hsha (hexText_injective heq)] at hout'
      exact fields_inj ht ht' hw hw' (marshal_inj (wf_object (wf_fields hw (by simp)))
        (wf_object (wf_fields hw' (by simp))) hout hout')
    · cases h'
  · cases h

theorem canonical_of_digest (hsha : Function.Injective p.sha256) (h : digestRaw p.sha256 a = .ok d)
    (h' : digestRaw p.sha256 b = .ok d) : ∃ c, canonicalize a = .ok c ∧ canonicalize b = .ok c := by
  unfold digestRaw at h h'
  cases ha : canonicalize a with
  | error => simp [ha, Except.map] at h
  | ok c =>
    cases hb : canonicalize b with
    | error => simp [hb, Except.map] at h'
    | ok c' =>
      simp only [ha, hb, Except.map, Except.ok.injEq] at h h'
      exact ⟨c, rfl, congrArg _ (hsha (hexText_injective (h'.trans h.symm)))⟩

end Adro.Event
