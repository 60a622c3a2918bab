import Adro.EventStore.RoundTrip

/-!
# Appends made again

A request that once succeeded is answered as it was in every later state. Where
the hash has no collisions, a request that has a key of the stream is refused
unless all its keys are known and were committed with what it says.
-/

namespace Adro.EventStore

open Adro.Go Adro.Json Adro.Encoding Adro.Event

variable {p : Platform} {db : Database} {l : Ledger p} {s : Bytes} {validated : ValidatedAppend}

/-- An event as its identity has it, the payload apart. -/
def Uncommitted.said (u : Uncommitted) : Uncommitted :=
  { u with occurredAt := normalizeTime u.occurredAt, payload := [] }

def uncommittedNames : List Bytes :=
  ["stream_id", "event_type", "tenant_id", "workspace_id", "actor", "correlation_id",
    "causation_id",
    "idempotency_key", "fencing_token", "occurred_at", "classification", "payload"].map bytesOf

def identityNames : List Bytes :=
  ["stream_id", "expected_sequence", "events", "outbox", "snapshot"].map bytesOf

section Identity

variable {u : Uncommitted} {t : Syntax}

theorem distinct_uncommitted : Distinct (uncommittedFields u t) :=
  .of_names uncommittedNames rfl (by decide +kernel) (by decide +kernel)

theorem wf_uncommitted (ht : t.Wf) : ∀ q ∈ present (uncommittedFields u t), q.2.Wf := by
  refine wf_present ?_
  simp only [uncommittedFields, List.forall_mem_cons, Option.mem_def, Option.some.injEq, forall_eq',
    List.not_mem_nil, false_implies, implies_true, and_true]
  exact ⟨wf_stringTree, wf_stringTree, wf_stringTree, wf_stringTree, wf_actor, wf_stringTree,
    wf_nonEmpty, wf_stringTree, wf_nonZero, wf_stringTree, wf_stringTree, ht⟩

theorem uncommitted_inj (hu : u.ValidTexts) (hu' : u'.ValidTexts) (ht : t.Wf) (ht' : t'.Wf)
    (heq : value (decode (object (uncommittedFields u t))) =
      value (decode (object (uncommittedFields u' t')))) :
    Uncommitted.said u = Uncommitted.said u' ∧ value (decode t) = value (decode t') := by
  simp only [Uncommitted.ValidTexts, Uncommitted.texts, List.forall_mem_cons] at hu hu'
  obtain ⟨v₀, v₁, v₂, v₃, v₄, v₅, v₆, v₇, v₈, v₉, -⟩ := hu
  obtain ⟨v₀', v₁', v₂', v₃', v₄', v₅', v₆', v₇', v₈', v₉', -⟩ := hu'
  have hfield := fun i {k o u} => value_object_inj (k := k) (o := o) (u := u)
    distinct_uncommitted distinct_uncommitted (wf_uncommitted ht) (wf_uncommitted ht') heq i
  have e₀ := stringTree_inj v₀ v₀' (hfield 0 rfl rfl)
  have e₁ := stringTree_inj v₁ v₁' (hfield 1 rfl rfl)
  have e₂ := stringTree_inj v₂ v₂' (hfield 2 rfl rfl)
  have e₃ := stringTree_inj v₃ v₃' (hfield 3 rfl rfl)
  have e₄ := actor_inj ⟨v₄, v₅⟩ ⟨v₄', v₅'⟩ (hfield 4 rfl rfl)
  have e₅ := stringTree_inj v₆ v₆' (hfield 5 rfl rfl)
  have e₆ := nonEmpty_inj v₇ v₇' (hfield 6 rfl rfl)
  have e₇ := stringTree_inj v₈ v₈' (hfield 7 rfl rfl)
  have e₈ := Int64.toInt_inj.1 (nonZero_inj (hfield 8 rfl rfl))
  have e₉ := normalizeTime_of_format (stringTree_inj valid_formatTime valid_formatTime
    (hfield 9 rfl rfl))
  have e₁₀ := stringTree_inj v₉ v₉' (hfield 10 rfl rfl)
  refine ⟨?_, Option.some.inj (hfield 11 rfl rfl)⟩
  simp only [Uncommitted.said, e₀, e₁, e₂, e₃, e₄, e₅, e₆, e₇, e₈, e₉, e₁₀]

/-- The tree of an event in the identity of its request. -/
def Identifies (u : Uncommitted) (t : Syntax) : Prop :=
  ∃ s : Syntax, canonicalize u.payload = .ok s.text ∧ s.Wf ∧ Encoding.Writes (decode s) s ∧
    Decodes (decode s) ∧ t = object (uncommittedFields u s)

theorem Identifies.inj (h : Identifies u t) (h' : Identifies u' t') (hu : u.ValidTexts)
    (hu' : u'.ValidTexts) (heq : value (decode t) = value (decode t')) :
    Uncommitted.said u = Uncommitted.said u' ∧
    canonicalize u.payload = canonicalize u'.payload := by
  obtain ⟨s, hs, hwf, hwrites, hdecodes, rfl⟩ := h
  obtain ⟨s', hs', hwf', hwrites', hdecodes', rfl⟩ := h'
  obtain ⟨hsaid, hvalue⟩ := uncommitted_inj hu hu' hwf hwf' heq
  exact ⟨hsaid, by rw [hs, hs', hwrites.unique hdecodes hdecodes' hvalue hwrites']⟩

end Identity

theorem validateEvents_trees
    (h : validateEvents streamID tenantID workspaceID index seen items = .ok trees) :
    List.Forall₂ Identifies items trees := by
  induction items generalizing index seen trees with
  | nil =>
    cases pure_ok.1 h
    exact .nil
  | cons item items ih =>
    rw [validateEvents] at h
    simp only [bind_ok, mapError_ok, encoded_ok] at h
    obtain ⟨⟨⟩, -, ⟨⟩, -, ⟨⟩, -, payload, hpayload, h⟩ := h
    obtain ⟨t, s, hc, rfl⟩ := canonicalize_ok hpayload
    split at h
    · cases h
    · next tree htree =>
      obtain ⟨rest, hrest, h⟩ := bind_ok.1 h
      cases pure_ok.1 h
      obtain ⟨hwr, hparse⟩ := hc.reread
      have hne : s.text ≠ [] := by
        intro hnil
        rw [hnil] at hparse
        cases hparse
      rw [rawTree, if_neg (by simpa using hne), hparse] at htree
      cases htree
      exact .cons ⟨s, hpayload, hwr.wf, (hc.writes.written hc.decoded).2.2,
        (decodes s hwr.wf).1, rfl⟩
        (ih hrest)

theorem Identifies.wf (h : Identifies u t) : t.Wf := by
  obtain ⟨s, -, hwf, -, -, rfl⟩ := h
  exact wf_object (wf_uncommitted hwf)

theorem wf_items (h : ∀ t ∈ ts, t.Wf) : Tree.Wf (.arr ts) := by
  induction ts with
  | nil => trivial
  | cons t ts ih => exact ⟨h t (by simp), ih fun t ht => h t (by simp [ht])⟩

theorem wf_bytesTree : (bytesTree b).Wf := by
  cases b with
  | none => trivial
  | some b => exact wf_stringTree

theorem distinct_identityFields : Distinct (identityFields r ts) :=
  .of_names identityNames rfl (by decide +kernel) (by decide +kernel)

theorem wf_identityFields (h : ∀ t ∈ ts, t.Wf) : ∀ q ∈ present (identityFields r ts), q.2.Wf := by
  have hmessage (m : OutboxMessage) : m.tree.Wf :=
    wf_object (wf_present (by simp [wf_stringTree, wf_bytesTree]))
  have hsnapshot (w : SnapshotWrite) : w.tree.Wf :=
    wf_object (wf_present (by simp [wf_stringTree, wf_intTree, wf_bytesTree]))
  refine wf_present ?_
  simp only [identityFields, List.forall_mem_cons, Option.mem_def, Option.some.injEq, forall_eq',
    List.not_mem_nil, false_implies, implies_true, and_true]
  refine ⟨wf_stringTree, wf_intTree, wf_items h, fun t ht => ?_, fun t ht => ?_⟩
  · split at ht
    · cases ht
    · cases ht
      refine wf_items fun t ht => ?_
      obtain ⟨m, -, rfl⟩ := List.mem_map.1 ht
      exact hmessage m
  · obtain ⟨w, -, rfl⟩ := Option.map_eq_some_iff.1 ht
    exact hsnapshot w

theorem validateAppend_digest (h : validateAppend p request = .ok validated) :
    ∃ trees out, List.Forall₂ Identifies request.events trees ∧
      marshal (object (identityFields request trees)) = .ok out ∧
      validated.digest = hexText (p.sha256 out) := by
  unfold validateAppend at h
  split at h
  · cases h
  · simp only [bind_ok, encoded_ok, pure_ok] at h
    obtain ⟨⟨⟩, -, ⟨⟩, -, ⟨⟩, -, ⟨⟩, -, trees, htrees, ⟨⟩, -, digest, hdigest, rfl⟩ := h
    obtain ⟨out, hout, rfl⟩ := map_ok.1 hdigest
    exact ⟨trees, out, validateEvents_trees htrees, hout, rfl⟩

def SameContent (u u' : Uncommitted) : Prop :=
  Uncommitted.said u = Uncommitted.said u' ∧ canonicalize u.payload = canonicalize u'.payload

theorem items_inj (h : List.Forall₂ Identifies us ts) (h' : List.Forall₂ Identifies us' ts')
    (hu : ∀ u ∈ us, u.ValidTexts) (hu' : ∀ u ∈ us', u.ValidTexts)
    (heq : valueItems (decodeItems ts) = valueItems (decodeItems ts')) :
    List.Forall₂ SameContent us us' := by
  induction h generalizing us' ts' with
  | nil =>
    cases h' with
    | nil => exact .nil
    | cons hi hs => simp [decodeItems, valueItems] at heq
  | cons hi hs ih =>
    cases h' with
    | nil => simp [decodeItems, valueItems] at heq
    | cons hi' hs' =>
      simp only [decodeItems, valueItems, List.cons.injEq] at heq
      rw [List.forall_mem_cons] at hu hu'
      exact .cons (hi.inj hi' hu.1 hu'.1 heq.1) (ih hs' hu.2 hu'.2 heq.2)

/-- Without collisions of the hash, requests of one digest have events that say the same. -/
theorem request_inj (hsha : Function.Injective p.sha256) (h : validateAppend p r = .ok v)
    (h' : validateAppend p r' = .ok v') (hr : r.Legible) (hr' : r'.Legible)
    (hd : v.digest = v'.digest) : List.Forall₂ SameContent r.events r'.events := by
  obtain ⟨ts, out, hts, hout, hdigest⟩ := validateAppend_digest h
  obtain ⟨ts', out', hts', hout', hdigest'⟩ := validateAppend_digest h'
  have hsame : out = out' := hsha (hexText_injective (hdigest.symm.trans (hd.trans hdigest')))
  have hwf {us : List Uncommitted} {ts : List Syntax} (h : List.Forall₂ Identifies us ts) :
      ∀ t ∈ ts, t.Wf := by
    induction h with
    | nil => simp
    | cons hi _ ih => exact List.forall_mem_cons.2 ⟨hi.wf, ih⟩
  have hvalue := marshal_inj (wf_object (wf_identityFields (hwf hts)))
    (wf_object (wf_identityFields (hwf hts'))) hout (hsame ▸ hout')
  have hevents := value_object_inj distinct_identityFields distinct_identityFields
    (wf_identityFields (hwf hts)) (wf_identityFields (hwf hts')) hvalue 2 rfl rfl
  simp only [Option.map_some, decode, value, Option.some.injEq, JsonValue.arr.injEq] at hevents
  exact items_inj hts hts' hr hr' hevents

def Carries (e : Envelope) (u : Uncommitted) : Prop :=
  canonicalize u.payload = .ok e.payload ∧ ∃ m, e = { draft u m e.payload with
    payloadDigest := e.payloadDigest, envelopeDigest := e.envelopeDigest }

theorem SameContent.carries (h : SameContent u u') (hc : Carries e u) : Carries e u' := by
  obtain ⟨hpayload, m, he⟩ := hc
  refine ⟨h.2 ▸ hpayload, m, he.trans ?_⟩
  have hsaid := h.1
  simp only [Uncommitted.said, Uncommitted.mk.injEq] at hsaid
  simp only [draft, hsaid]

section Keys

variable {request : AppendRequest}

theorem Ledger.events_tenant (h : l.Grown) (hb : b ∈ l.ofStream s) (he : e ∈ l.events s) :
    e.tenantID = b.validated.tenantID := by
  obtain ⟨c, hc, he⟩ := List.mem_flatMap.1 he
  rw [(c.scope he).2.1, (h.owner hb hc).1]

theorem Refines.findByKey (h : Refines db l) (he : e ∈ l.events s) :
    ∃ row, db.findByKey e.tenantID s e.idempotencyKey = some row ∧
    row.envelopeJSON = document e := by
  obtain ⟨b, hb, hs, he⟩ := Ledger.of_mem_events he
  exact ⟨rowOf b.validated.digest e, findByKey_iff.2
    ⟨h.mem_rows.2 ⟨b, hb, e, he, rfl⟩, rfl, (b.scope he).1.trans hs, rfl⟩, rfl⟩

theorem Refines.key_unique (h : Refines db l) (hvalid : ∀ b ∈ l, b.request.Legible)
    (he : e ∈ l.events s) (he' : e' ∈ l.events s) (hkey : e.idempotencyKey = e'.idempotencyKey) :
    e = e' := by
  obtain ⟨row, hrow, hdoc⟩ := h.findByKey he
  obtain ⟨row', hrow', hdoc'⟩ := h.findByKey he'
  obtain ⟨b, hb, hs, hmem⟩ := Ledger.of_mem_events he
  obtain ⟨b', hb', -, hmem'⟩ := Ledger.of_mem_events he'
  have hof : b ∈ l.ofStream s := List.mem_filter.2 ⟨hb, by simpa using hs⟩
  rw [Ledger.events_tenant h.grown hof he', ← Ledger.events_tenant h.grown hof he, ← hkey,
    hrow] at hrow'
  cases hrow'
  have hread := (h.grown.readable hb (hvalid b hb) hmem).document
  have hread' := (h.grown.readable hb' (hvalid b' hb') hmem').document
  rw [← hdoc, hdoc', hread'] at hread
  exact (Option.some.inj hread).symm

theorem Found.carries (h : Found p db request validated.digest u f row) (hr : Refines db l)
    (hvalid : ∀ b ∈ l, b.request.Legible) (haccepted : validateAppend p request = .ok validated)
    (hu : u ∈ request.events) :
    ∃ e ∈ l.events request.streamID, e.idempotencyKey = u.idempotencyKey ∧
      (Function.Injective p.sha256 → request.Legible → Carries e u) := by
  obtain ⟨hmem, -, hs, hkey⟩ := findByKey_iff.1 h.stored
  obtain ⟨b, hb, e, he, rfl⟩ := hr.mem_rows.1 hmem
  have hstream : b.request.streamID = request.streamID := (b.scope he).1.symm.trans hs
  refine ⟨e, hstream ▸ Ledger.mem_events hb he, hkey, fun hsha hleg => ?_⟩
  have hsame := request_inj hsha b.accepted haccepted (hvalid b hb) hleg h.same
  obtain ⟨u₀, hu₀, m, hc⟩ := b.event he
  have hkey₀ : u₀.idempotencyKey = e.idempotencyKey := by rw [hc.drafted]; rfl
  -- The event of the earlier request in the place of `u₀` has its key, so it is `u`.
  obtain ⟨u₁, hu₁, hcontent⟩ := forall₂_right hsame.flip hu₀
  have hkey₁ : u₁.idempotencyKey = u.idempotencyKey := by
    have := congrArg Uncommitted.idempotencyKey hcontent.1
    exact this.symm.trans (hkey₀.trans hkey)
  obtain rfl := List.inj_on_of_nodup_map (validateAppend_ok haccepted).keys hu₁ hu hkey₁
  exact SameContent.carries hcontent ⟨hc.payload, m, hc.drafted⟩

theorem append_keys (hr : Refines db l) (hvalid : ∀ b ∈ l, b.request.Legible)
    (h : append backend p db request assertedAt committedAt newID = .ok (db', result)) :
    (∀ u ∈ request.events, ∀ e ∈ l.events request.streamID, e.idempotencyKey ≠ u.idempotencyKey) ∨
      ∀ u ∈ request.events, ∃ e ∈ l.events request.streamID, e.idempotencyKey = u.idempotencyKey ∧
        (Function.Injective p.sha256 → request.Legible → Carries e u) := by
  obtain ⟨validated, haccepted, ⟨hreplay, -⟩ | ⟨envelopes, ha, -⟩⟩ := append_ok h
  · obtain ⟨es, hes, -⟩ := findReplay_some.1 hreplay
    refine .inr fun u hu => ?_
    obtain ⟨f, -, row, hf⟩ := forall₂_right hes.found.flip hu
    exact hf.carries hr hvalid haccepted hu
  · refine .inl fun u hu e he hkey => ?_
    have hnone := findReplay_none ha.fresh u hu
    obtain ⟨row, hrow, -⟩ := hr.findByKey he
    obtain ⟨c, hc, -⟩ := List.mem_flatMap.1 he
    have hlast : ∃ b, (l.ofStream request.streamID).getLast? = some b ∧
      b ∈ l.ofStream request.streamID := by
      have hne : l.ofStream request.streamID ≠ [] := List.ne_nil_of_mem hc
      exact ⟨_, List.getLast?_eq_some_getLast hne, List.getLast_mem hne⟩
    obtain ⟨b, hb, hmem⟩ := hlast
    have howner := (ha.owner b.streamRow (by rw [hr.streams, hb]; rfl)).1
    have htenant : e.tenantID = u.tenantID := by
      rw [Ledger.events_tenant hr.grown hmem he, ((validateAppend_ok haccepted).scope u hu).2.1]
      exact howner
    rw [htenant, hkey, hnone] at hrow
    cases hrow

theorem Refines.again (hr : Refines db l) (hleg : request.Legible)
    (h : respond backend p db (.append request assertedAt committedAt newID) =
      .ok (.appended result))
    (rest : List Call) :
    ∃ validated, validateAppend p request = .ok validated ∧
      findReplay p (Runs.exec (EventStore.step backend p) db
        (.append request assertedAt committedAt newID :: rest)) request validated.digest =
          .ok (some result) := by
  rcases step_cases backend p db (.append request assertedAt committedAt newID) with ⟨hs, hreplay⟩ |
    ⟨_, _, _, _, validated, envelopes, hcall, ha, hresult⟩
  · obtain ⟨_, _, _, _, validated, hcall, haccepted, hfind⟩ := hreplay result h
    cases hcall
    obtain ⟨es, hes, rfl⟩ := findReplay_some.1 hfind
    obtain ⟨l', hr', l₂, rfl⟩ := (hr.same hs).run backend rest
    exact ⟨validated, haccepted, findReplay_some.2 ⟨es, hes.later hr hr', rfl⟩⟩
  · cases hcall
    rw [h] at hresult
    cases hresult
    have hnow := hr.append ha
    obtain ⟨hes, hsorted⟩ := hnow.replays hleg
    obtain ⟨l', hr', l₂, rfl⟩ := hnow.run backend rest
    exact ⟨validated, ha.accepted,
      findReplay_some.2 ⟨envelopes, hes.later hnow hr', congrArg resultOf hsorted.symm⟩⟩

end Keys

/-- The key of an event is one of the stream's already. -/
def Known (log : List Envelope) (u : Uncommitted) : Prop :=
  ∃ e ∈ log, e.idempotencyKey = u.idempotencyKey

/-- In every state that a run reaches, a request with valid texts that succeeds is answered alike
at any later time, and changes nothing then. Where the texts of the run are valid, a request is
refused, and nothing changed, that has a known key and a new one, or, if the hash has no
collisions, a key that was committed with something else; and a stream has each key once. -/
theorem append_idempotent (backend : Backend) (p : Platform) (run : List Call) :
    let db := Runs.exec (step backend p) .empty run
    (∀ request assertedAt committedAt newID result, request.Legible →
      respond backend p db (.append request assertedAt committedAt newID) = .ok (.appended result) →
      ∀ rest assertedAt' committedAt' newID',
        let db' := Runs.exec (step backend p) db
          (.append request assertedAt committedAt newID :: rest)
        call backend p db' (.append request assertedAt' committedAt' newID') =
          .ok (db', .appended result)) ∧
      ((∀ c ∈ run, c.Legible) →
        (∀ request assertedAt committedAt newID,
          let log := returned backend p .empty run request.streamID
          (∃ u ∈ request.events, ∃ u' ∈ request.events, Known log u ∧ ¬ Known log u') ∨
            (Function.Injective p.sha256 ∧ request.Legible ∧ ∃ u ∈ request.events, ∃ e ∈ log,
              e.idempotencyKey = u.idempotencyKey ∧ ¬ Carries e u) →
          (∃ err, call backend p db (.append request assertedAt committedAt newID) = .error err) ∧
            step backend p db (.append request assertedAt committedAt newID) = db) ∧
        ∀ s, ∀ e ∈ returned backend p .empty run s, ∀ e' ∈ returned backend p .empty run s,
          e.idempotencyKey = e'.idempotencyKey → e = e') := by
  intro db
  constructor
  · intro request assertedAt committedAt newID result hleg h rest assertedAt'
      committedAt' newID' db'
    obtain ⟨l, hr, -⟩ := (Refines.empty).run backend run
    obtain ⟨validated, haccepted, hfind⟩ := hr.again hleg h rest
    have hagain : append backend p db' request assertedAt' committedAt' newID' =
      .ok (db', result) :=
      append_replay haccepted hfind
    simp only [call, hagain, Except.map]
  · intro hrun
    obtain ⟨l, hr, hvalid, hmem⟩ := (Refines.empty (p := p)).returned backend (by simp) hrun
    have hlog (s : Bytes) (e : Envelope) :
      e ∈ l.events s ↔ e ∈ returned backend p .empty run s := by
      rw [hmem, Ledger.events_nil]
      simp
    refine ⟨?_, fun s e he e' he' hkey =>
      hr.key_unique hvalid ((hlog s e).2 he) ((hlog s e').2 he') hkey⟩
    intro request assertedAt committedAt newID log hbad
    cases hcall : append backend p db request assertedAt committedAt newID with
    | error err =>
      have herr : call backend p db (.append request assertedAt committedAt newID) =
        .error err := by
        simp only [call, hcall, Except.map]
      exact ⟨⟨err, herr⟩, by simp only [step, herr]⟩
    | ok x =>
      exfalso
      rcases hbad with ⟨u, hu, u', hu', ⟨e, he, hkey⟩, hnew⟩ | ⟨hsha, hleg, u, hu, e, he,
        hkey, hcarries⟩
      · rcases append_keys hr hvalid hcall with hall | hall
        · exact hall u hu e ((hlog _ e).2 he) hkey
        · obtain ⟨f, hf, hkey', -⟩ := hall u' hu'
          exact hnew ⟨f, (hlog _ f).1 hf, hkey'⟩
      · rcases append_keys hr hvalid hcall with hall | hall
        · exact hall u hu e ((hlog _ e).2 he) hkey
        · obtain ⟨f, hf, hkey', hsame⟩ := hall u hu
          rw [hr.key_unique hvalid ((hlog _ e).2 he) hf (hkey.trans hkey'.symm)] at hcarries
          exact hcarries (hsame hsha hleg)

def timedRequest (payload : String) (occurredAt : Time) : AppendRequest :=
  ⟨bytesOf "s", 0, [{ sampleEvent (bytesOf "x") (bytesOf "k") (bytesOf payload) with occurredAt }],
    [], none, none⟩

/-- What is hashed for the digest of a request. -/
def identityText (r : AppendRequest) : Bytes :=
  ((validateEvents r.streamID (bytesOf "t") (bytesOf "w") 0 [] r.events).toOption.bind fun events =>
    (Encoding.marshal (object (identityFields r events))).toOption).getD []

/-- A hash without collisions that is short on two texts. -/
def quickHash : Equiv.Perm Bytes :=
  (Equiv.swap (hashedText (committed (.ascii id) "x" "k" firstPlace)) [1]).trans
    (Equiv.swap (identityText (timedRequest "1" epoch)) [2])

def quickPlatform : Platform := .ascii quickHash

/-- The key of an event is refused to another payload. -/
theorem other_payload_refused :
    let db := Runs.exec (step .sqlite quickPlatform) .empty [sampleAppend (timedRequest "1" epoch)]
    (∃ err, call .sqlite quickPlatform db (sampleAppend (timedRequest "2" epoch)) = .error err) ∧
      step .sqlite quickPlatform db (sampleAppend (timedRequest "2" epoch)) = db := by
  have hlog : (returned .sqlite quickPlatform .empty [sampleAppend (timedRequest "1" epoch)]
      (bytesOf "s")).map (fun e => (e.idempotencyKey, e.payload)) =
        [(bytesOf "k", bytesOf "1")] := by
    decide +kernel
  obtain ⟨e, he, hfields⟩ := List.mem_map.1 (hlog ▸ List.mem_singleton_self _)
  obtain ⟨hkey, hpayload⟩ := Prod.mk.inj hfields
  refine ((append_idempotent .sqlite quickPlatform [sampleAppend (timedRequest "1" epoch)]).2
    (by decide +kernel)).1 (timedRequest "2" epoch) _ _ _
    (.inr ⟨quickHash.injective, by decide +kernel, _, List.mem_singleton_self _, e, he, hkey, ?_⟩)
  rintro ⟨hcanonical, -⟩
  rw [hpayload] at hcanonical
  revert hcanonical
  decide +kernel

/-- The key is granted to an event a nanosecond later whose payload is written in another way. -/
theorem other_spelling_accepted :
    let db := step .sqlite quickPlatform .empty (sampleAppend (timedRequest "1" epoch))
    Function.Injective quickPlatform.sha256 ∧
      (respond .sqlite quickPlatform .empty (sampleAppend (timedRequest "1" epoch))).isOk = true ∧
      timedRequest "1.0" (epoch + 1) ≠ timedRequest "1" epoch ∧
      respond .sqlite quickPlatform db (sampleAppend (timedRequest "1.0" (epoch + 1))) =
        respond .sqlite quickPlatform .empty (sampleAppend (timedRequest "1" epoch)) :=
  ⟨quickHash.injective, by decide +kernel⟩

end Adro.EventStore
