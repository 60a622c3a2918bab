import Adro.Events.Bus
import Adro.Lib.Runs
import Mathlib.Data.List.Chain
import Mathlib.Data.List.TakeWhile

/-!
# Sequence numbers

The next number is one above the largest that is retained. So numbers grow as
long as no pruning empties the history; what is retained then is always a
history that validation accepts.
-/

namespace Adro.Events

open Adro.Go Adro.Runs

variable {P : Platform} {events kept : List Envelope} {e : Envelope} {chain : Bool}
  {previous : Option String} {out : List Envelope} {b : Bus} {now : Time} {file : Option File}
  {f : File} {event : Envelope} {newID : String}

structure Envelope.Sound (P : Platform) (e : Envelope) : Prop where
  named : blank e.eventID = false
  schema : e.schemaVersion = 1
  payload : e.payloadHash = P.payloadHash e.payload
  traced : e.traced P = true
  hash : e.envelopeHash = Events.envelopeHash P e

structure Valid (P : Platform) (events : List Envelope) : Prop where
  sound : ∀ e ∈ events, e.Sound P
  ids : (events.map (·.eventID)).Nodup
  linked : events.IsChain fun e e' => e'.sequence = e.sequence + 1 ∧
    e'.previousHash = e.envelopeHash
  positive : ∀ e ∈ events, 1 ≤ e.sequence

theorem Envelope.Sound.filled (h : e.Sound P) : e.filled P = e := by
  have hsealed : e.sealed P = e := by rw [Envelope.sealed, ← h.hash]
  simp [Envelope.filled, h.schema, hsealed]

theorem Valid.part (h : Valid P events) (hs : kept <:+: events) : Valid P kept where
  sound e he := h.sound e (hs.subset he)
  ids := h.ids.sublist (hs.sublist.map _)
  linked := h.linked.infix hs
  positive e he := h.positive e (hs.subset he)

theorem Valid.suffix (h : Valid P events) (hs : kept <:+ events) : Valid P kept := h.part hs.isInfix

theorem validateFrom_valid (h : Valid P events) (hhead : ∀ e, events.head? = some e →
      e.sequence = expected ∧ previous.all (· == e.previousHash) = true)
    (hseen : ∀ e ∈ events, e.eventID ∉ seen) :
    validateFrom P chain expected previous seen events = .ok events := by
  induction events generalizing expected previous seen with
  | nil => rfl
  | cons e rest ih =>
    have hs := h.sound e List.mem_cons_self
    obtain ⟨hseq, hprev⟩ := hhead e rfl
    have hids := List.nodup_cons.mp h.ids
    have hrest : validateFrom P chain (expected + 1) (some e.envelopeHash)
      (e.eventID :: seen) rest =
        .ok rest := by
      refine ih (h.suffix (List.suffix_cons e rest)) (fun e' he' => ?_) fun e' he' hm => ?_
      · cases rest with
        | nil => cases he'
        | cons x rest =>
          obtain rfl : x = e' := by simpa using he'
          obtain ⟨hstep, hlink⟩ := (List.isChain_cons_cons.mp h.linked).1
          exact ⟨by omega, by simp [hlink]⟩
      · rcases List.mem_cons.mp hm with heq | hm
        · exact hids.1 (List.mem_map.mpr ⟨e', he', heq⟩)
        · exact hseen e' (List.mem_cons_of_mem _ he') hm
    have hfresh := hseen e List.mem_cons_self
    simp [validateFrom, hs.filled, hs.named, hs.schema, hs.traced, ← hs.payload, ← hs.hash, hprev,
      hseq, hfresh, hrest, ensure, bind, Except.bind]

theorem validate_valid (h : Valid P events) : validatePersistedEvents P events = .ok events := by
  have hnumbered : numbered events = events := by
    cases events with
    | nil => rfl
    | cons e rest =>
      have hpos := h.positive e List.mem_cons_self
      have hne : e.sequence ≠ 0 := by omega
      simp [numbered, hne]
  rw [validatePersistedEvents, hnumbered]
  refine validateFrom_valid h (fun e he => ⟨?_, rfl⟩) (by simp)
  have hpos := h.positive e (List.mem_of_mem_head? he)
  simp only [he, Option.map_some, Option.getD_some]
  omega

theorem validateFrom_ok (h : validateFrom P chain expected previous seen events = .ok out) :
    ∀ e ∈ events, blank e.eventID = false ∧ e.traced P = true := by
  induction events generalizing expected previous seen out with
  | nil => simp
  | cons e rest ih =>
    simp only [validateFrom, then_ok, ensure_ok] at h
    obtain ⟨-, hnamed, -, -, -, htraced, -, -, h⟩ := h
    obtain ⟨out', hrest, -⟩ := bind_ok.mp h
    exact List.forall_mem_cons.mpr ⟨⟨by simpa using hnamed, htraced⟩, ih hrest⟩

/-- An accepted history that is numbered names its events and their traces. -/
theorem validate_ok (h : validatePersistedEvents P events = .ok out)
    (hn : ∃ e ∈ events, e.sequence ≠ 0) :
    ∀ e ∈ events, blank e.eventID = false ∧ e.traced P = true := by
  have hnumbered : numbered events = events := by
    obtain ⟨e, he, hne⟩ := hn
    have hall : events.all (·.sequence == 0) = false := by
      rw [List.all_eq_false]
      exact ⟨e, he, by simpa using hne⟩
    simp [numbered, hall]
  rw [validatePersistedEvents, hnumbered] at h
  exact validateFrom_ok h

theorem maxSequence_append : maxSequence (events ++ [e]) = max (maxSequence events) e.sequence := by
  simp [maxSequence]

theorem Valid.maxSequence_last (h : Valid P events) (hl : events.getLast? = some l) :
    maxSequence events = l.sequence := by
  induction events using List.reverseRecOn generalizing l with
  | nil => cases hl
  | append_singleton events e ih =>
    obtain rfl : e = l := by simpa using hl
    have hpos := h.positive e (by simp)
    rw [maxSequence_append]
    cases hlast : events.getLast? with
    | none =>
      rw [List.getLast?_eq_none_iff.mp hlast]
      simp only [maxSequence, List.foldl_nil]
      omega
    | some l' =>
      have hmax := ih (h.part (List.prefix_append events [e]).isInfix) hlast
      have := ((List.isChain_append.mp h.linked).2.2 l' (by simp [hlast]) e (by simp)).1
      omega

theorem Valid.maxSequence_nonneg (h : Valid P events) : 0 ≤ maxSequence events := by
  cases hl : events.getLast? with
  | none =>
    rw [List.getLast?_eq_none_iff.mp hl]
    exact le_refl _
  | some l =>
    have := h.positive l (List.mem_of_getLast? hl)
    rw [h.maxSequence_last hl]
    omega

theorem Valid.concat (h : Valid P events) (hs : e.Sound P)
    (hid : ∀ x ∈ events, x.eventID ≠ e.eventID)
    (hseq : e.sequence = maxSequence events + 1)
    (hprev : ∀ l, events.getLast? = some l → e.previousHash = l.envelopeHash) :
    Valid P (events ++ [e]) where
  sound := by simpa [or_imp, forall_and] using ⟨h.sound, hs⟩
  ids := by
    rw [List.map_append, List.nodup_append]
    refine ⟨h.ids, by simp, fun a ha b hb => ?_⟩
    obtain ⟨x, hx, rfl⟩ := List.mem_map.mp ha
    obtain rfl : b = e.eventID := by simpa using hb
    exact hid x hx
  linked := by
    refine List.isChain_append.mpr ⟨h.linked, List.isChain_singleton _, fun l hl y hy => ?_⟩
    obtain rfl : e = y := by simpa using hy
    rw [hseq, h.maxSequence_last hl]
    exact ⟨rfl, hprev l hl⟩
  positive x hx := by
    rcases List.mem_append.mp hx with hx | hx
    · exact h.positive x hx
    · obtain rfl := List.mem_singleton.mp hx
      have := h.maxSequence_nonneg
      omega

/-- A bus with its file, the numbers given to the events published so far, the
latest first, and whether the file was once refused when it was opened again. -/
structure Node where
  bus : Bus
  file : Option File := none
  given : List Int := []
  refused : Bool := false

inductive Call
  | publish (event : Envelope) (newID : String) (now : Time)
  | setRetention (policy : RetentionPolicy) (now : Time)
  | prune (now clock : Time)
  | reopen

namespace Node

variable (P : Platform) (n : Node)

def step : Call → Node
  | .publish event newID now =>
    match n.bus.publish P n.file event newID now .none with
    | (bus, file, .ok (some e)) =>
      { n with bus := bus, file := file, given := e.sequence :: n.given }
    | (bus, file, _) => { n with bus := bus, file := file }
  | .setRetention policy now =>
    match n.bus.setRetention P n.file policy now with
    | (bus, file, _) => { n with bus := bus, file := file }
  | .prune now clock =>
    match n.bus.prune P n.file now clock with
    | (bus, file, _) => { n with bus := bus, file := file }
  | .reopen =>
    if n.bus.persistent then
      match Bus.opened P n.file with
      | .ok bus => { n with bus := bus }
      | .error _ => { n with refused := true }
    else n

def young (policy : RetentionPolicy) (now : Time) (events : List Envelope) : Bool :=
  policy.maxAge ≤ 0 || events.any fun e => !Bus.aged policy now e

/-- No pruning empties the history; and a bus without a file, which validates
nothing, is given events that validation would accept. -/
def keeps : Call → Bool
  | .publish event newID now =>
    young n.bus.retention now (n.bus.events ++ [event]) &&
      (n.bus.persistent ||
        (!blank (if event.eventID == "" then newID else event.eventID) && event.traced P))
  | .setRetention policy now => n.bus.events.isEmpty || young policy now n.bus.events
  | .prune now clock =>
    n.bus.events.isEmpty || young n.bus.retention (if now.isZero then clock else now) n.bus.events
  | .reopen => true

end Node

/-- What every call keeps: the history is valid, the file holds it and is not
refused, and its last event has the last number given. -/
structure Node.Inv (P : Platform) (n : Node) : Prop where
  valid : Valid P n.bus.events
  stored : n.bus.persistent = true →
    (∀ e ∈ n.bus.events, P.encodes e.occurredAt = true) ∧
      match n.file with
      | none => n.bus.events = []
      | some f => f.revision = n.bus.revision ∧ f.events = n.bus.events
  sorted : n.given.Pairwise (· > ·)
  last : ∀ g ∈ n.given, ∃ l, n.bus.events.getLast? = some l ∧ g ≤ l.sequence
  accepted : n.refused = false

theorem pruneLocked_suffix : (b.pruneLocked now).events <:+ b.events := by
  unfold Bus.pruneLocked
  dsimp only
  split
  · exact (List.drop_suffix _ _).trans (by split <;> simp [List.dropWhile_suffix])
  · split <;> simp [List.dropWhile_suffix]

theorem pruneLocked_ne_nil (h : (b.events.isEmpty || Node.young b.retention now b.events) = true) :
    b.events = [] ∨ (b.pruneLocked now).events ≠ [] := by
  refine or_iff_not_imp_left.mpr fun hne => ?_
  have h : Node.young b.retention now b.events = true := by simpa [hne] using h
  have hkept : (if b.retention.maxAge > 0 then b.events.dropWhile (Bus.aged b.retention now)
      else b.events) ≠ [] := by
    split
    · rename_i hage
      rw [Ne, List.dropWhile_eq_nil_iff]
      simp only [Node.young, Bool.or_eq_true, decide_eq_true_eq, List.any_eq_true] at h
      obtain ⟨e, he, hyoung⟩ := h.resolve_left (not_le.mpr hage)
      exact fun hall => by simp [hall e he] at hyoung
    · exact hne
  unfold Bus.pruneLocked
  dsimp only
  split
  · rw [Ne, List.drop_eq_nil_iff]
    have := List.length_pos_iff.mpr hkept
    omega
  · exact hkept

theorem suffix_getLast? (h : s <:+ l) (hne : s ≠ []) :
    s.getLast? = l.getLast? := by
  obtain ⟨t, rfl⟩ := h
  rw [List.getLast?_append, List.getLast?_eq_some_getLast hne]
  rfl

theorem absorb_same (hfile : ∀ f, file = some f → f.revision = b.revision) :
    b.absorb P file = .ok b := by
  cases file with
  | none => rfl
  | some f => simp [Bus.absorb, hfile f rfl]

/-- Into such a file a write of a valid history that the encoder takes succeeds. -/
theorem persistLocked_valid (h : Valid P b.events)
    (hfile : ∀ f, file = some f → f.revision = b.revision) (hp : b.persistent = true)
    (henc : ∀ e ∈ b.events, P.encodes e.occurredAt = true) :
    b.persistLocked P file .none =
      ({ b with revision := b.revision + 1 }, some b.contents, .ok ()) := by
  have hall : (b.events.all fun e => P.encodes e.occurredAt) = true := List.all_eq_true.mpr henc
  have hnot : (!b.persistent) = false := by rw [hp]; rfl
  have hread : (Fault.none == .beforeMerge) = false := rfl
  simp only [Bus.persistLocked, hnot, hread, absorb_same hfile, validate_valid h, hall,
    Bool.not_true,
    Bool.false_eq_true, if_false]

theorem opened_valid (h : Valid P f.events) :
    Bus.opened P (some f) =
      .ok ⟨true, f.events, f.revision, f.acks, f.deliveryAttempts, f.retention⟩ := by
  have hsame : (f.events.map fun e => { e with payloadHash := P.payloadHash e.payload }) =
    f.events := by
    refine (List.map_congr_left fun e he => ?_).trans (List.map_id _)
    rw [← (h.sound e he).payload]
    rfl
  simp only [Bus.opened, validate_valid h]
  change Except.ok _ = _
  rw [hsame]

/-- Into such a file a write fails without a trace, or the history was accepted. -/
theorem persistLocked_cases (hfile : ∀ f, file = some f → f.revision = b.revision)
    (hp : b.persistent = true) :
    (∃ b' err, b.persistLocked P file fault = (b', file, .error err) ∧ b'.persistent = true ∧
        b'.revision = b.revision ∧ b'.retention = b.retention) ∨
      ∃ out, validatePersistedEvents P b.events = .ok out ∧
      (out.all fun e => P.encodes e.occurredAt) = true := by
  have habsorb : b.absorb P file = .ok b := absorb_same hfile
  have hnot : (!b.persistent) = false := by rw [hp]; rfl
  by_cases hfault : (fault == .beforeMerge) = true
  · refine .inl ⟨b, "read event state", ?_, hp, rfl, rfl⟩
    simp only [Bus.persistLocked, hnot, hfault, Bool.false_eq_true, if_false, if_true]
  cases hval : validatePersistedEvents P b.events with
  | error err =>
    refine .inl ⟨b, err, ?_, hp, rfl, rfl⟩
    simp only [Bus.persistLocked, hnot, hfault, habsorb, hval, Bool.false_eq_true, if_false]
  | ok out =>
    cases henc : out.all fun e => P.encodes e.occurredAt with
    | false =>
      refine .inl ⟨{ b with events := out }, "event state is not JSON encodable", ?_, hp, rfl, rfl⟩
      simp only [Bus.persistLocked, hnot, hfault, habsorb, hval, henc, Bool.false_eq_true,
        Bool.not_false,
        if_false, if_true]
    | true => exact .inr ⟨out, rfl, henc⟩

/-- What `Publish` would append; its id and trace context are checked by the write alone. -/
structure Admitted (P : Platform) (b : Bus) (event : Envelope) (newID : String) (e : Envelope) :
    Prop where
  eventID : e.eventID = if event.eventID == "" then newID else event.eventID
  occurredAt : e.occurredAt = event.occurredAt
  traced : e.traced P = event.traced P
  sequence : e.sequence = maxSequence b.events + 1
  previous : ∀ l, b.events.getLast? = some l → e.previousHash = l.envelopeHash
  fresh : ∀ x ∈ b.events, x.eventID ≠ e.eventID
  provider : e.providerKey = event.providerKey
  newProvider : ∀ x ∈ b.events, e.providerKey.isSome = true → x.providerKey ≠ e.providerKey
  encodes : P.payloadHash e.payload ≠ ""
  sound : blank e.eventID = false → e.traced P = true → e.Sound P

theorem taken_some (h : b.taken P event newID = .ok (some e)) : Admitted P b event newID e := by
  simp only [Bus.taken, then_ok, ensure_ok, Except.ok.injEq] at h
  obtain ⟨hschema, hhash, -, -, h⟩ := h
  split at h
  · cases h
  · rename_i hknown
    obtain rfl := Option.some.inj h
    refine ⟨rfl, rfl, rfl, rfl, fun l hl => by simp [Envelope.placed, Envelope.sealed, hl],
      fun x hx heq => hknown ?_, rfl, fun x hx hsome heq => hknown ?_, bne_iff_ne.mp hhash,
      fun hn ht => ⟨hn, beq_iff_eq.mp hschema, rfl, ht, rfl⟩⟩
    · have hsame : x.eventID = (event.prepared P newID).eventID := heq
      exact List.any_eq_true.mpr ⟨x, hx, by simp [hsame]⟩
    · have hsame : x.providerKey = (event.prepared P newID).providerKey := heq
      have hkey : (event.prepared P newID).providerKey.isSome = true := hsome
      exact List.any_eq_true.mpr ⟨x, hx, by simp [hsame, hkey]⟩

/-- A history that was accepted with the event in it can be continued by it. -/
theorem Admitted.accepted (h : Admitted P b event newID e) (hb : Valid P b.events)
    (hval : validatePersistedEvents P kept = .ok out) (he : e ∈ kept) :
    Valid P (b.events ++ [e]) := by
  have hne : e.sequence ≠ 0 := by
    have := hb.maxSequence_nonneg
    have := h.sequence
    omega
  obtain ⟨hnamed, htraced⟩ := validate_ok hval ⟨e, he, hne⟩ e he
  exact hb.concat (h.sound hnamed htraced) h.fresh h.sequence h.previous

namespace Node

variable {n : Node}

theorem Inv.revision (h : n.Inv P) (hp : n.bus.persistent = true) (hf : n.file = some f) :
    f.revision = n.bus.revision := by
  have := (h.stored hp).2
  rw [hf] at this
  exact this.1

theorem Inv.persist (h : n.Inv P) (hp : b.persistent = n.bus.persistent)
    (hrev : b.revision = n.bus.revision) (hs : b.events <:+ n.bus.events)
    (hne : n.bus.events = [] ∨ b.events ≠ []) :
    Node.Inv P { n with
      bus := (b.persistLocked P n.file .none).1, file :=
        (b.persistLocked P n.file .none).2.1 } := by
  have hvalid := h.valid.suffix hs
  have hlast (g : Int) (hg : g ∈ n.given) : ∃ l, b.events.getLast? = some l ∧ g ≤ l.sequence := by
    obtain ⟨l, hl, hle⟩ := h.last g hg
    rcases hne with hnil | hne
    · rw [hnil] at hl
      cases hl
    · exact ⟨l, (suffix_getLast? hs hne).trans hl, hle⟩
  cases hpers : b.persistent with
  | false =>
    simp only [Bus.persistLocked, hpers]
    exact ⟨hvalid, fun hp => absurd hp (by simp [hpers]), h.sorted, hlast, h.accepted⟩
  | true =>
    have henc (e) (he : e ∈ b.events) : P.encodes e.occurredAt = true :=
      (h.stored (hp ▸ hpers)).1 e (hs.subset he)
    rw [persistLocked_valid hvalid
      (fun f hf => (h.revision (hp ▸ hpers) hf).trans hrev.symm) hpers henc]
    exact ⟨hvalid, fun _ => ⟨henc, rfl, rfl⟩, h.sorted, hlast, h.accepted⟩

theorem Inv.reopen (h : n.Inv P) : (n.step P .reopen).Inv P := by
  unfold Node.step
  dsimp only
  split
  · rename_i hp
    have hstored := h.stored hp
    cases hf : n.file with
    | none =>
      rw [hf] at hstored
      have hnone : n.bus.events = [] := hstored.2
      rw [show Bus.opened P none = .ok { persistent := true } from rfl]
      exact ⟨hnone ▸ h.valid, fun _ => ⟨nofun, by simp⟩, h.sorted, hnone ▸ h.last, h.accepted⟩
    | some f =>
      rw [hf] at hstored
      obtain ⟨henc, hrev, hevents⟩ := hstored
      rw [opened_valid (hevents ▸ h.valid)]
      rw [← hevents] at henc
      refine ⟨hevents ▸ h.valid, fun _ => ⟨henc, ?_⟩, h.sorted, hevents ▸ h.last, h.accepted⟩
      simp
  · exact h

theorem find?_nodup (hids : (l.map (·.eventID)).Nodup) (hs : kept <:+ l)
    (he : e ∈ l) : (kept.find? (·.eventID == e.eventID)).getD e = e := by
  cases hfind : kept.find? (·.eventID == e.eventID) with
  | none => rfl
  | some x =>
    have hid : x.eventID = e.eventID := by simpa using List.find?_some hfind
    exact List.inj_on_of_nodup_map hids (hs.subset (List.mem_of_find?_eq_some hfind)) he hid

theorem Inv.publish (h : n.Inv P) (hk : n.keeps P (.publish event newID now) = true) :
    (n.step P (.publish event newID now)).Inv P := by
  simp only [Node.keeps, Bool.and_eq_true, Bool.or_eq_true, Bool.not_eq_true'] at hk
  obtain ⟨hyoung, hgood⟩ := hk
  cases htaken : n.bus.taken P event newID with
  | error err =>
    simp only [Node.step, Bus.publish, htaken]
    exact h
  | ok found =>
    cases found with
    | none =>
      simp only [Node.step, Bus.publish, htaken]
      exact h
    | some e =>
      have hadm := taken_some htaken
      simp only [Node.step, Bus.publish, htaken]
      generalize hb : Bus.pruneLocked { n.bus with events := n.bus.events ++ [e] } now = b
      have hsuffix : b.events <:+ n.bus.events ++ [e] := hb ▸ pruneLocked_suffix
      have hpers : b.persistent = n.bus.persistent := hb ▸ rfl
      have hrev : b.revision = n.bus.revision := hb ▸ rfl
      have hne : b.events ≠ [] := by
        rw [← hb]
        refine (pruneLocked_ne_nil ?_).resolve_left (by simp)
        simpa [Node.young, Bus.aged, hadm.occurredAt] using hyoung
      have hlast : b.events.getLast? = some e := by
        rw [suffix_getLast? hsuffix hne]
        simp
      -- The number is above all those given so far.
      have habove (g : Int) (hg : g ∈ n.given) : g < e.sequence := by
        obtain ⟨l, hl, hle⟩ := h.last g hg
        rw [hadm.sequence, h.valid.maxSequence_last hl]
        omega
      have hnew (g : Int) (hg : g ∈ e.sequence :: n.given) :
          ∃ l, b.events.getLast? = some l ∧ g ≤ l.sequence := by
        refine ⟨e, hlast, ?_⟩
        rcases List.mem_cons.mp hg with rfl | hg
        · exact le_refl _
        · exact (habove g hg).le
      have hsorted : (e.sequence :: n.given).Pairwise (· > ·) :=
        List.pairwise_cons.mpr ⟨habove, h.sorted⟩
      have hmem : e ∈ n.bus.events ++ [e] := List.mem_append_right _ (List.mem_singleton_self e)
      cases hp : n.bus.persistent with
      | false =>
        have hg := hgood.resolve_left (by simp [hp])
        have hvalid := h.valid.concat (hadm.sound (hadm.eventID ▸ hg.1) (hadm.traced.trans hg.2))
          hadm.fresh hadm.sequence hadm.previous
        have hnot : (!b.persistent) = true := by simp [hpers, hp]
        simp only [Bus.persistLocked, hnot, if_true, find?_nodup hvalid.ids hsuffix hmem]
        exact ⟨hvalid.suffix hsuffix, fun hb => absurd (hpers.symm.trans hb) (by simp [hp]),
          hsorted, hnew, h.accepted⟩
      | true =>
        have hfile (f) (hf : n.file = some f) :
          f.revision = b.revision := (h.revision hp hf).trans hrev.symm
        rcases persistLocked_cases hfile (hpers.trans hp) with ⟨b', err, hw, -, hr,
          -⟩ | ⟨out, hval, henc⟩
        · rw [hw]
          refine ⟨h.valid, fun _ => ⟨(h.stored hp).1, ?_⟩, h.sorted, h.last, h.accepted⟩
          have hstored := (h.stored hp).2
          cases hf : n.file with
          | none => rwa [hf] at hstored
          | some f => exact ⟨(hfile f hf).trans hr.symm, by rw [hf] at hstored; exact hstored.2⟩
        · have hvalid := hadm.accepted h.valid hval (List.mem_of_getLast? hlast)
          have hkept := hvalid.suffix hsuffix
          obtain rfl : b.events = out := by
            rw [validate_valid hkept] at hval
            exact Except.ok.inj hval
          have hall := List.all_eq_true.mp henc
          rw [persistLocked_valid hkept hfile (hpers.trans hp) hall]
          simp only [find?_nodup hvalid.ids hsuffix hmem]
          exact ⟨hkept, fun _ => ⟨hall, rfl, rfl⟩, hsorted, hnew, h.accepted⟩

theorem Inv.step (h : n.Inv P) (c : Call) (hk : n.keeps P c = true) : (n.step P c).Inv P := by
  cases c with
  | publish event newID now => exact h.publish hk
  | reopen => exact h.reopen
  | setRetention policy now =>
    simp only [Node.step, Bus.setRetention]
    split
    · exact h
    · exact h.persist rfl rfl pruneLocked_suffix
        (pruneLocked_ne_nil (b := { n.bus with retention := policy }) hk)
  | prune now clock =>
    exact h.persist rfl rfl pruneLocked_suffix (pruneLocked_ne_nil (b := n.bus) hk)

end Node

/-- A bus without a file, on a file that is not there yet, or on one that a bus has written;
the numbers in it count as given. -/
inductive Node.Starts (P : Platform) : Node → Prop
  | memory : Starts P { bus := { persistent := false } }
  | new : Starts P { bus := { persistent := true } }
  | written (f : File) (bus : Bus) (valid : Valid P f.events)
    (encoded : ∀ e ∈ f.events, P.encodes e.occurredAt = true)
    (opened : Bus.opened P (some f) = .ok bus) :
    Starts P { bus := bus, file := some f, given := (f.events.map (·.sequence)).reverse }

theorem Valid.increasing (h : Valid P events) : (events.map (·.sequence)).Pairwise (· < ·) := by
  rw [List.pairwise_map, ← List.isChain_iff_pairwise]
  exact h.linked.imp fun _ _ hstep => by omega

theorem Node.Starts.inv (h : Node.Starts P n) : n.Inv P := by
  have hempty (persistent : Bool) : Node.Inv P { bus := { persistent := persistent } } :=
    ⟨⟨by simp, by simp, List.isChain_nil, by simp⟩, fun _ => ⟨by simp, rfl⟩, List.Pairwise.nil,
      by simp, rfl⟩
  cases h with
  | memory => exact hempty false
  | new => exact hempty true
  | written f bus valid encoded opened =>
    rw [opened_valid valid] at opened
    cases opened
    refine ⟨valid, fun _ => ⟨encoded, rfl, rfl⟩, ?_, fun g hg => ?_, rfl⟩
    · exact List.pairwise_reverse.mpr valid.increasing
    · have hg : g ∈ f.events.map (·.sequence) := List.mem_reverse.mp hg
      obtain ⟨e, he, rfl⟩ := List.mem_map.mp hg
      cases hlast : f.events.getLast? with
      | none => simp [List.getLast?_eq_none_iff.mp hlast] at he
      | some l =>
        obtain ⟨front, hfront⟩ := List.getLast?_eq_some_iff.mp hlast
        have hpair := valid.increasing
        rw [hfront, List.map_append, List.pairwise_append] at hpair
        rw [hfront] at he
        rcases List.mem_append.mp he with he | he
        · exact ⟨l, rfl, (hpair.2.2 _ (List.mem_map_of_mem he) _ (by simp)).le⟩
        · exact ⟨l, rfl, by rw [List.mem_singleton.mp he]⟩

/-- A platform on which every event can be written and every trace parses. -/
def plain : Platform := ⟨fun _ => "payload", fun e => e.eventID, fun _ => true, id, fun _ _ => true⟩

end Adro.Events
