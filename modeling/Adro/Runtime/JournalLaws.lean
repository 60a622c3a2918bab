import Adro.Runtime.Loop
import Adro.Lib.Replica

/-!
# Laws of the journal

A draft puts new events behind those the journal holds: each made for its place,
with an idempotency key that none before it has, and under a lease the journal
knows of. Brought up to a file that a peer has advanced, the new events stand
behind the peer's with the same contents.
-/

namespace Adro.Runtime

open Adro.Go Adro.Replica

variable {P : Platform} {j : Journal} {file : Option State} {e : Event} {n : Nat}
  {previous : String} {base events new log : List Event} {input : Input} {inputs : List Input}
  {last : Option Event} {st : State} {d' : Draft} {j' : Journal}

/-- The checks of an event that do not depend on its place. -/
def Event.formed (P : Platform) (e : Event) : Bool :=
  e.schemaVersion == Runtime.schemaVersion && e.scope.valid && e.eventType.text != "" &&
    e.aggregateType != "" && e.aggregateID != "" && some e.payloadHash == P.payloadDigest e.payload

theorem Event.sound_iff : e.sound P n previous = true ↔
    e.eventID ≠ "" ∧ e.formed P = true ∧ e.sequence = n ∧ e.previousHash = previous ∧
      e.envelopeHash = P.envelopeDigest { e with envelopeHash := "" } := by
  simp only [Event.sound, Event.formed, Bool.and_eq_true, bne_iff_ne, beq_iff_eq]
  constructor
  · rintro ⟨⟨⟨⟨⟨⟨⟨⟨⟨hid, hschema⟩, hseq⟩, hscope⟩, htype⟩, hkind⟩, hagg⟩, hprev⟩, hpay⟩, hhash⟩
    exact ⟨hid, ⟨⟨⟨⟨⟨hschema, hscope⟩, htype⟩, hkind⟩, hagg⟩, hpay⟩, hseq, hprev, hhash⟩
  · rintro ⟨hid, ⟨⟨⟨⟨⟨hschema, hscope⟩, htype⟩, hkind⟩, hagg⟩, hpay⟩, hseq, hprev, hhash⟩
    exact ⟨⟨⟨⟨⟨⟨⟨⟨⟨hid, hschema⟩, hseq⟩, hscope⟩, htype⟩, hkind⟩, hagg⟩, hprev⟩, hpay⟩, hhash⟩

def Linked (P : Platform) : Nat → String → List Event → Prop
  | _, _, [] => True
  | n, previous, e :: es => e.sound P n previous = true ∧ Linked P (n + 1) e.envelopeHash es

def lastHash (previous : String) (events : List Event) : String :=
  (events.getLast?.map (·.envelopeHash)).getD previous

theorem linked_append : Linked P n previous (base ++ new) ↔
    Linked P n previous base ∧ Linked P (n + base.length) (lastHash previous base) new := by
  induction base generalizing n previous with
  | nil => simp [Linked, lastHash]
  | cons e base ih =>
    have hlast : lastHash previous (e :: base) = lastHash e.envelopeHash base := by
      cases base with
      | nil => rfl
      | cons x rest => simp [lastHash, List.getLast?_eq_some_getLast]
    have hlen : n + 1 + base.length = n + (e :: base).length := by simp; omega
    simp only [List.cons_append, Linked, ih, hlast, hlen, and_assoc]

theorem validateFrom_ok : validateFrom P n previous seen events = .ok () ↔
    Linked P n previous events ∧ (events.map (·.eventID)).Nodup ∧ ∀ e ∈ events,
    e.eventID ∉ seen := by
  induction events generalizing n previous seen with
  | nil => simp [validateFrom, Linked]
  | cons e es ih =>
    have hcontains : (!seen.contains e.eventID) = true ↔ e.eventID ∉ seen := by simp
    simp only [validateFrom, then_ok, ensure_ok, ih, List.map_cons, List.nodup_cons, hcontains,
      List.mem_map, not_exists, not_and]
    constructor
    · rintro ⟨hs, hseen, hl, hnd, hrest⟩
      refine ⟨⟨hs, hl⟩, ⟨fun x hx heq => hrest x hx (heq ▸ List.mem_cons_self), hnd⟩,
        List.forall_mem_cons.mpr ⟨hseen, fun x hx hm => hrest x hx (List.mem_cons_of_mem _ hm)⟩⟩
    · rintro ⟨⟨hs, hl⟩, ⟨hne, hnd⟩, hall⟩
      obtain ⟨hseen, hrest⟩ := List.forall_mem_cons.mp hall
      refine ⟨hs, hseen, hl, hnd, fun x hx hm => ?_⟩
      rcases List.mem_cons.mp hm with heq | hm
      · exact hne x hx heq
      · exact hrest x hx hm

theorem validateEvents_ok : validateEvents P events = .ok () ↔
    Linked P 1 "" events ∧ (events.map (·.eventID)).Nodup := by
  rw [validateEvents, validateFrom_ok]
  simp

def Event.clashes (x e : Event) : Bool :=
  e.idempotencyKey != "" && x.idempotencyKey == e.idempotencyKey && x.scope == e.scope

structure Event.Fresh (P : Platform) (j : Journal) (events : List Event) (e : Event) : Prop where
  formed : e.formed P = true
  sound : e.eventID ≠ "" → e.sound P (events.length + 1) (lastHash "" events) = true
  unclashed : ∀ x ∈ events, x.clashes e = false
  leased : 0 < e.fencingToken → ∃ now, j.leased e.scope e.writerID e.fencingToken now = true

theorem prepareLocked_cases (h : j.prepareLocked P events input stamp = .ok e) :
    e ∈ events ∨ e.Fresh P j events := by
  simp only [Journal.prepareLocked] at h
  generalize input.completed = input at h
  obtain ⟨⟨⟩, hcheck, h⟩ := bind_ok.mp h
  simp only [bind_ok] at h
  obtain ⟨hash, hhash, h⟩ := h
  have hdigest : P.payloadDigest input.payload = some hash := by
    unfold encoded at hhash
    split at hhash
    · rename_i found hfound
      rw [hfound, Except.ok.inj hhash]
    · cases hhash
  simp only [Input.check, then_ok, ensure_ok] at hcheck
  split at h
  · rename_i prior hfind
    simp only [then_ok, Except.ok.injEq] at h
    exact .inl (h.2 ▸ List.mem_of_find?_eq_some hfind)
  · rename_i hfind
    simp only [then_ok, ensure_ok, Except.ok.injEq] at h
    obtain ⟨hlease, rfl⟩ := h
    have hformed : (input.event P events hash stamp).formed P = true := by
      simp [Event.formed, Input.event, Event.sealed, hdigest, hcheck]
    refine .inr ⟨hformed, fun hid => ?_, fun x hx => ?_, fun hpos => ⟨stamp.checkedAt, ?_⟩⟩
    · exact Event.sound_iff.mpr ⟨hid, hformed, by simp [Input.event, Event.sealed],
        by simp [Input.event, Event.sealed, lastHash], rfl⟩
    · have hno := List.find?_eq_none.mp hfind x hx
      simpa [Event.hasKey, Event.clashes, Input.event, Event.sealed] using hno
    · simp only [Bool.or_eq_true, decide_eq_true_eq] at hlease
      exact hlease.resolve_left (not_le.mpr hpos)

inductive Drafted (P : Platform) (j : Journal) (base : List Event) : List Event → Prop
  | nil : Drafted P j base []
  | push {new : List Event} {e : Event} :
    Drafted P j base new → e.Fresh P j (base ++ new) → (∀ x ∈ new, x.eventID ≠ e.eventID) →
      Drafted P j base (new ++ [e])

theorem draftBatch_drafted (hd : Drafted P j base new)
    (h : j.draftBatch P stamps n (base ++ new) last inputs = .ok (events, last')) :
    ∃ new, events = base ++ new ∧ Drafted P j base new := by
  induction inputs generalizing n new last with
  | nil =>
    simp only [Journal.draftBatch, Except.ok.injEq, Prod.mk.injEq] at h
    exact ⟨new, h.1.symm, hd⟩
  | cons input inputs ih =>
    simp only [Journal.draftBatch, bind_ok] at h
    obtain ⟨e, he, h⟩ := h
    split at h
    · exact ih hd h
    · rename_i hdup
      have hids (x) (hx : x ∈ base ++ new) : x.eventID ≠ e.eventID := fun heq =>
        hdup (List.any_eq_true.mpr ⟨x, hx, beq_iff_eq.mpr heq⟩)
      -- An earlier event would have been found by its id.
      rcases prepareLocked_cases he with hmem | hfresh
      · exact absurd rfl (hids e hmem)
      · rw [List.append_assoc] at h
        exact ih (hd.push hfresh fun x hx => hids x (List.mem_append_right _ hx)) h

structure New (P : Platform) (j : Journal) (base new : List Event) : Prop where
  formed : ∀ e ∈ new, e.formed P = true
  linked : (∀ e ∈ new, e.eventID ≠ "") → Linked P (base.length + 1) (lastHash "" base) new
  ids : (new.map (·.eventID)).Nodup
  apart : ∀ x ∈ base, ∀ e ∈ new, x.clashes e = false
  keys : new.Pairwise fun x e => x.clashes e = false
  leased : ∀ e ∈ new, 0 < e.fencingToken →
    ∃ now, j.leased e.scope e.writerID e.fencingToken now = true

theorem Drafted.made (h : Drafted P j base new) : New P j base new := by
  induction h with
  | nil => exact ⟨by simp, fun _ => trivial, by simp, by simp, List.Pairwise.nil, by simp⟩
  | @push new e _ hf hid ih =>
    refine ⟨?_, fun hids => ?_, ?_, fun x hx y hy => ?_, ?_, ?_⟩
    · simpa [or_imp, forall_and] using ⟨ih.formed, hf.formed⟩
    · have hold := ih.linked fun x hx => hids x (List.mem_append_left _ hx)
      refine linked_append.mpr ⟨hold, ?_, trivial⟩
      have hlast : lastHash (lastHash "" base) new = lastHash "" (base ++ new) := by
        cases hl : new.getLast? <;> simp [lastHash, hl]
      have hlen : base.length + 1 + new.length = (base ++ new).length + 1 := by simp; omega
      rw [hlast, hlen]
      exact hf.sound (hids e (by simp))
    · rw [List.map_append, List.nodup_append]
      refine ⟨ih.ids, by simp, fun a ha b hb => ?_⟩
      obtain ⟨x, hx, rfl⟩ := List.mem_map.mp ha
      obtain rfl : b = e.eventID := by simpa using hb
      exact hid x hx
    · rcases List.mem_append.mp hy with hy | hy
      · exact ih.apart x hx y hy
      · exact List.mem_singleton.mp hy ▸ hf.unclashed x (List.mem_append_left _ hx)
    · refine List.pairwise_append.mpr ⟨ih.keys, List.pairwise_singleton _ _, fun x hx y hy => ?_⟩
      exact List.mem_singleton.mp hy ▸ hf.unclashed x (List.mem_append_right _ hx)
    · simpa [or_imp, forall_and] using ⟨ih.leased, hf.leased⟩

/-- What a request comes to on a journal, for requests of at most `n` new events. -/
inductive Drawn (P : Platform) (j : Journal) (stamps : Nat → Stamp) (n : Nat) : Reply ⊕ Draft → Prop
  | found (e : Event) (hm : e ∈ j.events) : Drawn P j stamps n (.inl (.event e))
  | batch (inputs : List Input) (events : List Event) (last : Option Event) (hn : inputs.length ≤ n)
      (h : j.draftBatch P stamps 0 j.events none inputs = .ok (events, last)) :
      Drawn P j stamps n (.inr ⟨.batch, events, j.leases, j.effects, last.elim .done .event⟩)
  | intent (input : Input) (key : String) (e : Event) (hn : 0 < n)
      (h : j.prepareLocked P j.events input (stamps 0) = .ok e) :
      Drawn P j stamps n
        (.inr ⟨.intent, j.events ++ [e], j.leases, j.effects.insert key e.eventID, .event e⟩)
  | acquired (key : String) (lease : Lease) (hk : lease.key = key)
      (token : lease.fencingToken = i64 ((j.leases[key]?.map (·.fencingToken)).getD 0 + 1))
      (free : ∀ held, j.leases[key]? = some held →
        held.owner = lease.owner ∨ held.expiresAt ≤ lease.updatedAt) :
      Drawn P j stamps n
        (.inr ⟨.acquire, j.events, j.leases.insert key lease, j.effects, .lease lease⟩)
  | released (key : String) :
      Drawn P j stamps n (.inr ⟨.release, j.events, j.leases.erase key, j.effects, .done⟩)

def Request.size : Request → Nat
  | .append inputs => inputs.length
  | _ => 2

section

variable {stamps : Nat → Stamp} {d : Draft} {answer : Reply ⊕ Draft}

theorem appendBatchLocked_drawn (h : j.appendBatchLocked P stamps inputs = .ok answer)
    (hn : inputs.length ≤ n) : Drawn P j stamps n answer := by
  simp only [Journal.appendBatchLocked, bind_ok, Prod.exists, Except.ok.injEq] at h
  obtain ⟨events, last, hbatch, rfl⟩ := h
  exact .batch inputs events last hn hbatch

theorem find_drawn (hf : j.events.find? p = some e)
    (h : Except.ok (.inl (.event e)) = (.ok answer : Except Error (Reply ⊕ Draft))) :
    Drawn P j stamps n answer := by
  cases h
  exact .found e (List.mem_of_find?_eq_some hf)

theorem draft_drawn (h : j.draft P stamps req = .ok answer) :
    Drawn P j stamps req.size answer := by
  cases req with
  | append inputs => exact appendBatchLocked_drawn (then_ok.mp h).2 (Nat.le_refl _)
  | commitEffectIntent intent =>
    simp only [Journal.draft, Journal.commitEffectIntentLocked] at h
    obtain ⟨_, -, h⟩ := bind_ok.mp h
    obtain ⟨inputDigest, -, h⟩ := bind_ok.mp h
    split at h
    · simp only [bind_ok, Except.ok.injEq] at h
      obtain ⟨e, he, rfl⟩ := h
      exact .intent _ _ e Nat.zero_lt_two he
    · split at h
      · rename_i hfind
        exact find_drawn hfind (then_ok.mp h).2
      · cases h
  | prepareEffectDispatch effect => exact appendBatchLocked_drawn (then_ok.mp h).2 (Nat.le_succ 1)
  | markEffectDispatched effect =>
    have h := (then_ok.mp h).2
    dsimp only at h
    split at h
    · rename_i hfind
      exact find_drawn hfind h
    · exact appendBatchLocked_drawn h (Nat.le_succ 1)
  | markEffectOutcomeUnknown effect reason =>
      exact appendBatchLocked_drawn (then_ok.mp h).2 (Nat.le_succ 1)
  | completeToolEffect effect callID output =>
      exact appendBatchLocked_drawn (then_ok.mp h).2 (Nat.le_refl 2)
  | reconcileEffect effect callID decision output =>
    have h := (then_ok.mp (then_ok.mp h).2).2
    dsimp only at h
    split at h
    · split at h
      · rename_i hfind
        exact find_drawn hfind (then_ok.mp h).2
      · cases h
    · exact appendBatchLocked_drawn (then_ok.mp (then_ok.mp h).2).2 (Nat.le_refl 2)
  | acquireLease scope owner ttl now clock =>
    obtain ⟨hfree, h⟩ := then_ok.mp (then_ok.mp h).2
    cases h
    refine .acquired _ _ rfl rfl fun held hheld => ?_
    simp only [ensure_ok, hheld, Option.any_some, Bool.not_eq_true', Bool.and_eq_false_iff,
      decide_eq_false_iff_not, bne_eq_false_iff_eq, not_lt] at hfree
    exact hfree.symm
  | releaseLease scope owner token clock =>
    have h := (then_ok.mp h).2
    cases h
    exact .released scope.leaseKey

/-- The events of a draft are those of the journal and new ones behind them, or the
event an intent repeats, which the journal has without an entry for its effect. -/
structure Draft.Adds (P : Platform) (j : Journal) (d : Draft) (new : List Event) : Prop where
  events : d.events = j.events ++ new
  fresh : New P j j.events new ∨ ∃ e ∈ j.events, new = [e]
  release : d.kind = .release → new = []

theorem Drawn.adds (h : Drawn P j stamps n (.inr d)) : ∃ new, d.Adds P j new := by
  have hnone : New P j j.events [] := Drafted.nil.made
  cases h with
  | batch inputs events last hn h =>
    rw [← List.append_nil j.events] at h
    obtain ⟨new, hev, hnew⟩ := draftBatch_drafted .nil h
    exact ⟨new, hev, .inl hnew.made, nofun⟩
  | intent input key e hn h =>
    refine ⟨[e], rfl, (prepareLocked_cases h).symm.imp (fun hf => ?_) fun hm => ⟨e, hm, rfl⟩, nofun⟩
    rw [← List.append_nil j.events] at hf
    exact (Drafted.push .nil hf (by simp)).made
  | acquired key lease hk token free => exact ⟨[], by simp, .inl hnone, fun _ => rfl⟩
  | released key => exact ⟨[], by simp, .inl hnone, fun _ => rfl⟩

/-- The ids for `n` events are new to a history and differ from each other. -/
def unused (events : List Event) (stamps : Nat → Stamp) (n : Nat) : Bool :=
  (List.range n).all fun k => events.all (·.eventID != (stamps k).eventID) &&
    (List.range k).all fun i => (stamps i).eventID != (stamps k).eventID

theorem prepareLocked_id (h : j.prepareLocked P events input stamp = .ok e) :
    e ∈ events ∨ e.eventID = stamp.eventID := by
  obtain ⟨⟨⟩, -, h⟩ := bind_ok.mp h
  obtain ⟨hash, -, h⟩ := bind_ok.mp h
  split at h
  · rename_i hfind
    have h := (then_ok.mp h).2
    cases h
    exact .inl (List.mem_of_find?_eq_some hfind)
  · have h := (then_ok.mp h).2
    cases h
    exact .inr rfl

/-- A batch answers with an event that stands in it: without new ids it could
take another's place. -/
theorem draftBatch_last
    (hs : ∀ k, n ≤ k → k < n + inputs.length → (∀ x ∈ base, x.eventID ≠ (stamps k).eventID) ∧
      ∀ i, i < k → (stamps i).eventID ≠ (stamps k).eventID) (hlast : ∀ x ∈ last, x ∈ base)
    (h : j.draftBatch P stamps n base last inputs = .ok (events, last')) :
    ∀ x ∈ last', x ∈ events := by
  induction inputs generalizing n base last with
  | nil =>
    obtain ⟨rfl, rfl⟩ := h
    exact hlast
  | cons input inputs ih =>
    simp only [Journal.draftBatch, bind_ok] at h
    obtain ⟨e, he, h⟩ := h
    have hlen : n + (input :: inputs).length = n + 1 + inputs.length := by simp; omega
    rw [hlen] at hs
    split at h
    · rename_i hdup
      obtain ⟨x, hx, heq⟩ := List.any_eq_true.mp hdup
      have hmem : e ∈ base := (prepareLocked_id he).resolve_right fun hid =>
        (hs n (Nat.le_refl _) (by omega)).1 x hx ((beq_iff_eq.mp heq).trans hid)
      exact ih (fun k hk => hs k (by omega)) (by simpa using hmem) h
    · rename_i hdup
      have hid : e.eventID = (stamps n).eventID := (prepareLocked_id he).resolve_left fun hm =>
        hdup (List.any_eq_true.mpr ⟨e, hm, beq_self_eq_true _⟩)
      refine ih (fun k hk hlt => ⟨fun x hx => ?_, (hs k (by omega) hlt).2⟩) (by simp) h
      rcases List.mem_append.mp hx with hx | hx
      · exact (hs k (by omega) hlt).1 x hx
      · rw [List.mem_singleton.mp hx, hid]
        exact (hs k (by omega) hlt).2 n hk

theorem Drawn.answers (h : Drawn P j stamps n (.inr d)) (hs : unused j.events stamps n = true) :
    ∀ e ∈ d.reply.events, e ∈ d.events := by
  cases h with
  | batch inputs events last hn h =>
    simp only [unused, List.all_eq_true, List.mem_range, Bool.and_eq_true, bne_iff_ne] at hs
    have hlast := draftBatch_last (fun k _ hk => hs k (by omega)) (by simp) h
    intro e he
    cases last with
    | none => cases he
    | some x => exact hlast e (List.mem_singleton.mp he ▸ rfl)
  | intent input key e hn h => simp [Reply.events]
  | acquired key lease hk token free => simp [Reply.events]
  | released key => simp [Reply.events]

end

def logOf (file : Option State) : List Event := file.elim [] (·.events)

def revisionOf (file : Option State) : Int := file.elim 0 (·.revision)

def Event.body (e : Event) : Event :=
  { e with sequence := 0, previousHash := "", envelopeHash := "" }

theorem relinked_body : (relinked P n previous new).map Event.body = new.map Event.body := by
  induction new generalizing n previous with
  | nil => rfl
  | cons e new ih => simp [relinked, ih, Event.body, Event.sealed]

theorem relinked_linked (h : ∀ e ∈ new, e.formed P = true ∧ e.eventID ≠ "") :
    Linked P n previous (relinked P n previous new) := by
  induction new generalizing n previous with
  | nil => trivial
  | cons e new ih =>
    obtain ⟨he, hnew⟩ := List.forall_mem_cons.mp h
    exact ⟨Event.sound_iff.mpr ⟨he.2, he.1, rfl, rfl, rfl⟩, ih hnew⟩

/-- What holds of a file that only drafts are written to. -/
structure Kept (P : Platform) (file : Option State) : Prop where
  linked : Linked P 1 "" (logOf file)
  ids : ((logOf file).map (·.eventID)).Nodup
  keys : (logOf file).Pairwise fun x e => x.clashes e = false
  version : ∀ st, file = some st → st.version = schemaVersion
  nonneg : 0 ≤ revisionOf file

theorem Kept.validate (h : Kept P file) (hf : file = some st) : validateState P st = .ok () := by
  subst hf
  have hv := validateEvents_ok.mpr ⟨h.linked, h.ids⟩
  simp only [validateState, h.version st rfl, then_ok]
  exact ⟨rfl, hv⟩

/-- The journal holds what the file was when it read it. -/
structure Follows (j : Journal) (file : Option State) : Prop where
  nonneg : 0 ≤ j.revision
  tracks : Tracks j.revision j.events (revisionOf file) (logOf file)

structure Joined (P : Platform) (file : Option State) (new new' : List Event) : Prop where
  body : new'.map Event.body = new.map Event.body
  linked : (∀ e ∈ new, e.eventID ≠ "") → Linked P ((logOf file).length + 1)
    (lastHash "" (logOf file)) new'

theorem Joined.self (hn : New P j (logOf file) new) : Joined P file new new := ⟨rfl, hn.linked⟩

structure Rebased (P : Platform) (file : Option State) (j j' : Journal) (d d' : Draft) : Prop where
  revision : j'.revision = revisionOf file
  events : j'.events = logOf file
  joined : ∀ new, d.events = j.events ++ new → New P j j.events new →
    ∃ new', d'.events = logOf file ++ new' ∧ Joined P file new new'

theorem rebase_ok (hf : Follows j (some st)) (h : j.rebase P st d = .ok (j', d')) :
    Rebased P (some st) j j' d d' := by
  simp only [Journal.rebase, then_ok] at h
  obtain ⟨-, -, rfl, rfl⟩ := h
  by_cases hlt : j.events.length < st.events.length
  · refine ⟨rfl, if_pos hlt, fun new he hn => ⟨_, if_pos hlt, ?_⟩⟩
    rw [he, List.drop_left]
    exact ⟨relinked_body, fun hids => relinked_linked fun e hm => ⟨hn.formed e hm, hids e hm⟩⟩
  · -- A prefix as long as the whole is the whole.
    have hsame : j.events = logOf (some st) := hf.tracks.kept.eq_of_length
      (le_antisymm hf.tracks.kept.length_le (not_lt.mp hlt))
    exact ⟨rfl, (if_neg hlt).trans hsame, fun new he hn =>
      ⟨new, (if_neg hlt).trans (hsame ▸ he), Joined.self (hsame ▸ hn)⟩⟩

theorem candidateLocked_self (hk : Kept P file) (hrev : j.revision = revisionOf file) :
    j.candidateLocked P file d = .ok (j, d) := by
  cases file with
  | none => simp [Journal.candidateLocked, show j.revision = 0 from hrev, bind, Except.bind]
  | some st =>
    have hr : j.revision = st.revision := hrev
    simp [Journal.candidateLocked, hk.validate rfl, hr, bind, Except.bind]

theorem candidateLocked_ok (hk : Kept P file) (hf : Follows j file)
    (h : j.candidateLocked P file d = .ok (j', d')) : Rebased P file j j' d d' := by
  by_cases hrev : j.revision = revisionOf file
  · have hlog := hf.tracks.synced hrev
    rw [candidateLocked_self hk hrev] at h
    cases h
    exact ⟨hrev, hlog, fun new he hn => ⟨new, hlog ▸ he, Joined.self (hlog ▸ hn)⟩⟩
  · cases file with
    | none => exact absurd (le_antisymm hf.tracks.reached hf.nonneg) hrev
    | some st =>
      have hne : (st.revision == j.revision) = false :=
        beq_eq_false_iff_ne.mpr fun heq => hrev heq.symm
      simp [Journal.candidateLocked, hk.validate rfl, hne, bind, Except.bind] at h
      exact rebase_ok hf h

end Adro.Runtime
