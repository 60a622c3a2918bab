import Adro.Events.Sequence
import Adro.Lib.Replica

/-!
# Buses that share a file

Every bus follows the file: it holds a prefix of the file's history, and all of
it when it is at the file's revision. A write then leaves the history as it is or
puts one event behind it. A publication that fails after it took over a peer's
history breaks this, for it puts back the events and not the revision.
-/

namespace Adro.Events

open Adro.Go Adro.Runs Adro.Replica

def logOf (file : Option File) : List Envelope := file.elim [] (·.events)

def revisionOf (file : Option File) : Int := file.elim 0 (·.revision)

/-- A bus; while an acknowledgement waits for its write the lock is taken. -/
structure Member where
  bus : Bus
  undo : Option Undo := none

/-- The file, the buses open on it and the events whose publication returned without
error, each with the envelope that was retained for it. -/
structure Site where
  file : Option File := none
  members : List Member := []
  published : List (Envelope × Envelope) := []

/-- `record` is the second part of a delivery, with the events its first part
read; the first part only reloads. -/
inductive Move
  | openBus
  | publish (i : Nat) (event : Envelope) (newID : String) (now : Time) (fault : Fault)
  | ackStart (i : Nat) (consumerID eventID : String)
  | ackFinish (i : Nat) (fault : Fault)
  | record (i : Nat) (consumerID : String) (items : List Envelope) (fault : Fault)
  | reload (i : Nat)

/-- The retained event for which another is not published again. -/
def Envelope.twin (e : Envelope) (events : List Envelope) : Option Envelope :=
  events.find? fun retained => e.known [retained]

/-- The retained event is the one asked for: it has its id, or the id its provider gave it. -/
def Envelope.standsFor (retained e : Envelope) : Prop :=
  retained.eventID = e.eventID ∨ e.provider ≠ "" ∧ e.providerEventID ≠ "" ∧
    retained.provider = e.provider ∧ retained.providerEventID = e.providerEventID

/-- A retained event has not by chance the same key as the event, from other texts. -/
def Envelope.unmixed (e retained : Envelope) : Bool :=
  e.providerKey.isNone || retained.providerKey != e.providerKey ||
    (retained.provider == e.provider && retained.providerEventID == e.providerEventID)

namespace Site

variable (P : Platform) (s : Site)

def put (i : Nat) (bus : Bus) (file : Option File) (undo : Option Undo) : Site :=
  { s with file := file, members := s.members.set i ⟨bus, undo⟩ }

def step : Move → Site
  | .openBus =>
    match Bus.opened P s.file with
    | .ok bus => { s with members := s.members ++ [⟨bus, none⟩] }
    | .error _ => s
  | .publish i event newID now fault =>
    match s.members[i]? with
    | some ⟨b, none⟩ =>
      match b.publish P s.file event newID now fault with
      | (b', file, .ok (some e)) =>
        { s.put i b' file none with published := (event.prepared P newID, e) :: s.published }
      | (b', file, .ok none) =>
        let e := event.prepared P newID
        { s.put i b' file none with
          published := (e.twin b.events).toList.map (e, ·) ++ s.published }
      | (b', file, .error _) => s.put i b' file none
    | _ => s
  | .ackStart i consumerID eventID =>
    match s.members[i]? with
    | some ⟨b, none⟩ =>
      match b.ackStart P s.file consumerID eventID with
      | (b', .ok undo) => s.put i b' s.file (some undo)
      | (b', .error _) => s.put i b' s.file none
    | _ => s
  | .ackFinish i fault =>
    match s.members[i]? with
    | some ⟨b, some undo⟩ =>
      match b.ackFinish P s.file undo fault with
      | (b', file, _) => s.put i b' file none
    | _ => s
  | .record i consumerID items fault =>
    match s.members[i]? with
    | some ⟨b, none⟩ =>
      match b.recordDeliveries P s.file consumerID items fault with
      | (b', file, _) => s.put i b' file none
    | _ => s
  | .reload i =>
    match s.members[i]? with
    | some ⟨b, none⟩ => s.put i (b.reloadLocked P s.file).1 s.file none
    | _ => s

/-- A publication is not taken for an event of another provider; by a bus that is behind
the file it cannot fail once it has taken over the file's history, and its provider's id is
new to the file. -/
def settles : Move → Bool
  | .publish i event newID _ fault =>
    s.members[i]?.all fun m => m.bus.events.all event.unmixed &&
      (m.bus.revision == revisionOf s.file ||
      (fault != .beforeRename && !blank (event.prepared P newID).eventID && event.traced P &&
        P.encodes event.occurredAt &&
        (logOf s.file).all fun e => event.providerKey.isNone || e.providerKey != event.providerKey))
  | _ => true

end Site

def Distinct (events : List Envelope) : Prop :=
  events.Pairwise fun e e' => e'.providerKey.isSome = true → e.providerKey ≠ e'.providerKey

structure Kept (P : Platform) (file : Option File) : Prop where
  valid : Valid P (logOf file)
  encoded : ∀ e ∈ logOf file, P.encodes e.occurredAt = true
  distinct : Distinct (logOf file)
  retention : ∀ f, file = some f → f.retention = {}

structure Follows (b : Bus) (file : Option File) : Prop where
  persistent : b.persistent = true
  retention : b.retention = {}
  nonneg : 0 ≤ b.revision
  tracks : Tracks b.revision b.events (revisionOf file) (logOf file)

structure Extends (file file' : Option File) : Prop where
  revision : file' = file ∨ revisionOf file < revisionOf file'
  log : logOf file <+: logOf file'

variable {P : Platform} {b b' : Bus} {file file' : Option File} {e : Envelope}

theorem Extends.refl : Extends file file := ⟨.inl rfl, List.prefix_rfl⟩

theorem Follows.later (h : Follows b file) (hx : Extends file file') : Follows b file' := by
  rcases hx.revision with rfl | hlt
  · exact h
  · exact ⟨h.persistent, h.retention, h.nonneg, h.tracks.advance hlt hx.log⟩

theorem Follows.same (h : Follows b file) (hp : b'.persistent = b.persistent)
    (hr : b'.retention = b.retention) (hv : b'.revision = b.revision) (he : b'.events = b.events) :
    Follows b' file :=
  ⟨hp ▸ h.persistent, hr ▸ h.retention, hv ▸ h.nonneg, hv ▸ he ▸ h.tracks⟩

theorem rebased_known (h : ∀ x ∈ base, x.eventID ∈ seen) :
    rebased P n previous seen (base ++ extra) = rebased P n previous seen extra := by
  induction base with
  | nil => rfl
  | cons x base ih =>
    obtain ⟨hx, hbase⟩ := List.forall_mem_cons.mp h
    have hmem : seen.contains x.eventID = true := by simpa using hx
    simp only [List.cons_append, rebased, hmem]
    exact ih hbase

theorem Valid.named (h : Valid P (logOf file)) (hx : x ∈ logOf file) :
    x.eventID ≠ "" :=
  ne_empty_of_not_blank (h.sound x hx).named

def Envelope.appended (P : Platform) (e : Envelope) (log : List Envelope) : Envelope :=
  Envelope.sealed P
    { e with
      sequence := maxSequence log + 1
      previousHash := (log.getLast?.map (·.envelopeHash)).getD ""
      payloadHash := P.payloadHash e.payload }

/-- The own events that a peer's history does not have, behind it. -/
def behind (P : Platform) (log extra : List Envelope) : List Envelope :=
  rebased P (maxSequence log) ((log.getLast?.map (·.envelopeHash)).getD "")
    (log.map (·.eventID)) extra

variable {log : List Envelope}

theorem behind_one :
    behind P log [e] =
      if (log.map (·.eventID)).contains e.eventID then [] else [e.appended P log] := by
  simp only [behind, rebased]
  split <;> rfl

theorem merge_ok (hk : Kept P file) (hf : Follows b file)
    (hone : extra = [] ∨ extra = [e] ∧ e.eventID ≠ "" ∧ P.payloadHash e.payload ≠ "") :
    mergePeerEventsPreservingCommitted P (logOf file) (b.events ++ extra) =
      .ok (logOf file ++ behind P (logOf file) extra) := by
  have hbase (x) (hx : x ∈ b.events) : x.eventID ∈ (logOf file).map (·.eventID) :=
    List.mem_map_of_mem (hf.tracks.kept.subset hx)
  have hids : ((logOf file ++ (b.events ++ extra)).all (·.eventID != "")) = true := by
    refine List.all_eq_true.mpr fun x hx => bne_iff_ne.mpr ?_
    rcases List.mem_append.mp hx with hx | hx
    · exact hk.valid.named hx
    · rcases List.mem_append.mp hx with hx | hx
      · exact hk.valid.named (hf.tracks.kept.subset hx)
      · rcases hone with rfl | ⟨rfl, hne, -⟩
        · cases hx
        · exact List.mem_singleton.mp hx ▸ hne
  have hhash : ((behind P (logOf file) extra).all (·.payloadHash != "")) = true := by
    rcases hone with rfl | ⟨rfl, -, hne⟩
    · rfl
    · rw [behind_one]
      split
      · rfl
      · exact List.all_eq_true.mpr fun x hx => List.mem_singleton.mp hx ▸ bne_iff_ne.mpr hne
  rw [behind] at hhash
  simp only [mergePeerEventsPreservingCommitted, rebased_known hbase, hids, hhash,
    decide_eq_true hk.valid.ids]
  rfl

/-- Taking over a peer's history, when the merge is what `events` says. -/
theorem absorb_behind (hv : Valid P f.events) (hrev : f.revision ≠ b.revision)
    (hm : mergePeerEventsPreservingCommitted P f.events b.events = .ok events) :
    b.absorb P (some f) = .ok { b with
      events := events
      revision := f.revision
      acks := b.acks ∪ f.acks
      deliveryAttempts := mergeAttempts b.deliveryAttempts f.deliveryAttempts } := by
  have hne : (f.revision == b.revision) = false := beq_eq_false_iff_ne.mpr hrev
  simp only [Bus.absorb, hne, validate_valid hv]
  change (mergePeerEventsPreservingCommitted P f.events b.events >>= _) = _
  rw [hm]
  rfl

/-- The bus is at the file's revision, with events of its own behind the file's. -/
structure Caught (file : Option File) (extra : List Envelope) (b : Bus) : Prop where
  persistent : b.persistent = true
  retention : b.retention = {}
  revision : b.revision = revisionOf file
  events : b.events = logOf file ++ extra

theorem absorb_quiet (hk : Kept P file) (hf : Follows b file) :
    ∃ b₁, b.absorb P file = .ok b₁ ∧ Caught file [] b₁ := by
  cases file with
  | none =>
    have hzero : b.revision = 0 := le_antisymm hf.tracks.reached hf.nonneg
    exact ⟨b, rfl, hf.persistent, hf.retention, hzero, by simp [hf.tracks.synced hzero]⟩
  | some f =>
    by_cases hrev : f.revision = b.revision
    · refine ⟨b, by simp [Bus.absorb, hrev], hf.persistent, hf.retention, hrev.symm, ?_⟩
      simp [hf.tracks.synced hrev.symm]
    · have hm := merge_ok (e := { eventID := "" }) hk hf (.inl rfl)
      rw [List.append_nil] at hm
      exact ⟨_, absorb_behind hk.valid hrev hm, hf.persistent, hf.retention, rfl, rfl⟩

theorem persistLocked_unread (hp : b.persistent = true) :
    b.persistLocked P file .beforeMerge = (b, file, .error "read event state") := by
  simp [Bus.persistLocked, hp]

theorem persistLocked_absorbed (hp : b.persistent = true) (hread : fault ≠ .beforeMerge)
    (ha : b.absorb P file = .ok b₁) (hv : Valid P b₁.events) :
    b.persistLocked P file fault =
      if !(b₁.events.all fun e => P.encodes e.occurredAt) then
        (b₁, file, .error "event state is not JSON encodable")
      else match fault with
        | .afterRename => (b₁, some b₁.contents, .error "sync failed")
        | .none => ({ b₁ with revision := b₁.revision + 1 }, some b₁.contents, .ok ())
        | _ => (b₁, file, .error "write failed") := by
  cases fault with
  | beforeMerge => exact absurd rfl hread
  | _ => simp [Bus.persistLocked, hp, ha, validate_valid hv]

namespace Caught

variable {extra : List Envelope} (c : Caught file extra b)

include c

theorem advances : Extends file (some b.contents) := by
  refine ⟨.inr ?_, ?_⟩
  · have := c.revision
    simp only [revisionOf, Bus.contents, Option.elim_some] at this ⊢
    omega
  · exact ⟨extra, by simp [logOf, Bus.contents, c.events]⟩

theorem kept (hv : Valid P b.events) (henc : ∀ e ∈ b.events, P.encodes e.occurredAt = true)
    (hd : Distinct b.events) : Kept P (some b.contents) :=
  ⟨hv, henc, hd, by rintro f ⟨⟩; exact c.retention⟩

theorem follows (hnil : extra = []) (h0 : 0 ≤ revisionOf file) : Follows b file := by
  have hlog : b.events = logOf file := by simp [c.events, hnil]
  exact ⟨c.persistent, c.retention, c.revision ▸ h0, c.revision ▸ hlog ▸ Tracks.self⟩

theorem written (h0 : 0 ≤ revisionOf file) :
    Follows { b with revision := b.revision + 1 } (some b.contents) := by
  refine ⟨c.persistent, c.retention, ?_, Tracks.self⟩
  have := c.revision
  change 0 ≤ b.revision + 1
  omega

end Caught

structure Leaves (P : Platform) (file : Option File) {α : Type} (r : Bus × Option File × α) :
    Prop where
  follows : Follows r.1 r.2.1
  advances : Extends file r.2.1
  kept : Kept P r.2.1

theorem persist_quiet (fault : Fault) (hk : Kept P file) (h0 : 0 ≤ revisionOf file)
    (hf : Follows b file) : Leaves P file (b.persistLocked P file fault) := by
  obtain ⟨b₁, ha, hc⟩ := absorb_quiet hk hf
  have hlog : b₁.events = logOf file := by simp [hc.events]
  have hv : Valid P b₁.events := hlog ▸ hk.valid
  have hall : (b₁.events.all fun e => P.encodes e.occurredAt) = true :=
    List.all_eq_true.mpr (hlog ▸ hk.encoded)
  have hsame : Follows b₁ file := hc.follows rfl h0
  have hnew : Kept P (some b₁.contents) := hc.kept hv (hlog ▸ hk.encoded) (hlog ▸ hk.distinct)
  by_cases hread : fault = .beforeMerge
  · rw [hread, persistLocked_unread hf.persistent]
    exact ⟨hf, .refl, hk⟩
  rw [persistLocked_absorbed hf.persistent hread ha hv, hall]
  cases fault with
  | none => exact ⟨hc.written h0, hc.advances, hnew⟩
  | beforeMerge => exact absurd rfl hread
  | beforeRename => exact ⟨hsame, .refl, hk⟩
  | afterRename => exact ⟨hsame.later hc.advances, hc.advances, hnew⟩

structure Settled (P : Platform) (file : Option File) (eventID : String)
    (r : Bus × Option File × Except String (Option Envelope)) : Prop extends Leaves P file r where
  retained : ∀ x, r.2.2 = .ok (some x) → x ∈ logOf r.2.1 ∧ x.eventID = eventID

variable {event : Envelope} {newID : String} {now : Time} {fault : Fault}

theorem pruneLocked_none (h : b.retention = {}) : b.pruneLocked now = b := by
  cases b
  simp_all [Bus.pruneLocked]

theorem publish_eq (hr : b.retention = {}) (htaken : b.taken P event newID = .ok (some e)) :
    b.publish P file event newID now fault =
      match Bus.persistLocked P { b with events := b.events ++ [e] } file fault with
      | (b', file, .error err) =>
        ({ b' with events := b.events }, file, .error ("persist event: " ++ err))
      | (b', file, .ok ()) =>
        (b', file, .ok (some ((b'.events.find? (·.eventID == e.eventID)).getD e))) := by
  have hprune : Bus.pruneLocked { b with events := b.events ++ [e] } now =
      { b with events := b.events ++ [e] } := pruneLocked_none hr
  rcases hwrite : Bus.persistLocked P { b with events := b.events ++ [e] } file fault with
    ⟨b', file', err | ⟨⟩⟩ <;> simp only [Bus.publish, htaken, hprune, hwrite]

theorem Distinct.concat (h : Distinct log)
    (hnew : ∀ x ∈ log, e.providerKey.isSome = true → x.providerKey ≠ e.providerKey) :
    Distinct (log ++ [e]) := by
  refine List.pairwise_append.mpr ⟨h, List.pairwise_singleton _ _, fun x hx y hy => ?_⟩
  obtain rfl := List.mem_singleton.mp hy
  exact hnew x hx

theorem publish_written (extra : List Envelope) (hk : Kept P file) (h0 : 0 ≤ revisionOf file)
    (hf : Follows b file) (htaken : b.taken P event newID = .ok (some e))
    (ha : Bus.absorb P { b with events := b.events ++ [e] } file = .ok b₁)
    (hc : Caught file extra b₁) (hv : Valid P b₁.events) (hd : Distinct b₁.events)
    (hid : ∃ x ∈ b₁.events, x.eventID = e.eventID) (hsafe : b.revision = revisionOf file ∨
      fault ≠ .beforeRename ∧ ∀ x ∈ b₁.events, P.encodes x.occurredAt = true) :
    Settled P file e.eventID (b.publish P file event newID now fault) := by
  have hp : Bus.persistent { b with events := b.events ++ [e] } = true := hf.persistent
  by_cases hread : fault = .beforeMerge
  · rw [publish_eq hf.retention htaken, hread, persistLocked_unread hp]
    exact ⟨⟨hf.same rfl rfl rfl rfl, .refl, hk⟩, by simp⟩
  rw [publish_eq hf.retention htaken, persistLocked_absorbed hp hread ha hv]
  -- What a failure puts back follows the file if the bus was not behind.
  have hback (hrev : b.revision = revisionOf file) : Follows { b₁ with events := b.events } file :=
    hf.same (hc.persistent.trans hf.persistent.symm) (hc.retention.trans hf.retention.symm)
      (hc.revision.trans hrev.symm) rfl
  cases hall : b₁.events.all fun e => P.encodes e.occurredAt with
  | false =>
    rcases hsafe with hrev | ⟨-, henc⟩
    · exact ⟨⟨hback hrev, .refl, hk⟩, by simp⟩
    · rw [List.all_eq_true.mpr henc] at hall
      cases hall
  | true =>
    have hnew := hc.kept hv (List.all_eq_true.mp hall) hd
    cases fault with
    | none =>
      refine ⟨⟨hc.written h0, hc.advances, hnew⟩, fun x hx => ?_⟩
      obtain ⟨y, hy, hyid⟩ := hid
      have hfound : (b₁.events.find? (·.eventID == e.eventID)).isSome = true :=
        List.find?_isSome.mpr ⟨y, hy, by simp [hyid]⟩
      obtain ⟨z, hz⟩ := Option.isSome_iff_exists.mp hfound
      have hxz : z = x := by simpa [hz] using hx
      exact hxz ▸ ⟨List.mem_of_find?_eq_some hz, by simpa using List.find?_some hz⟩
    | beforeMerge => exact absurd rfl hread
    | beforeRename =>
      exact ⟨⟨hback (hsafe.resolve_right fun h => h.1 rfl), .refl, hk⟩, by simp⟩
    | afterRename =>
      refine ⟨⟨⟨hc.persistent, hc.retention, ?_, ?_, ?_, fun heq => ?_⟩, hc.advances,
        hnew⟩, by simp⟩
      · change 0 ≤ b₁.revision
        rw [hc.revision]
        exact h0
      · exact (Int.lt_succ b₁.revision).le
      · exact hf.tracks.kept.trans hc.advances.log
      · exact absurd heq (Int.lt_succ b₁.revision).ne

/-- The condition on a publication by a bus behind the file. -/
structure Fit (P : Platform) (file : Option File) (event : Envelope) (newID : String)
    (fault : Fault) : Prop where
  fault : fault ≠ .beforeRename
  named : blank (event.prepared P newID).eventID = false
  traced : event.traced P = true
  encodes : P.encodes event.occurredAt = true
  provider : ∀ x ∈ logOf file, event.providerKey.isSome = true → x.providerKey ≠ event.providerKey

section

variable (hk : Kept P file) (h0 : 0 ≤ revisionOf file) (hf : Follows b file)
  (htaken : b.taken P event newID = .ok (some e))
include hk h0 hf htaken

theorem publish_synced (now : Time) (hrev : b.revision = revisionOf file) :
    Settled P file e.eventID (b.publish P file event newID now fault) := by
  have hadm := taken_some htaken
  have hlog : b.events = logOf file := hf.tracks.synced hrev
  have hfile (f) (hff : file = some f) : f.revision = b.revision := by
    rw [hrev, hff]
    rfl
  have ha := absorb_same (P := P) (b := { b with events := b.events ++ [e] }) hfile
  rcases persistLocked_cases (b := { b with events := b.events ++ [e] })
    hfile hf.persistent with ⟨b', err, hw, hp, hr, ht⟩ | ⟨out, hval, -⟩
  · rw [publish_eq hf.retention htaken, hw]
    exact ⟨⟨hf.same (hp.trans hf.persistent.symm) ht hr rfl, .refl, hk⟩, by simp⟩
  · have hmem : e ∈ b.events ++ [e] := by simp
    have hv := hadm.accepted (hlog ▸ hk.valid) hval hmem
    have hd : Distinct (b.events ++ [e]) := (hlog ▸ hk.distinct).concat hadm.newProvider
    exact publish_written _ hk h0 hf htaken ha
      ⟨hf.persistent, hf.retention, hrev, by rw [hlog]⟩ hv hd ⟨e, hmem, rfl⟩ (.inl hrev)

theorem publish_behind (now : Time) (hrev : b.revision ≠ revisionOf file)
    (fit : Fit P file event newID fault) :
    Settled P file e.eventID (b.publish P file event newID now fault) := by
  have hadm := taken_some htaken
  have hnamed : blank e.eventID = false := hadm.eventID ▸ fit.named
  have hs := hadm.sound hnamed (hadm.traced.trans fit.traced)
  cases file with
  | none => exact absurd (le_antisymm hf.tracks.reached hf.nonneg) hrev
  | some f =>
    have hm := merge_ok hk hf (.inr ⟨rfl, ne_empty_of_not_blank hnamed, hadm.encodes⟩)
    have ha := absorb_behind (b := { b with events := b.events ++ [e] }) hk.valid
      (fun heq => hrev heq.symm) hm
    rw [behind_one] at ha
    by_cases hin : ((logOf (some f)).map (·.eventID)).contains e.eventID = true
    · -- The file has the event already.
      rw [if_pos hin, List.append_nil] at ha
      obtain ⟨y, hy, hyid⟩ := List.mem_map.mp (List.contains_iff_mem.mp hin)
      exact publish_written [] hk h0 hf htaken ha
        ⟨hf.persistent, hf.retention, rfl, (List.append_nil _).symm⟩ hk.valid hk.distinct
        ⟨y, hy, hyid⟩ (.inr ⟨fit.fault, hk.encoded⟩)
    · -- The event is numbered anew, behind what the peers have written.
      rw [if_neg hin] at ha
      have hv : Valid P (logOf (some f) ++ [e.appended P (logOf (some f))]) := by
        refine hk.valid.concat ⟨hs.named, hs.schema, rfl, hs.traced, rfl⟩ (fun x hx heq => hin ?_)
          rfl fun l hl => by simp [Envelope.appended, Envelope.sealed, hl]
        exact List.contains_iff_mem.mpr (List.mem_map.mpr ⟨x, hx, heq⟩)
      have hd : Distinct (logOf (some f) ++ [e.appended P (logOf (some f))]) :=
        hk.distinct.concat fun x hx hsome => by
          have hkey : (e.appended P (logOf (some f))).providerKey = event.providerKey :=
            hadm.provider
          rw [hkey] at hsome ⊢
          exact fit.provider x hx hsome
      have henc (x) (hx : x ∈ logOf (some f) ++ [e.appended P (logOf (some f))]) :
          P.encodes x.occurredAt = true := by
        rcases List.mem_append.mp hx with hx | hx
        · exact hk.encoded x hx
        · obtain rfl := List.mem_singleton.mp hx
          exact (congrArg P.encodes hadm.occurredAt).trans fit.encodes
      exact publish_written _ hk h0 hf htaken ha ⟨hf.persistent, hf.retention, rfl, rfl⟩ hv hd
        ⟨_, List.mem_append_right _ (List.mem_singleton_self _), rfl⟩ (.inr ⟨fit.fault, henc⟩)

end

theorem publish_settles (now : Time) (hk : Kept P file) (h0 : 0 ≤ revisionOf file)
    (hf : Follows b file)
    (hset : b.revision = revisionOf file ∨ Fit P file event newID fault) :
    Settled P file (event.prepared P newID).eventID (b.publish P file event newID now fault) := by
  cases htaken : b.taken P event newID with
  | error err =>
    simp only [Bus.publish, htaken]
    exact ⟨⟨hf, .refl, hk⟩, by simp⟩
  | ok found =>
    cases found with
    | none =>
      simp only [Bus.publish, htaken]
      exact ⟨⟨hf, .refl, hk⟩, by simp⟩
    | some e =>
      rw [show (event.prepared P newID).eventID = e.eventID from (taken_some htaken).eventID.symm]
      by_cases hrev : b.revision = revisionOf file
      · exact publish_synced hk h0 hf htaken now hrev
      · exact publish_behind hk h0 hf htaken now hrev (hset.resolve_left hrev)

structure Site.Inv (P : Platform) (s : Site) : Prop where
  kept : Kept P s.file
  nonneg : 0 ≤ revisionOf s.file
  members : ∀ m ∈ s.members, Follows m.bus s.file
  published : ∀ x ∈ s.published, x.2 ∈ logOf s.file ∧ x.2.standsFor x.1

theorem Extends.nonneg (h : Extends file file') (h0 : 0 ≤ revisionOf file) :
    0 ≤ revisionOf file' := by
  rcases h.revision with rfl | hlt
  · exact h0
  · omega

namespace Site

variable {s : Site}

variable {i : Nat}

theorem Inv.put (h : s.Inv P) (hl : Leaves P s.file r) : (s.put i r.1 r.2.1 undo).Inv P := by
  refine ⟨hl.kept, hl.advances.nonneg h.nonneg, fun m hm => ?_,
    fun x hx => ⟨hl.advances.log.subset (h.published x hx).1, (h.published x hx).2⟩⟩
  rcases List.mem_or_eq_of_mem_set hm with hm | rfl
  · exact (h.members m hm).later hl.advances
  · exact hl.follows

theorem Inv.replaced (h : s.Inv P) (hf : Follows b s.file) :
    (s.put i b s.file undo).Inv P :=
  h.put (r := (b, s.file, ())) ⟨hf, .refl, h.kept⟩

variable {m : Member}

theorem Inv.member (h : s.Inv P) (hm : s.members[i]? = some m) : Follows m.bus s.file :=
  h.members m (List.mem_of_getElem? hm)

section
variable (hk : Kept P file)
include hk

theorem reload_follows (hf : Follows b file) : Follows (b.reloadLocked P file).1 file := by
  cases file with
  | none => exact hf
  | some f =>
    have hval : validatePersistedEvents P f.events = .ok f.events := validate_valid hk.valid
    by_cases hle : f.revision ≤ b.revision
    · simp only [Bus.reloadLocked, hf.persistent, decide_eq_true hle]
      exact hf
    · simp only [Bus.reloadLocked, hf.persistent, decide_eq_false hle, hval]
      refine ⟨rfl, hk.retention f rfl, ?_, Tracks.self⟩
      have := hf.nonneg
      change 0 ≤ f.revision
      omega

theorem ackStart_follows (hf : Follows b file) :
    Follows (b.ackStart P file consumerID eventID).1 file := by
  have hr := reload_follows hk hf
  unfold Bus.ackStart
  dsimp only
  split
  · exact hf
  · generalize b.reloadLocked P file = r at hr
    obtain ⟨b₁, _ | _⟩ := r
    · exact hr
    · dsimp only
      split
      · exact hr
      · split
        · exact hr
        · exact hr.same rfl rfl rfl rfl

theorem ackFinish_keeps (h0 : 0 ≤ revisionOf file) (hf : Follows b file)
    (undo : Undo) (fault : Fault) : Leaves P file (b.ackFinish P file undo fault) := by
  have hq := persist_quiet fault hk h0 hf
  unfold Bus.ackFinish
  generalize b.persistLocked P file fault = r at hq
  obtain ⟨b₁, file₁, _ | _⟩ := r
  · exact ⟨hq.follows.same rfl rfl rfl rfl, hq.advances, hq.kept⟩
  · exact ⟨hq.follows, hq.advances, hq.kept⟩

theorem record_keeps (h0 : 0 ≤ revisionOf file) (hf : Follows b file)
    (consumerID : String) (items : List Envelope) (fault : Fault) :
    Leaves P file (b.recordDeliveries P file consumerID items fault) := by
  unfold Bus.recordDeliveries
  split
  · exact ⟨hf, .refl, hk⟩
  · have hq := persist_quiet (b :=
      { b with deliveryAttempts := b.attempted consumerID items }) fault
      hk h0 (hf.same rfl rfl rfl rfl)
    generalize Bus.persistLocked P { b with deliveryAttempts := b.attempted consumerID items } file
      fault = r at hq
    obtain ⟨b₁, file₁, _ | _⟩ := r
    · exact ⟨hq.follows.same rfl rfl rfl rfl, hq.advances, hq.kept⟩
    · exact ⟨hq.follows, hq.advances, hq.kept⟩

end

theorem twin_stands (h : e.twin events = some x) (hunmixed : ∀ y ∈ events, e.unmixed y = true) :
    x ∈ events ∧ x.standsFor e := by
  have hmem := List.mem_of_find?_eq_some h
  refine ⟨hmem, ?_⟩
  have hknown := List.find?_some h
  simp only [Envelope.known, List.any_cons, List.any_nil, Bool.or_false, Bool.or_eq_true,
    Bool.and_eq_true, beq_iff_eq] at hknown
  refine hknown.imp_right fun ⟨hsome, hkey⟩ => ?_
  have hpair := hunmixed x hmem
  simp only [Envelope.unmixed, hkey, bne_self_eq_false, Bool.or_false, Bool.or_eq_true,
    Bool.and_eq_true, beq_iff_eq, Option.isNone_iff_eq_none] at hpair
  have hpair := hpair.resolve_left fun hnone => by simp [hnone] at hsome
  have hfields : e.provider ≠ "" ∧ e.providerEventID ≠ "" := by
    by_contra hempty
    rw [Envelope.providerKey, if_neg (by simpa using hempty)] at hsome
    cases hsome
  exact ⟨hfields.1, hfields.2, hpair⟩

theorem fit_of_settles (hm : s.members[i]? = some m)
    (h : s.settles P (.publish i event newID now fault) = true) :
    (∀ x ∈ m.bus.events, event.unmixed x = true) ∧
      (m.bus.revision = revisionOf s.file ∨ Fit P s.file event newID fault) := by
  simp only [Site.settles, hm, Option.all_some, Bool.or_eq_true, Bool.and_eq_true, beq_iff_eq,
    bne_iff_ne, Bool.not_eq_true', List.all_eq_true] at h
  refine ⟨h.1, h.2.imp_right fun ⟨⟨⟨⟨hfault, hnamed⟩, htraced⟩, henc⟩, hprov⟩ =>
    ⟨hfault, hnamed, htraced, henc, fun x hx hsome => ?_⟩⟩
  exact (hprov x hx).resolve_left (by simp [Option.isSome_iff_ne_none.mp hsome])

theorem Inv.step (h : s.Inv P) (c : Move) (hc : s.settles P c = true) :
    (s.step P c).Inv P ∧ Extends s.file (s.step P c).file := by
  cases c <;> simp only [Site.step]
  case openBus =>
    cases hopen : Bus.opened P s.file with
    | error err => exact ⟨h, .refl⟩
    | ok bus =>
      refine ⟨⟨h.kept, h.nonneg, fun m hm => ?_, h.published⟩, .refl⟩
      rcases List.mem_append.mp hm with hm | hm
      · exact h.members m hm
      · obtain rfl := List.mem_singleton.mp hm
        cases hf : s.file with
        | none =>
          rw [hf] at hopen
          cases hopen
          exact ⟨rfl, rfl, le_refl _, Tracks.self⟩
        | some f =>
          have hv : Valid P f.events := by simpa [hf, logOf] using h.kept.valid
          rw [hf, opened_valid hv] at hopen
          cases hopen
          exact ⟨rfl, h.kept.retention f hf, by simpa [hf, revisionOf] using h.nonneg, Tracks.self⟩
  case publish i event newID now fault =>
    split
    · rename_i b hm
      have hf := h.member hm
      obtain ⟨hunmixed, hfit⟩ := fit_of_settles hm hc
      have hset := publish_settles now h.kept h.nonneg hf hfit
      have htwin (x) (hx : x ∈ ((event.prepared P newID).twin b.events).toList) :
          x ∈ logOf s.file ∧ x.standsFor (event.prepared P newID) := by
        have ⟨hmem, hstands⟩ := twin_stands (Option.mem_toList.mp hx) hunmixed
        exact ⟨hf.tracks.kept.subset hmem, hstands⟩
      generalize b.publish P s.file event newID now fault = r at hset
      have hput (undo) : (s.put i r.1 r.2.1 undo).Inv P := h.put hset.toLeaves
      obtain ⟨b', file', _ | _ | e⟩ := r
      · exact ⟨hput none, hset.advances⟩
      · refine ⟨⟨hset.kept, (hput none).nonneg, (hput none).members, fun x hx => ?_⟩, hset.advances⟩
        rcases List.mem_append.mp hx with hx | hx
        · obtain ⟨y, hy, rfl⟩ := List.mem_map.mp hx
          exact ⟨hset.advances.log.subset (htwin y hy).1, (htwin y hy).2⟩
        · exact (hput none).published x hx
      · refine ⟨⟨hset.kept, (hput none).nonneg, (hput none).members, ?_⟩, hset.advances⟩
        obtain ⟨hin, hid⟩ := hset.retained e rfl
        exact List.forall_mem_cons.mpr ⟨⟨hin, .inl hid⟩, (hput none).published⟩
    · exact ⟨h, .refl⟩
  case ackStart i consumerID eventID =>
    split
    · rename_i b hm
      have hf : Follows (b.ackStart P s.file consumerID eventID).1 s.file :=
        ackStart_follows h.kept (h.member hm)
      generalize b.ackStart P s.file consumerID eventID = r at hf
      obtain ⟨b', _ | undo⟩ := r <;> exact ⟨h.replaced hf, .refl⟩
    · exact ⟨h, .refl⟩
  case ackFinish i fault =>
    split
    · rename_i b undo hm
      have hl := ackFinish_keeps h.kept h.nonneg (h.member hm) undo fault
      exact ⟨h.put hl, hl.advances⟩
    · exact ⟨h, .refl⟩
  case record i consumerID items fault =>
    split
    · rename_i b hm
      have hl := record_keeps h.kept h.nonneg (h.member hm) consumerID items fault
      exact ⟨h.put hl, hl.advances⟩
    · exact ⟨h, .refl⟩
  case reload i =>
    split
    · rename_i b hm
      exact ⟨h.replaced (reload_follows h.kept (h.member hm)), .refl⟩
    · exact ⟨h, .refl⟩

theorem inv_start : Site.Inv P {} :=
  ⟨⟨⟨by simp [logOf], by simp [logOf], List.isChain_nil, by simp [logOf]⟩, by simp [logOf],
    List.Pairwise.nil, nofun⟩, le_refl _, by simp, by simp⟩

end Site

/-- In every run whose publications all settle, the file's history only grows at
its end, each event that was published has its envelope there, as it was first
retained, and no provider's id is there twice. -/
theorem bus_durable {run rest : List Move}
    (h : Meets (Site.step P) (fun s c => s.settles P c = true) {} (run ++ rest)) :
    logOf (exec (Site.step P) {} run).file <+: logOf (exec (Site.step P) {} (run ++ rest)).file ∧
      (∀ x ∈ (exec (Site.step P) {} run).published,
        x.2 ∈ logOf (exec (Site.step P) {} (run ++ rest)).file ∧ x.2.standsFor x.1) ∧
      Distinct (logOf (exec (Site.step P) {} (run ++ rest)).file) := by
  obtain ⟨hrun, hrest⟩ := meets_append.mp h
  have hkeep (s : Site) (c : Move) (hs : s.Inv P) (hc : s.settles P c = true) :
    (s.step P c).Inv P :=
    (hs.step c hc).1
  have hmid := invariant Site.inv_start hkeep hrun
  have hend := invariant Site.inv_start hkeep h
  have hgrow := related (R := fun s t => logOf s.file <+: logOf t.file) (fun _ => List.prefix_rfl)
    (fun _ _ _ => List.IsPrefix.trans) hmid hkeep (fun s c hs hc => (hs.step c hc).2.log) hrest
  rw [← exec_append] at hgrow
  exact ⟨hgrow, fun x hx => ⟨hgrow.subset (hmid.published x hx).1, (hmid.published x hx).2⟩,
    hend.kept.distinct⟩

/-- Two buses, an event of each; the second takes over the first's. -/
def twoBuses (fault : Fault) : List Move :=
  [.openBus, .openBus, .publish 0 { eventID := "a" } "" 0 .none,
    .publish 1 { eventID := "b" } "" 0 fault]

theorem two_buses_durable :
    logOf (exec (Site.step plain) {} (twoBuses .none)).file <+:
      logOf (exec (Site.step plain) {}
        (twoBuses .none ++ [.publish 0 { eventID := "c" } "" 0 .none])).file :=
  (bus_durable (by decide +kernel)).1

/-- A publication that fails after it took over a peer's event makes the next one
of its bus drop that event from the file. -/
theorem published_lost :
    (exec (Site.step plain) {} (twoBuses .beforeRename)).published.map (·.2.eventID) = ["a"] ∧
      (logOf (exec (Site.step plain) {}
        (twoBuses .beforeRename ++ [.publish 1 { eventID := "c" } "" 0 .none])).file).map
          (·.eventID) =
          ["c"] := by
  decide +kernel

end Adro.Events
