import Adro.Runtime.JournalLaws
import Adro.Runtime.Steps
import Adro.Lib.Runs
import Mathlib.Data.List.Pairwise

/-!
# Journals that share a file

Between the reload of an operation and its write a peer may add events to the
file. The operation's own events then stand behind them, and the checks it made
on the shorter history are not made again. Where no peer has taken the
idempotency key of one of them in the meantime, the file stays a history that
validation accepts and only grows at its end.
-/

namespace Adro.Runtime

open Adro.Go Adro.Runs Adro.Replica

variable {P : Platform} {j : Journal} {file file' : Option State} {w : World} {e : Event}
  {base : List Event} {j' : Journal} {log : List Event} {d : Draft} {w' : World}
  {changed : Option Handle} {granted : List Lease} {x : Event}

def Handle.added (hd : Handle) : List Event :=
  hd.pending.elim [] fun p => if p.written then [] else p.draft.events.drop hd.journal.events.length

/-- Every new event has an id of its own, and no peer has written the key of one
between the reload of its operation and the write. -/
def World.joins (w : World) (m : Move) : Bool :=
  ((w.draws m).all fun (req, stamps) => unused (logOf w.file) stamps req.size) &&
    match m with
    | .write h true => (w.handle? h).all fun hd => hd.added.all fun e =>
        e.eventID != "" && (logOf w.file).all (·.eventID != e.eventID) &&
          ((logOf w.file).drop hd.journal.events.length).all fun x => !x.clashes e
    | _ => true

def Present (log : List Event) (e : Event) : Prop := ∃ x ∈ log, x.body = e.body

structure Extends (file file' : Option State) : Prop where
  revision : file' = file ∨ revisionOf file < revisionOf file'
  log : logOf file <+: logOf file'

theorem Extends.refl : Extends file file := ⟨.inl rfl, List.prefix_rfl⟩

theorem Extends.reached (h : Extends file file') : revisionOf file ≤ revisionOf file' := by
  rcases h.revision with rfl | hlt
  · exact le_rfl
  · exact hlt.le

theorem Follows.later (h : Follows j file) (hx : Extends file file') : Follows j file' := by
  rcases hx.revision with rfl | hlt
  · exact h
  · exact ⟨h.nonneg, h.tracks.advance hlt hx.log⟩

theorem Follows.of_eq (h0 : 0 ≤ revisionOf file) (hr : j.revision = revisionOf file)
    (he : j.events = logOf file) : Follows j file :=
  ⟨hr ▸ h0, hr ▸ he ▸ Tracks.self⟩

theorem Follows.synced_of_le (h : Follows j file) (hr : revisionOf file ≤ j.revision) :
    j.events = logOf file := h.tracks.synced (le_antisymm h.tracks.reached hr)

section
variable (hk : Kept P file)
include hk

theorem reloadLocked_follows (hf : Follows j file)
    (h : j.reloadLocked P file = .ok j') : Follows j' file ∧ j'.events = logOf file := by
  cases file with
  | none =>
    cases h
    exact ⟨hf, hf.synced_of_le hf.nonneg⟩
  | some st =>
    simp only [Journal.reloadLocked, hk.validate rfl] at h
    cases h
    split
    · rename_i hle
      exact ⟨hf, hf.synced_of_le hle⟩
    · exact ⟨.of_eq hk.nonneg rfl rfl, rfl⟩

theorem opened_follows (h : Journal.opened P file = .ok j) : Follows j file := by
  cases file with
  | none =>
    cases h
    exact .of_eq le_rfl rfl rfl
  | some st =>
    simp only [Journal.opened, hk.validate rfl] at h
    cases h
    exact .of_eq hk.nonneg rfl rfl

theorem reloadFromDiskLocked_follows
    (h : Journal.reloadFromDiskLocked P file = .ok j) : Follows j file := by
  cases file with
  | none => cases h
  | some st =>
    simp only [Journal.reloadFromDiskLocked, hk.validate rfl] at h
    cases h
    exact .of_eq hk.nonneg rfl rfl

theorem reloadFromDiskLocked_ne_error (hpos : 0 < revisionOf file) :
    Journal.reloadFromDiskLocked P file ≠ .error err := by
  cases file with
  | none => simp [revisionOf] at hpos
  | some st => simp [Journal.reloadFromDiskLocked, hk.validate rfl, bind, Except.bind]

end

theorem Present.later (hx : Extends file file') (h : Present (logOf file) e) :
    Present (logOf file') e := by
  obtain ⟨x, hm, hbody⟩ := h
  exact ⟨x, hx.log.subset hm, hbody⟩

theorem Joined.present (h : Joined P file new new') (he : e ∈ new) :
    ∃ x ∈ new', x.body = e.body := by
  have hm : e.body ∈ new'.map Event.body := h.body ▸ List.mem_map_of_mem he
  exact List.mem_map.mp hm

theorem Joined.present_symm (h : Joined P file new new') (he : e ∈ new') :
    ∃ x ∈ new, x.body = e.body := by
  have hm : e.body ∈ new.map Event.body := h.body ▸ List.mem_map_of_mem he
  exact List.mem_map.mp hm

theorem Kept.join (hk : Kept P file) (hf : Follows j file)
    (hn : New P j j.events new) (hj : Joined P file new new')
    (hids : ∀ e ∈ new, e.eventID ≠ "" ∧ ∀ x ∈ logOf file, x.eventID ≠ e.eventID)
    (hkeys : ∀ e ∈ new, ∀ x ∈ (logOf file).drop j.events.length, x.clashes e = false)
    (hev : st.events = logOf file ++ new') (hv : st.version = schemaVersion)
    (hr : st.revision = revisionOf file + 1) : Kept P (some st) := by
  have hlog : logOf (some st) = logOf file ++ new' := hev
  refine ⟨?_, ?_, ?_, fun _ hst => Option.some.inj hst ▸ hv, ?_⟩
  · rw [hlog, linked_append, Nat.add_comm]
    exact ⟨hk.linked, hj.linked fun e he => (hids e he).1⟩
  · have hsame : new'.map (·.eventID) = new.map (·.eventID) := by
      have := congrArg (List.map (·.eventID)) hj.body
      simpa [Function.comp_def, Event.body] using this
    rw [hlog, List.map_append, List.nodup_append, hsame]
    refine ⟨hk.ids, hn.ids, fun a ha b hb => ?_⟩
    obtain ⟨x, hx, rfl⟩ := List.mem_map.mp ha
    obtain ⟨y, hy, rfl⟩ := List.mem_map.mp hb
    exact (hids y hy).2 x hx
  · have hpairs : new'.Pairwise fun x e => x.clashes e = false := by
      have hbody : (new.map Event.body).Pairwise fun x e => x.clashes e = false :=
        List.pairwise_map.mpr hn.keys
      exact List.pairwise_map.mp (hj.body ▸ hbody)
    rw [hlog]
    refine List.pairwise_append.mpr ⟨hk.keys, hpairs, fun x hx y hy => ?_⟩
    obtain ⟨e, he, hbody⟩ := hj.present_symm hy
    have hclash : x.clashes y = x.clashes e :=
      show x.clashes y.body = x.clashes e.body by rw [hbody]
    rw [hclash]
    -- The journal knew the events it had read; the condition is about the others.
    obtain ⟨since, hsince⟩ := hf.tracks.kept
    rw [← hsince, List.drop_left] at hkeys
    rcases List.mem_append.mp (hsince ▸ hx) with hold | hpeer
    · exact hn.apart x hold e he
    · exact hkeys e he x hpeer
  · have := hk.nonneg
    show 0 ≤ st.revision
    omega

inductive Handle.Ok (P : Platform) (file : Option State) : Handle → Prop
  | idle {j : Journal} (hf : Follows j file) : Handle.Ok P file ⟨j, none⟩
  | drafted {j : Journal} {client : Option Nat} {d : Draft} {new : List Event} (hf : Follows j file)
      (hr : ∀ e ∈ d.reply.events, e ∈ d.events) (hd : d.Adds P j new) :
      Handle.Ok P file ⟨j, some ⟨client, d, false⟩⟩
  | written {j : Journal} {client : Option Nat} {d : Draft} (hpos : 0 < revisionOf file)
      (hr : ∀ e ∈ d.reply.events, e ∈ d.events) (hd : ∀ e ∈ d.events, Present (logOf file) e) :
      Handle.Ok P file ⟨j, some ⟨client, d, true⟩⟩

theorem Handle.Ok.later {hd : Handle} (h : hd.Ok P file) (hx : Extends file file') :
    hd.Ok P file' := by
  cases h with
  | idle hf => exact .idle (hf.later hx)
  | drafted hf hr hd => exact .drafted (hf.later hx) hr hd
  | written hpos hr hd =>
    exact .written (hpos.trans_le hx.reached) hr fun e he => (hd e he).later hx

/-- The invariant of a world whose file once held the events `base`. -/
structure World.Inv (P : Platform) (base : List Event) (w : World) : Prop where
  kept : Kept P w.file
  handles : ∀ h hd, w.handle? h = some hd → hd.Ok P w.file
  answers : ∀ a ∈ w.answers, ∀ e ∈ a.reply.events ++ a.events, Present (logOf w.file) e
  grown : base <+: logOf w.file

/-- A draft that joins the file does not repeat an event: that has its id in the file. -/
theorem Draft.Adds.new {new : List Event} (hd : d.Adds P j new) (hf : Follows j file)
    (hids : ∀ e ∈ new, e.eventID ≠ "" ∧ ∀ x ∈ logOf file, x.eventID ≠ e.eventID) :
    New P j j.events new :=
  hd.fresh.resolve_right fun ⟨x, hx, hnew⟩ =>
    (hids x (by simp [hnew])).2 x (hf.tracks.kept.subset hx) rfl

theorem write_file (hk : Kept P file) (hf : Follows j file)
    (hb : Rebased P file j j' d d') (hd : d.Adds P j new)
    (hids : ∀ e ∈ new, e.eventID ≠ "" ∧ ∀ x ∈ logOf file, x.eventID ≠ e.eventID)
    (hkeys : ∀ e ∈ new, ∀ x ∈ (logOf file).drop j.events.length, x.clashes e = false) :
    Kept P (some (j'.contents d')) ∧ Extends file (some (j'.contents d')) ∧
      (∀ e ∈ d.events, Present d'.events e) ∧ (new = [] → d'.events = logOf file) := by
  have hn := hd.new hf hids
  obtain ⟨new', hev, hj⟩ := hb.joined new hd.events hn
  have hr : (j'.contents d').revision =
    revisionOf file + 1 := by simp [Journal.contents, hb.revision]
  refine ⟨hk.join hf hn hj hids hkeys hev rfl hr, ⟨.inr ?_, ?_⟩, fun e he => ?_, fun hnil => ?_⟩
  · show revisionOf file < (j'.contents d').revision
    omega
  · show logOf file <+: d'.events
    exact hev ▸ List.prefix_append _ _
  · rw [hev]
    rcases List.mem_append.mp (hd.events ▸ he) with hold | hnew
    · exact ⟨e, List.mem_append_left _ (hf.tracks.kept.subset hold), rfl⟩
    · obtain ⟨x, hx, hbody⟩ := hj.present hnew
      exact ⟨x, List.mem_append_right _ hx, hbody⟩
  · have hbody : new'.map Event.body = [] := by rw [hj.body, hnil, List.map_nil]
    rw [hev, List.map_eq_nil_iff.mp hbody, List.append_nil]

namespace World

theorem Becomes.inv {answers : List Answer} (hb : w.Becomes w' changed file answers granted)
    (h : w.Inv P base) (hk : Kept P file) (hx : Extends w.file file)
    (hok : ∀ hd, changed = some hd → hd.Ok P file)
    (ha : ∀ a ∈ answers, a ∈ w.answers ∨ ∀ e ∈ a.reply.events ++ a.events, Present (logOf file) e) :
    w'.Inv P base := by
  refine ⟨hb.file ▸ hk, fun i hd hi => ?_, fun a hm => ?_, hb.file ▸ h.grown.trans hx.log⟩
  · rw [hb.file]
    rcases hb.handles i hd hi with hnew | hold
    · exact hok hd hnew
    · exact (h.handles i hd hold).later hx
  · rw [hb.file]
    rcases ha a (hb.answers ▸ hm) with hold | hnew
    · exact fun e he => (h.answers a hold e he).later hx
    · exact hnew

theorem Becomes.inv_same (hb : w.Becomes w' changed w.file w.answers granted) (h : w.Inv P base)
    (hok : ∀ hd, changed = some hd → hd.Ok P w.file) : w'.Inv P base :=
  hb.inv h h.kept .refl hok fun _ => .inl

theorem joins_write (hj : w.handle? h = some ⟨j, some ⟨client, d, false⟩⟩) (hd : d.Adds P j new)
    (hc : w.joins (.write h true) = true) :
    (∀ e ∈ new, e.eventID ≠ "" ∧ ∀ x ∈ logOf w.file, x.eventID ≠ e.eventID) ∧
      ∀ e ∈ new, ∀ x ∈ (logOf w.file).drop j.events.length, x.clashes e = false := by
  simp only [joins, draws, Option.all_none, Bool.true_and, hj, Option.all_some, Handle.added,
    Option.elim_some, hd.events, List.drop_left, List.all_eq_true,
    Bool.and_eq_true, bne_iff_ne, Bool.not_eq_true'] at hc
  exact ⟨fun e he => (hc e he).1, fun e he => (hc e he).2⟩

theorem Inv.move (hw : w.Inv P base) (hc : w.joins m = true) : (w.move P m).Inv P base := by
  have hidle {j : Journal} (hf : Follows j w.file) (hd : Handle) (hh : some ⟨j, none⟩ = some hd) :
      hd.Ok P w.file := Option.some.inj hh ▸ .idle hf
  cases move_step with
  | quiet hb => exact hb.inv_same hw (by simp)
  | opened j ho hb => exact hb.inv_same hw (hidle (opened_follows hw.kept ho))
  | refused h j j' hj hr hb =>
    obtain ⟨hf⟩ := hw.handles h _ hj
    exact hb.inv_same hw (hidle (reloadLocked_follows hw.kept hf hr).1)
  | found h j j' req stamps reply hj hr hd hb =>
    obtain ⟨hf⟩ := hw.handles h _ hj
    obtain ⟨hf', hev⟩ := reloadLocked_follows hw.kept hf hr
    refine hb.inv hw hw.kept .refl (hidle hf') fun a ha => ?_
    rcases List.mem_cons.mp ha with rfl | hold
    · cases draft_drawn hd with
      | found x hm =>
        refine .inr fun e he => ⟨e, hev ▸ ?_, rfl⟩
        obtain rfl : e = x := by simpa [Reply.events] using he
        exact hm
    · exact .inl hold
  | drafted h j j' req stamps client d hj hr hs hd hb =>
    obtain ⟨hf⟩ := hw.handles h _ hj
    obtain ⟨hf', hev⟩ := reloadLocked_follows hw.kept hf hr
    obtain ⟨new, hadds⟩ := (draft_drawn hd).adds
    have hun : unused j'.events stamps req.size = true := by
      unfold joins at hc
      rw [hs, Bool.and_eq_true] at hc
      exact hev ▸ hc.1
    refine hb.inv_same hw fun hd' hh => ?_
    exact Option.some.inj hh ▸ .drafted hf' ((draft_drawn hd).answers hun) hadds
  | dropped h j client d hj hb =>
    obtain ⟨hf⟩ | ⟨hf, hr, hd⟩ := hw.handles h _ hj
    exact hb.inv_same hw (hidle hf)
  | failed h j j' client d d' hj hm hcand hb =>
    obtain ⟨hf⟩ | ⟨hf, hr, hd⟩ := hw.handles h _ hj
    have hre := candidateLocked_ok hw.kept hf hcand
    exact hb.inv_same hw (hidle (.of_eq hw.kept.nonneg hre.revision hre.events))
  | released h j j' client d d' hj hm hcand hk hb =>
    obtain ⟨hf⟩ | ⟨hf, hr, hd⟩ := hw.handles h _ hj
    subst hm
    have hre := candidateLocked_ok hw.kept hf hcand
    obtain ⟨hids, hkeys⟩ := joins_write hj hd hc
    obtain ⟨hkept, hx, hp, hsame⟩ := write_file hw.kept hf hre hd hids hkeys
    refine hb.inv hw hkept hx (fun hd' hh => ?_) fun a ha => ?_
    · -- A release adds nothing, so its journal is at file.
      have hev : j'.events = d'.events := hre.events.trans (hsame (hd.release hk)).symm
      exact Option.some.inj hh ▸ .idle (.of_eq hkept.nonneg rfl hev)
    · rcases List.mem_cons.mp ha with rfl | hold
      · exact .inr fun e he => hp e (hr e (by simpa using he))
      · exact .inl hold
  | written h j j' client d d' hj hm hcand hk hb =>
    obtain ⟨hf⟩ | ⟨hf, hr, hd⟩ := hw.handles h _ hj
    subst hm
    have hre := candidateLocked_ok hw.kept hf hcand
    obtain ⟨hids, hkeys⟩ := joins_write hj hd hc
    obtain ⟨hkept, hx, hp, -⟩ := write_file hw.kept hf hre hd hids hkeys
    refine hb.inv hw hkept hx (fun hd' hh => Option.some.inj hh ▸ .written ?_ hr hp) fun _ => .inl
    have := hw.kept.nonneg
    show 0 < j'.revision + 1
    rw [hre.revision]
    omega
  | unread h j client d err hj hr hb =>
    obtain ⟨hf⟩ | ⟨hf, hr, hd⟩ | ⟨hpos, -, -⟩ := hw.handles h _ hj
    exact absurd hr (reloadFromDiskLocked_ne_error hw.kept hpos)
  | refreshed h j j' client d answers hj hr ha hb =>
    obtain ⟨hf⟩ | ⟨hf, hr, hd⟩ | ⟨hpos, hreply, hd⟩ := hw.handles h _ hj
    refine hb.inv hw hw.kept .refl (hidle (reloadFromDiskLocked_follows hw.kept hr)) fun a hm => ?_
    rcases ha with rfl | rfl
    · exact .inl hm
    · rcases List.mem_cons.mp hm with rfl | hold
      · refine .inr fun e he => ?_
        rcases List.mem_append.mp he with he | he
        · exact hd e (hreply e he)
        · exact hd e he
      · exact .inl hold

theorem inv_empty : ({} : World).Inv P [] where
  kept := ⟨trivial, List.nodup_nil, List.Pairwise.nil, by simp, le_rfl⟩
  handles h hd hh := by simp [World.handle?] at hh
  answers a ha := by simp at ha
  grown := List.prefix_rfl

end World

theorem Event.clashes_comm : x.clashes e = e.clashes x := by
  rw [Bool.eq_iff_iff]
  simp only [Event.clashes, Bool.and_eq_true, beq_iff_eq]
  constructor
  · rintro ⟨⟨hne, hkey⟩, hscope⟩
    exact ⟨⟨hkey ▸ hne, hkey.symm⟩, hscope.symm⟩
  · rintro ⟨⟨hne, hkey⟩, hscope⟩
    exact ⟨⟨hkey ▸ hne, hkey.symm⟩, hscope.symm⟩

theorem eq_of_clashes (hk : log.Pairwise fun x e => x.clashes e = false) (hx : x ∈ log)
    (he : e ∈ log) (h : x.clashes e = true) : x = e := by
  have : Std.Symm fun x e :
    Event => x.clashes e = false := ⟨fun x e h => Event.clashes_comm.trans h⟩
  by_contra hne
  exact Bool.noConfusion (h.symm.trans (hk.forall hx he hne))

/-- The request has the key of the event, and what is compared with it. -/
def Input.repeats (P : Platform) (input : Input) (e : Event) : Bool :=
  let input := input.completed
  input.check.isOk && Event.hasKey input e && P.payloadDigest input.payload == some e.payloadHash &&
    e.eventType == input.eventType && e.aggregateID == input.aggregateID

theorem prepareLocked_repeats
    (hk : log.Pairwise fun x e => x.clashes e = false) (he : e ∈ log)
    (h : input.repeats P e = true) :
    j.prepareLocked P log input stamp = .ok e := by
  simp only [Input.repeats] at h
  simp only [Journal.prepareLocked]
  generalize input.completed = input at h
  simp only [Bool.and_eq_true, beq_iff_eq] at h
  obtain ⟨⟨⟨⟨hcheck, hkey⟩, hdigest⟩, htype⟩, hagg⟩ := h
  have hcheck : input.check = .ok () := by
    cases hc : input.check with
    | error err => simp [hc, Except.toBool] at hcheck
    | ok u => rfl
  have hfind : log.find? (Event.hasKey input) = some e := by
    cases hf : log.find? (Event.hasKey input) with
    | none => exact absurd hkey (List.find?_eq_none.mp hf e he)
    | some x =>
      have hx := List.find?_some hf
      simp only [Event.hasKey, Bool.and_eq_true, beq_iff_eq] at hkey hx
      have hclash : x.clashes e = true := by simp [Event.clashes, hkey, hx]
      rw [eq_of_clashes hk (List.mem_of_find?_eq_some hf) he hclash]
  simp [hcheck, encoded, hdigest, hfind, htype, hagg, bind, Except.bind, ensure]

/-- On a journal at the end of the history, an append made again comes to the
event there is, and no operation at all answers with a second event of a key. -/
structure Journal.Retries (P : Platform) (log : List Event) (j : Journal) : Prop where
  append : ∀ e ∈ log, ∀ (input : Input) (stamps : Nat → Stamp), input.repeats P e = true →
    ∃ d, j.draft P stamps (.append [input]) = .ok (.inr d) ∧ d.reply.events = [e] ∧
    d.events = j.events
  unique : ∀ (req : Request) (stamps : Nat → Stamp) (answer : Reply ⊕ Draft),
    unused j.events stamps req.size = true → j.draft P stamps req = .ok answer →
      ∀ x ∈ (answer.elim id (·.reply)).events, ∀ e ∈ log, e.clashes x = true → x = e

theorem retries_of_keys (hk : j.events.Pairwise fun x e => x.clashes e = false)
    (hlog : log <+: j.events) : j.Retries P log := by
  refine ⟨fun e he input stamps hr => ?_, fun req stamps answer hs hdraft x hx e he hc => ?_⟩
  · have hprep : j.prepareLocked P j.events input (stamps 0) = .ok e :=
      prepareLocked_repeats hk (hlog.subset he) hr
    have hany : j.events.any (·.eventID == e.eventID) = true :=
      List.any_eq_true.mpr ⟨e, hlog.subset he, beq_self_eq_true _⟩
    refine ⟨⟨.batch, j.events, j.leases, j.effects, .event e⟩, ?_, rfl, rfl⟩
    simp [Journal.draft, Journal.appendBatchLocked, Journal.draftBatch, hprep, hany,
      bind, Except.bind,
      ensure]
  · have hold (hm : x ∈ j.events) : x = e := (eq_of_clashes hk (hlog.subset he) hm hc).symm
    have hdrawn := draft_drawn hdraft
    cases answer with
    | inl reply =>
      cases hdrawn with
      | found y hm => exact hold (List.mem_singleton.mp hx ▸ hm)
    | inr d =>
      obtain ⟨new, hadds⟩ := hdrawn.adds
      rcases List.mem_append.mp (hadds.events ▸ hdrawn.answers hs x hx) with hm | hm
      · exact hold hm
      · rcases hadds.fresh with hn | ⟨y, hy, rfl⟩
        · exact Bool.noConfusion (hc.symm.trans (hn.apart e (hlog.subset he) x hm))
        · exact hold (List.mem_singleton.mp hm ▸ hy)

namespace Sample

def platform : Platform :=
  ⟨fun _ => some "payload", fun e => "envelope of " ++ e.eventID ++ e.previousHash, id, id⟩

def scope : Scope := ⟨"tenant", "workspace", "session", "run"⟩

def stamps (name : String) (clock : Time) : Nat → Stamp :=
  fun n => ⟨name ++ toString n, clock, clock⟩

def noted (key : String) : Request :=
  .append [
    { eventType := .toolFailed
      aggregateType := "tool"
      aggregateID := "call"
      scope := scope
      idempotencyKey := key }]

/-- Two processes append at once, each an event with its key. -/
def race (key key' : String) : List Move :=
  [.openJournal, .openJournal, .request 0 (noted key) (stamps "a" 1),
    .request 1 (noted key') (stamps "b" 1),
    .write 0 true, .refresh 0, .write 1 true, .refresh 1]

end Sample

end Adro.Runtime
