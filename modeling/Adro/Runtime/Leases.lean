import Adro.Runtime.Shared

/-!
# Leases and fencing tokens

A journal that finds the file advanced writes its cached leases over those in
the file, and a release forgets the token. Where every write meets the revision
its journal has read and none is a release, the tokens of a run's leases grow
and fence the events of its earlier owners off.
-/

namespace Adro.Runtime

open Adro.Go Adro.Runs

variable {P : Platform} {j : Journal} {file : Option State} {w w' : World} {granted : List Lease}

def leasesOf (file : Option State) : GoMap Lease := file.elim ∅ (·.leases)

/-- Every write is made at the revision its journal has read, none forgets a lease,
and a token has a successor. -/
def World.steady (w : World) : Move → Bool
  | .write h succeeds => (w.handle? h).all fun hd => hd.pending.all fun p => p.written ||
      hd.journal.revision == revisionOf w.file && (!succeeds || p.draft.kind != .release &&
        p.draft.reply.leases.all fun l => (leasesOf w.file)[l.key]?.all (·.fencingToken < maxInt64))
  | _ => true

/-- The leases a journal has are those of the file at its revision, and of keys
that the file still has. -/
structure Cached (j : Journal) (file : Option State) : Prop where
  reached : j.revision ≤ revisionOf file
  synced : j.revision = revisionOf file → j.leases = leasesOf file
  known : ∀ key : String, j.leases[key]?.isSome → (leasesOf file)[key]?.isSome

theorem Cached.of_eq (hr : j.revision = revisionOf file) (hl : j.leases = leasesOf file) :
    Cached j file := ⟨hr.le, fun _ => hl, fun _ => hl ▸ id⟩

theorem Cached.later (h : Cached j file) (hx : file' = file ∨ revisionOf file < revisionOf file')
    (hk : ∀ key : String, (leasesOf file)[key]?.isSome → (leasesOf file')[key]?.isSome) :
    Cached j file' := by
  rcases hx with rfl | hlt
  · exact h
  · have hbehind := h.reached.trans_lt hlt
    exact ⟨hbehind.le, fun heq => absurd heq hbehind.ne, fun key hkey => hk key (h.known key hkey)⟩

theorem reloadLocked_cached (hk : Kept P file) (hc : Cached j file)
    (h : j.reloadLocked P file = .ok j') : Cached j' file := by
  cases file with
  | none =>
    cases h
    exact hc
  | some st =>
    simp only [Journal.reloadLocked, hk.validate rfl] at h
    cases h
    split
    · exact hc
    · refine .of_eq rfl ?_
      -- A journal has no leases where the file has none.
      by_cases hempty : st.leases.isEmpty = true
      · have hnone : j.leases = ∅ := by
          ext1 key
          have hst : st.leases = ∅ := Std.ExtTreeMap.isEmpty_iff.mp hempty
          have hkey := hc.known key
          simp only [leasesOf, Option.elim_some, hst] at hkey
          cases hl : j.leases[key]? with
          | none => simp
          | some l => simp [hl] at hkey
        simp only [hempty, hnone]
        exact (Std.ExtTreeMap.isEmpty_iff.mp hempty).symm
      · simp [hempty, leasesOf]

theorem opened_cached (hk : Kept P file) (h : Journal.opened P file = .ok j) : Cached j file := by
  cases file with
  | none =>
    cases h
    exact .of_eq rfl rfl
  | some st =>
    simp only [Journal.opened, hk.validate rfl] at h
    cases h
    exact .of_eq rfl rfl

theorem reloadFromDiskLocked_cached (hk : Kept P file)
    (h : Journal.reloadFromDiskLocked P file = .ok j) : Cached j file := by
  cases file with
  | none => cases h
  | some st =>
    simp only [Journal.reloadFromDiskLocked, hk.validate rfl] at h
    cases h
    exact .of_eq rfl rfl

inductive Handle.Fenced (P : Platform) (file : Option State) (granted : List Lease) : Handle → Prop
  | idle {j : Journal} (hc : Cached j file) : Handle.Fenced P file granted ⟨j, none⟩
  | drafted {j : Journal} {client : Option Nat} {d : Draft} {stamps : Nat → Stamp} {n : Nat}
      (hc : Cached j file) (hd : Drawn P j stamps n (.inr d)) :
      Handle.Fenced P file granted ⟨j, some ⟨client, d, false⟩⟩
  | written {j : Journal} {client : Option Nat} {d : Draft}
      (hg : ∀ l ∈ d.reply.leases, l ∈ granted) :
      Handle.Fenced P file granted ⟨j, some ⟨client, d, true⟩⟩

theorem Handle.Fenced.later {hd : Handle} (h : hd.Fenced P file granted)
    (hx : file' = file ∨ revisionOf file < revisionOf file')
    (hk : ∀ key : String, (leasesOf file)[key]?.isSome → (leasesOf file')[key]?.isSome)
    (hg : granted ⊆ granted') : hd.Fenced P file' granted' := by
  cases h with
  | idle hc => exact .idle (hc.later hx hk)
  | drafted hc hd => exact .drafted (hc.later hx hk) hd
  | written hd => exact .written fun l hl => hg (hd l hl)

/-- The stored leases have the highest tokens there were. -/
structure Stored (file : Option State) (granted : List Lease) : Prop where
  positive : ∀ (key : String) (l : Lease), (leasesOf file)[key]? = some l → 0 < l.fencingToken
  highest : ∀ l ∈ granted, ∃ held, (leasesOf file)[l.key]? = some held ∧
    l.fencingToken ≤ held.fencingToken
  order : granted.Pairwise fun newer older =>
    newer.key = older.key → older.fencingToken < newer.fencingToken

structure World.Fenced (P : Platform) (w : World) : Prop where
  stored : Stored w.file w.granted
  handles : ∀ i hd, w.handle? i = some hd → hd.Fenced P w.file w.granted
  answered : ∀ a ∈ w.answers, ∀ l ∈ a.reply.leases, l ∈ w.granted

/-- What a step may do to the leases and to a run's events. -/
structure World.Guards (w w' : World) : Prop where
  lease : ∀ key : String, (leasesOf w'.file)[key]? = (leasesOf w.file)[key]? ∨
    ∃ l, l.key = key ∧ w'.granted = l :: w.granted ∧ (leasesOf w'.file)[key]? = some l ∧
      ∀ held, (leasesOf w.file)[key]? = some held →
        held.owner = l.owner ∨ held.expiresAt ≤ l.updatedAt
  events : ∀ e ∈ (logOf w'.file).drop (logOf w.file).length, 0 < e.fencingToken →
    ∀ l ∈ w.granted, l.key = e.scope.leaseKey → l.fencingToken ≤ e.fencingToken

theorem World.Becomes.guards {answers : List Answer}
    (hb : w.Becomes w' changed w.file answers granted) : w.Guards w' :=
  ⟨fun key => .inl (by rw [hb.file]), by simp [hb.file]⟩

theorem World.Becomes.fenced {answers : List Answer}
    (hb : w.Becomes w' changed w.file answers w.granted) (h : w.Fenced P)
    (hok : ∀ hd, changed = some hd → hd.Fenced P w.file w.granted)
    (ha : ∀ a ∈ answers, a ∈ w.answers ∨ ∀ l ∈ a.reply.leases, l ∈ w.granted) : w'.Fenced P := by
  refine ⟨?_, fun i hd hi => ?_, fun a hm => ?_⟩
  · rw [hb.file, hb.granted]
    exact h.stored
  · rw [hb.file, hb.granted]
    rcases hb.handles i hd hi with hnew | hold
    · exact hok hd hnew
    · exact h.handles i hd hold
  · rw [hb.granted]
    rcases ha a (hb.answers ▸ hm) with hold | hnew
    · exact h.answered a hold
    · exact hnew

theorem Drawn.leases (h : Drawn P j stamps n (.inr d))
    (hk : d.kind ≠ .release) : d.leases = j.leases ∧ d.reply.leases = [] ∨
      ∃ l, d.reply.leases = [l] ∧ d.leases = j.leases.insert l.key l ∧
        l.fencingToken = i64 ((j.leases[l.key]?.map (·.fencingToken)).getD 0 + 1) ∧
        ∀ held, j.leases[l.key]? = some held → held.owner = l.owner ∨
        held.expiresAt ≤ l.updatedAt := by
  cases h with
  | batch inputs events last hn h => cases last <;> exact .inl ⟨rfl, rfl⟩
  | intent input key e hn h => exact .inl ⟨rfl, rfl⟩
  | acquired key lease hkey token free =>
    subst hkey
    exact .inr ⟨lease, rfl, rfl, token, free⟩
  | released key => exact absurd rfl hk

theorem Stored.grant (h : Stored file granted)
    (htoken : l.fencingToken = i64 (((leasesOf file)[l.key]?.map (·.fencingToken)).getD 0 + 1))
    (hmax : (leasesOf file)[l.key]?.all (·.fencingToken < maxInt64) = true)
    (hl : leasesOf file' = (leasesOf file).insert l.key l) : Stored file' (l :: granted) := by
  have hget (key : String) :
    (leasesOf file')[key]? = if l.key = key then some l else (leasesOf file)[key]? := by
    rw [hl]
    exact GoMap.get_set
  -- The token is above every stored one of its key, and the first one is 1.
  have hpos : 0 < l.fencingToken ∧ ∀ held, (leasesOf file)[l.key]? = some held →
      held.fencingToken < l.fencingToken := by
    cases hheld : (leasesOf file)[l.key]? with
    | none =>
      rw [hheld] at htoken
      exact ⟨htoken ▸ by decide, by simp⟩
    | some held =>
      have hp := h.positive _ _ hheld
      rw [hheld, Option.all_some, decide_eq_true_eq] at hmax
      rw [hheld, Option.map_some, Option.getD_some, i64_eq (by omega) (by omega)] at htoken
      refine ⟨by omega, fun x hx => ?_⟩
      cases hx
      omega
  refine ⟨fun key x hx => ?_, fun x hx => ?_, List.pairwise_cons.mpr ⟨fun x hx hkey => ?_, h.order⟩⟩
  · rw [hget] at hx
    split at hx
    · exact Option.some.inj hx ▸ hpos.1
    · exact h.positive key x hx
  · rcases List.mem_cons.mp hx with rfl | hx
    · exact ⟨x, by simp [hget], le_rfl⟩
    · obtain ⟨held, hheld, hle⟩ := h.highest x hx
      by_cases hkey : l.key = x.key
      · exact ⟨l, by simp [hget, hkey], hle.trans (hpos.2 held (hkey ▸ hheld)).le⟩
      · exact ⟨held, by simp [hget, hkey, hheld], hle⟩
  · obtain ⟨held, hheld, hle⟩ := h.highest x hx
    exact hle.trans_lt (hpos.2 held (hkey ▸ hheld))

section

variable {d : Draft}

theorem steady_write {succeeds : Bool} (hj : w.handle? h = some ⟨j, some ⟨client, d, false⟩⟩)
    (hc : w.steady (.write h succeeds) = true) : j.revision = revisionOf w.file ∧
      (succeeds = true → d.kind ≠ .release ∧ ∀ l ∈ d.reply.leases,
        (leasesOf w.file)[l.key]?.all (·.fencingToken < maxInt64) = true) := by
  simp only [World.steady, hj, Option.all_some, Bool.false_or, Bool.and_eq_true, beq_iff_eq,
    Bool.or_eq_true, bne_iff_ne, List.all_eq_true] at hc
  exact ⟨hc.1, fun ht => hc.2.resolve_left (by simp [ht])⟩

/-- The leases after a write at the revision that was read. -/
structure Leads (file : Option State) (granted : List Lease) (d : Draft) : Prop where
  keys : ∀ key : String, (leasesOf file)[key]?.isSome → d.leases[key]?.isSome
  lease : ∀ key : String, d.leases[key]? = (leasesOf file)[key]? ∨
    ∃ l, l.key = key ∧ d.reply.leases = [l] ∧ d.leases[key]? = some l ∧
      ∀ held, (leasesOf file)[key]? = some held → held.owner = l.owner ∨
      held.expiresAt ≤ l.updatedAt
  stored : ∀ st : State, st.leases = d.leases → Stored (some st) (d.reply.leases ++ granted)

theorem Drawn.leads (hd : Drawn P j stamps n (.inr d))
    (hs : Stored file granted) (hl : j.leases = leasesOf file) (hk : d.kind ≠ .release)
    (hmax : ∀ l ∈ d.reply.leases, (leasesOf file)[l.key]?.all (·.fencingToken < maxInt64) = true) :
    Leads file granted d := by
  rcases hd.leases hk with ⟨hsame, hnone⟩ | ⟨l, hreply, hins, htoken, hfree⟩
  · have hsame : d.leases = leasesOf file := hsame.trans hl
    refine ⟨fun key => hsame ▸ id, fun key => .inl (hsame ▸ rfl), fun st hst => ?_⟩
    have hst : leasesOf (some st) = leasesOf file := hst.trans hsame
    rw [hnone]
    exact ⟨hst ▸ hs.positive, hst ▸ hs.highest, hs.order⟩
  · rw [hl] at hins htoken hfree
    refine ⟨fun key hkey => ?_, fun key => ?_, fun st hst => ?_⟩
    · rw [hins, GoMap.get_set]
      split
      · rfl
      · exact hkey
    · by_cases hkey : l.key = key
      · exact .inr ⟨l, hkey, hreply, by rw [hins, GoMap.get_set, if_pos hkey], hkey ▸ hfree⟩
      · exact .inl (by rw [hins, GoMap.get_set, if_neg hkey])
    · rw [hreply]
      exact hs.grant htoken (hmax l (by simp [hreply])) (hst.trans hins)

theorem New.fenced (hn : New P j j.events new)
    (hs : Stored file granted) (hl : j.leases = leasesOf file) (he : e ∈ new)
    (hpos : 0 < e.fencingToken) (hm : l ∈ granted) (hkey : l.key = e.scope.leaseKey) :
    l.fencingToken ≤ e.fencingToken := by
  obtain ⟨now, hleased⟩ := hn.leased e he hpos
  obtain ⟨held, hheld, hle⟩ := hs.highest l hm
  rw [Journal.leased, hl, ← hkey, hheld, Option.any_some] at hleased
  simp only [Lease.grants, Bool.and_eq_true, beq_iff_eq] at hleased
  exact hleased.1.2 ▸ hle

theorem World.Becomes.write (hf : w.Fenced P)
    (hrev : j.revision = revisionOf w.file) (hl : Leads w.file w.granted d) (hfo : Follows j w.file)
    (hd : d.events = j.events ++ new)
    (hnew : ∀ e ∈ new, 0 < e.fencingToken → ∀ l ∈ w.granted, l.key = e.scope.leaseKey →
      l.fencingToken ≤ e.fencingToken)
    (hb : w.Becomes w' (some ⟨{ j with revision := j.revision + 1 }, some ⟨client, d, true⟩⟩)
      (some (j.contents d)) w.answers (d.reply.leases ++ w.granted)) :
    w'.Fenced P ∧ w.Guards w' := by
  have hnext : revisionOf w.file < revisionOf (some (j.contents d)) := by
    show _ < j.revision + 1
    omega
  have hsub : w.granted ⊆ d.reply.leases ++ w.granted := List.subset_append_right _ _
  refine ⟨⟨?_, fun i hd' hi => ?_, fun a ha l hm => ?_⟩, ⟨fun key => ?_, ?_⟩⟩
  · rw [hb.file, hb.granted]
    exact hl.stored _ rfl
  · rw [hb.file, hb.granted]
    rcases hb.handles i hd' hi with hnew | hold
    · exact Option.some.inj hnew ▸ .written fun l hm => List.mem_append_left _ hm
    · exact (hf.handles i hd' hold).later (.inr hnext) hl.keys hsub
  · rw [hb.granted]
    exact hsub (hf.answered a (hb.answers ▸ ha) l hm)
  · rw [hb.file, hb.granted]
    refine (hl.lease key).imp_right fun ⟨l, hkey, hreply, hget, hfree⟩ => ⟨l, hkey, ?_, hget, hfree⟩
    rw [hreply, List.singleton_append]
  · have hlog : (logOf w'.file).drop (logOf w.file).length = new := by
      rw [hb.file, ← hfo.tracks.synced hrev]
      show d.events.drop _ = _
      rw [hd, List.drop_left]
    exact hlog ▸ hnew

end

theorem World.Fenced.move (hw : w.Inv P []) (hf : w.Fenced P) (hjoin : w.joins m = true)
    (hc : w.steady m = true) : (w.move P m).Fenced P ∧ w.Guards (w.move P m) := by
  have hidle {j : Journal} (hc : Cached j w.file) (hd : Handle) (hh : some ⟨j, none⟩ = some hd) :
      hd.Fenced P w.file w.granted := Option.some.inj hh ▸ .idle hc
  have hsame (a : Answer) (ha : a ∈ w.answers) :
      a ∈ w.answers ∨ ∀ l ∈ a.reply.leases, l ∈ w.granted := .inl ha
  cases move_step with
  | quiet hb => exact ⟨hb.fenced hf (by simp) hsame, hb.guards⟩
  | opened j ho hb => exact ⟨hb.fenced hf (hidle (opened_cached hw.kept ho)) hsame, hb.guards⟩
  | refused h j j' hj hr hb =>
    obtain ⟨hcached⟩ := hf.handles h _ hj
    exact ⟨hb.fenced hf (hidle (reloadLocked_cached hw.kept hcached hr)) hsame, hb.guards⟩
  | found h j j' req stamps reply hj hr hd hb =>
    obtain ⟨hcached⟩ := hf.handles h _ hj
    refine ⟨hb.fenced hf (hidle (reloadLocked_cached hw.kept hcached hr)) fun a ha => ?_, hb.guards⟩
    rcases List.mem_cons.mp ha with rfl | hold
    · cases draft_drawn hd with
      | found x hm => exact .inr (by simp [Reply.leases])
    · exact .inl hold
  | drafted h j j' req stamps client d hj hr hs hd hb =>
    obtain ⟨hcached⟩ := hf.handles h _ hj
    refine ⟨hb.fenced hf (fun hd' hh => ?_) hsame, hb.guards⟩
    exact Option.some.inj hh ▸ .drafted (reloadLocked_cached hw.kept hcached hr) (draft_drawn hd)
  | dropped h j client d hj hb =>
    obtain ⟨hcached⟩ | ⟨hcached, hd⟩ := hf.handles h _ hj
    exact ⟨hb.fenced hf (hidle hcached) hsame, hb.guards⟩
  | failed h j j' client d d' hj hm hcand hb =>
    obtain ⟨hcached⟩ | ⟨hcached, hd⟩ := hf.handles h _ hj
    subst hm
    rw [candidateLocked_self hw.kept (steady_write hj hc).1] at hcand
    cases hcand
    exact ⟨hb.fenced hf (hidle hcached) hsame, hb.guards⟩
  | released h j j' client d d' hj hm hcand hk hb =>
    subst hm
    exact absurd hk ((steady_write hj hc).2 rfl).1
  | written h j j' client d d' hj hm hcand hk hb =>
    obtain ⟨hcached⟩ | ⟨hcached, hd⟩ := hf.handles h _ hj
    subst hm
    obtain ⟨hrev, hrest⟩ := steady_write hj hc
    obtain ⟨hk, hmax⟩ := hrest rfl
    rw [candidateLocked_self hw.kept hrev] at hcand
    cases hcand
    have hl := hcached.synced hrev
    obtain ⟨hfo⟩ | ⟨hfo, -, hadds⟩ := hw.handles h _ hj
    have hn := hadds.new hfo (joins_write hj hadds hjoin).1
    exact hb.write hf hrev (hd.leads hf.stored hl hk hmax) hfo hadds.events fun e he hpos l =>
      hn.fenced hf.stored hl he hpos
  | unread h j client d err hj hr hb =>
    obtain ⟨hfo⟩ | ⟨hfo, hr, hd⟩ | ⟨hpos, -, -⟩ := hw.handles h _ hj
    exact absurd hr (reloadFromDiskLocked_ne_error hw.kept hpos)
  | refreshed h j j' client d answers hj hr ha hb =>
    obtain ⟨hcached⟩ | ⟨hcached, hd⟩ | hg := hf.handles h _ hj
    refine ⟨hb.fenced hf (hidle (reloadFromDiskLocked_cached hw.kept hr)) fun a hm => ?_, hb.guards⟩
    rcases ha with rfl | rfl
    · exact .inl hm
    · rcases List.mem_cons.mp hm with rfl | hold
      · exact .inr hg
      · exact .inl hold

theorem fenced_empty : ({} : World).Fenced P where
  stored := ⟨fun key l h => by simp [leasesOf] at h, by simp, List.Pairwise.nil⟩
  handles i hd hi := by simp [World.handle?] at hi
  answered a ha := by simp at ha

/-- In every run of steady moves: the tokens granted for a run grow in the order
they are written, and only granted leases are answered; a move changes a stored
lease only by granting one for its key, to another owner only once it has run
out; and no event it writes has a token below one granted for its run before. -/
theorem lease_fencing {run : List Move} {m : Move}
    (h : Meets (World.move P) (fun w m => w.joins m = true ∧ w.steady m = true) {} (run ++ [m])) :
    let w := exec (World.move P) {} run
    w.granted.Pairwise (fun newer older => newer.key = older.key →
        older.fencingToken < newer.fencingToken) ∧
      (∀ a ∈ w.answers, ∀ l ∈ a.reply.leases, l ∈ w.granted) ∧ w.Guards (w.move P m) := by
  intro w
  obtain ⟨hrun, hjoin, hc⟩ := meets_concat.mp h
  obtain ⟨hw, hf⟩ : w.Inv P [] ∧ w.Fenced P := by
    refine invariant (I := fun w => w.Inv P [] ∧ w.Fenced P) ⟨World.inv_empty, fenced_empty⟩
      (fun w m hI hok => ?_) hrun
    exact ⟨hI.1.move hok.1, (hI.2.move hI.1 hok.1 hok.2).1⟩
  exact ⟨hf.stored.order, hf.answered, (hf.move hw hjoin hc).2⟩

namespace Sample

def acquire (owner : String) (now : Time) : Request := .acquireLease scope owner 1 now now

def whole (h : Nat) (req : Request) (name : String) : List Move :=
  [.request h req (stamps name 1), .write h true, .refresh h]

/-- Two owners take the lease, the second when the first's has run out. -/
def takeover : List Move :=
  [.openJournal, .openJournal] ++ whole 0 (acquire "a" 1) "a" ++ whole 1 (acquire "b" 5) "b"

/-- An append that has read the first owner's lease is written after the takeover. -/
def overwritten : List Move :=
  [.openJournal, .openJournal] ++ whole 0 (acquire "a" 1) "a" ++
    [.request 1 (noted "k") (stamps "n" 1)] ++ whole 0 (acquire "b" 5) "b" ++ [.write 1 true]

end Sample

/-- A takeover is answered with the next token. -/
theorem takeover_fenced :
    let w := exec (World.move Sample.platform) {} Sample.takeover
    w.Guards (w.move Sample.platform .openJournal) ∧ w.granted.map (·.fencingToken) = [2, 1] := by
  have hmeets : Meets (World.move Sample.platform)
    (fun w m => w.joins m = true ∧ w.steady m = true) {}
      (Sample.takeover ++ [.openJournal]) := by decide +kernel
  exact ⟨(lease_fencing hmeets).2.2, by decide +kernel⟩

/-- The append puts the first owner's lease back over the second's, and the next
owner is granted the second's token again. -/
theorem lease_overwritten :
    let w := exec (World.move Sample.platform) {} Sample.overwritten
    let w' := exec (World.move Sample.platform) {}
      (Sample.overwritten ++ [.refresh 1] ++ Sample.whole 0 (Sample.acquire "c" 9) "c")
    w.granted.map (fun l => (l.owner, l.fencingToken)) = [("b", 2), ("a", 1)] ∧
      (leasesOf w.file)[Sample.scope.leaseKey]?.map (fun l => (l.owner, l.fencingToken)) =
        some ("a", 1) ∧
      w'.granted.map (fun l => (l.owner, l.fencingToken)) = [("c", 2), ("b", 2), ("a", 1)] := by
  decide +kernel

end Adro.Runtime
