import Adro.Control.Atomic

/-!
# Repositories on one storage

Several processes have a repository open on the same file, or on the same row of a
database. Each keeps the maps of the snapshot it has read and its revision, and
replaces the snapshot only when the stored revision is still that one. A file is
read once, when it is opened; a database row is also read again before each
attempt of a mutation, and an attempt that fails puts copies of the maps back.

The JSON package is a parameter: what it writes it can read, and what it has read
it writes and reads again as the same value.
-/

namespace Adro.Control

open Adro.Go Adro.Orchestration Adro.Runs

structure Tables where
  plans : GoMap RequirementExecutionPlan := ∅
  projections : GoMap PlanProjection := ∅
  keys : GoMap String := ∅
  events : GoMap (List Event) := ∅
  agents : GoMap AgentDefinition := ∅
  squads : GoMap SquadDefinition := ∅
  outbox : GoMap OutboxRecord := ∅

def Repository.tables (r : Repository) : Tables where
  plans := r.plans
  projections := r.projections
  keys := r.keys
  events := r.events
  agents := r.agents
  squads := r.squads
  outbox := r.outbox

def Repository.withTables (r : Repository) (t : Tables) : Repository :=
  { r with
    plans := t.plans
    projections := t.projections
    keys := t.keys
    events := t.events
    agents := t.agents
    squads := t.squads
    outbox := t.outbox }

variable {r' : Repository}

theorem Repository.Similar.tables {r : Repository} (h : r.Similar r') : r'.tables = r.tables := by
  rw [h.same]
  rfl

theorem Repository.Similar.revision {r : Repository} (h : r.Similar r') :
    r'.revision = r.revision := h.unchanged.revision

structure Codec (Text : Type) where
  encode : Tables → Option Text
  decode : Text → Option Tables
  /-- The checks of a snapshot that is read. -/
  valid : Tables → Bool
  decodes : ∀ t text, encode t = some text → (decode text).isSome = true
  stable : ∀ text t, decode text = some t → (encode t).bind decode = some t
  encodes_empty : (encode {}).isSome = true

variable {Text : Type} (C : Codec Text)

/-- `cloneValue` of the maps. -/
def Codec.copy (t : Tables) : Tables := ((C.encode t).bind C.decode).getD t

/-- The file or row. Where there is none the revision is zero. -/
structure Disk (Text : Type) where
  revision : Int := 0
  text : Option Text := none

/-- Where the replacement of a snapshot fails: before it, or after it, when the
directory cannot be synced or the answer to the commit is lost. -/
inductive Trouble
  | none
  | before (err : Err)
  | after (err : Err)

/-- The snapshot is replaced by the next one if it is the expected one. -/
def Disk.replace (disk : Disk Text) (t : Tables) (expected : Int) (trouble : Trouble) :
    Except Err Unit × Disk Text :=
  if disk.revision != expected then
    (.error (errorNew ("stale orchestration state: expected revision " ++ toString expected ++
      ", found " ++ toString disk.revision)), disk)
  else
    match C.encode t with
    | none => (.error (errorNew "json: unsupported value"), disk)
    | some text =>
      match trouble with
      | .none => (.ok (), ⟨expected + 1, some text⟩)
      | .before err => (.error err, disk)
      | .after err => (.error err, ⟨expected + 1, some text⟩)

def Disk.load (disk : Disk Text) : Option Tables :=
  match disk.text with
  | none => some {}
  | some text => (C.decode text).filter C.valid

variable (H : ControlHost)

section

variable (disk : Disk Text) (r : Repository) (c : Call) (trouble : Trouble)

def fileCall : Except Err Answer × Repository × Disk Text :=
  match c.change H r with
  | .refuse err left => (.error err, left, disk)
  | .reply value left => (.ok value, left, disk)
  | .write written undone value failure =>
    if !written.dirty then (.ok value, written, disk)
    else
      match disk.replace C written.tables written.revision trouble with
      | (.ok _, disk) =>
        (.ok value, { written with dirty := false, revision := written.revision + 1 }, disk)
      | (.error err, disk) => (.error (failure err), undone, disk)

/-- Calls that a database repository makes in a transaction. -/
def Call.mutates : Call → Bool
  | .importDefinitionBundle _ _ dryRun _ => !dryRun
  | .flush => false
  | _ => true

/-- One attempt of a call of a repository on a database, after it has been
refreshed. The maps are copied before the call; where they have no text they are
not, and what the call wrote stays. -/
def sqlCall : Except Err Answer × Repository × Disk Text :=
  match (c.change H r).settle .ok with
  | (.error err, left) => (.error err, left, disk)
  | (.ok value, written) =>
    if !c.mutates then (.ok value, written, disk)
    else
      match disk.replace C (C.copy written.tables) r.revision trouble with
      | (.ok _, disk) => (.ok value, { written with revision := r.revision + 1 }, disk)
      | (.error err, disk) =>
        let before := if (C.encode r.tables).isSome then C.copy r.tables else written.tables
        (.error err, { written.withTables before with revision := r.revision }, disk)

/-- A repository has a path exactly when it is on a file. -/
def sharedCall : Except Err Answer × Repository × Disk Text :=
  if r.durable then fileCall C H disk r c trouble else sqlCall C H disk r c trouble

end

/-- The storage and the repositories that are open on it. -/
structure World (Text : Type) where
  disk : Disk Text := {}
  handles : Nat → Option Repository := fun _ => none

inductive Move
  | open (i : Nat) (durable : Bool)
  | refresh (i : Nat)
  | call (i : Nat) (c : Call) (trouble : Trouble)

def World.set (w : World Text) (i : Nat) (r : Repository) : World Text :=
  { w with handles := fun j => if j = i then some r else w.handles j }

/-- Processes open the storage, refresh, and make calls, in any order. -/
def World.move (w : World Text) : Move → World Text
  | .open i durable =>
    match w.disk.load C with
    | some t => w.set i { ({} : Repository).withTables t with revision := w.disk.revision, durable }
    | none => w
  | .refresh i =>
    match w.handles i with
    | some r =>
      if w.disk.revision ≤ r.revision then w
      else
        match w.disk.load C with
        | some t => w.set i { r.withTables t with revision := w.disk.revision }
        | none => w
    | none => w
  | .call i c trouble =>
    match w.handles i with
    | some r =>
      let (_, r, disk) := sharedCall C H w.disk r c trouble
      { w with disk }.set i r
    | none => w

variable {C H}

theorem Codec.copy_copy (t : Tables) : C.copy (C.copy t) = C.copy t := by
  unfold Codec.copy
  cases h : C.encode t with
  | none => simp [h]
  | some text =>
    obtain ⟨t', ht'⟩ := Option.isSome_iff_exists.mp (C.decodes t text h)
    simp only [Option.bind_some, ht', Option.getD_some, C.stable text t' ht']

/-- The maps are what the storage holds, up to a copy. -/
def Disk.Holds (C : Codec Text) (disk : Disk Text) (t : Tables) : Prop :=
  match disk.text with
  | none => C.copy t = C.copy {}
  | some text => C.decode text = some (C.copy t)

variable {t : Tables}

theorem Disk.Holds.copy {disk : Disk Text} (h : disk.Holds C t) : disk.Holds C (C.copy t) := by
  unfold Disk.Holds at h ⊢
  cases hd : disk.text with
  | none =>
    rw [hd] at h
    simpa [Codec.copy_copy] using h
  | some text =>
    rw [hd] at h
    simpa [Codec.copy_copy] using h

theorem Disk.Holds.encodes {disk : Disk Text} (h : disk.Holds C t) :
    (C.encode t).isSome = true := by
  cases he : C.encode t with
  | some text => rfl
  | none =>
    have hcopy : C.copy t = t := by simp [Codec.copy, he]
    unfold Disk.Holds at h
    have hread : ∃ text, C.decode text = some t := by
      cases hd : disk.text with
      | some text =>
        rw [hd, hcopy] at h
        exact ⟨text, h⟩
      | none =>
        obtain ⟨text, htext⟩ := Option.isSome_iff_exists.mp C.encodes_empty
        obtain ⟨t', ht'⟩ := Option.isSome_iff_exists.mp (C.decodes _ text htext)
        rw [hd, hcopy] at h
        refine ⟨text, ?_⟩
        rw [h]
        simp [Codec.copy, htext, ht']
    obtain ⟨text, htext⟩ := hread
    have := C.stable text t htext
    simp [he] at this

theorem Disk.Holds.load {disk : Disk Text} (h : disk.load C = some t) : disk.Holds C t := by
  unfold Disk.load at h
  unfold Disk.Holds
  cases hd : disk.text with
  | none =>
    rw [hd] at h
    rw [← Option.some.inj h]
  | some text =>
    rw [hd] at h
    have hdecode := (Option.filter_eq_some_iff.mp h).1
    simp only [hdecode]
    simp [Codec.copy, C.stable text t hdecode]

inductive Disk.Replaced (C : Codec Text) (disk : Disk Text) (t : Tables) (expected : Int) :
    Except Err Unit × Disk Text → Prop
  | kept (err : Err) : Replaced C disk t expected (.error err, disk)
  | stored {disk' : Disk Text} (res : Except Err Unit) (revision : disk.revision = expected)
    (next : disk'.revision = disk.revision + 1) (holds : disk'.Holds C t) :
    Replaced C disk t expected (res, disk')

theorem Disk.replaced_replace (disk : Disk Text) (t : Tables) (expected : Int) (trouble : Trouble) :
    disk.Replaced C t expected (disk.replace C t expected trouble) := by
  unfold Disk.replace
  split
  · exact .kept _
  · rename_i hrev
    have hrev : disk.revision = expected := by simpa using hrev
    cases he : C.encode t with
    | none => exact .kept _
    | some text =>
      have hholds : C.decode text = some (C.copy t) := by
        obtain ⟨t', ht'⟩ := Option.isSome_iff_exists.mp (C.decodes t text he)
        simp [Codec.copy, he, ht']
      cases trouble with
      | none => exact .stored _ hrev (by rw [hrev]) hholds
      | before err => exact .kept err
      | after err => exact .stored _ hrev (by rw [hrev]) hholds

variable {disk : Disk Text} {r : Repository} {c : Call}

/-- A repository is not ahead of the storage, and what it has is the snapshot of its
revision when that is the stored one. -/
def Disk.Current (C : Codec Text) (disk : Disk Text) (r : Repository) : Prop :=
  r.revision ≤ disk.revision ∧ (r.revision = disk.revision → disk.Holds C r.tables)

theorem Disk.Current.similar (h : disk.Current C r) (hr : r.Similar r') : disk.Current C r' := by
  unfold Disk.Current
  rw [hr.tables, hr.revision]
  exact h

theorem Disk.Current.behind (h : r.revision < disk.revision) : disk.Current C r :=
  ⟨le_of_lt h, fun heq => absurd heq (ne_of_lt h)⟩

/-- The storage is left alone, and so is the repository unless the call fails; or it holds
the effect of the call on what it held. -/
inductive Outlived (C : Codec Text) (H : ControlHost) (disk : Disk Text)
    (r : Repository) (c : Call) :
    Except Err Answer × Repository × Disk Text → Prop
  | same {ans : Except Err Answer} {r' : Repository} (current : disk.Current C r')
    (answered : ans.isOk = true → r.Similar r') : Outlived C H disk r c (ans, r', disk)
  | committed {ans : Except Err Answer} {r' written : Repository} {value : Answer}
      {disk' : Disk Text}
    (revision : r.revision = disk.revision)
    (effect : (c.change H r).settle .ok = (.ok value, written))
    (next : disk'.revision = disk.revision + 1) (holds : disk'.Holds C written.tables)
    (current : disk'.Current C r') : Outlived C H disk r c (ans, r', disk')

def Repository.keeps (H : ControlHost) (r : Repository) (c : Call) : Bool :=
  if r.durable then r.restorable H c else r.steady H c

theorem fileCall_outlived (h : disk.Current C r) (hok : r.restorable H c = true)
    (trouble : Trouble) :
    Outlived C H disk r c (fileCall C H disk r c trouble) := by
  have hleaves := (change_leaves c (steady_of_restorable hok)).imp (fun _ h => h) fun _ hu => hu hok
  simp only [fileCall]
  generalize hchange : c.change H r = change at hleaves
  cases hleaves with
  | refuse hleft => exact .same (h.similar hleft) nofun
  | reply hleft => exact .same (h.similar hleft) fun _ => hleft
  | @write written undone value failure hw hu =>
    simp only
    split
    · rename_i hclean
      rcases hw.marked with hmarked | rfl
      · simp [hmarked] at hclean
      · exact .same h fun _ => .refl _
    · have heffect : (c.change H r).settle .ok = (.ok value, written) := by
        rw [hchange]
        rfl
      rw [hw.revision]
      have hreplaced := disk.replaced_replace (C := C) written.tables r.revision trouble
      generalize disk.replace C written.tables r.revision trouble = out at hreplaced
      cases hreplaced with
      | kept err => exact .same (h.similar hu) nofun
      | @stored disk' res hrev hnext hholds =>
        cases res with
        | ok _ =>
          exact .committed hrev.symm heffect hnext hholds ⟨by simp [hnext, hrev], fun _ => hholds⟩
        | error err =>
          refine .committed hrev.symm heffect hnext hholds (.behind (?_ : _ < disk'.revision))
          rw [hu.revision]
          omega

theorem settle_quiet (hok : r.steady H c = true) (hquiet : c.mutates = false) :
    r.Similar ((c.change H r).settle .ok).2 := by
  cases c with
  | importDefinitionBundle ws bundle dryRun now =>
    have hdry : dryRun = true := by simpa [Call.mutates] using hquiet
    subst hdry
    simp only [Call.change, Repository.importDefinitionBundle, leftWith_copied hok]
    split
    · exact .refl r
    · split
      · exact .refl r
      · split
        · exact .refl r
        · exact .refl r
  | flush => exact .refl r
  | _ => simp [Call.mutates] at hquiet

theorem Disk.Holds.of_copy (h : disk.Holds C (C.copy t)) : disk.Holds C t := by
  unfold Disk.Holds at h
  rwa [Codec.copy_copy] at h

theorem sqlCall_outlived (h : disk.Current C r) (hok : r.steady H c = true) (trouble : Trouble) :
    Outlived C H disk r c (sqlCall C H disk r c trouble) := by
  have hleaves := change_leaves c hok
  have hquiet := settle_quiet hok
  simp only [sqlCall]
  cases heffect : (c.change H r).settle .ok with
  | mk res written =>
    rw [heffect] at hquiet
    cases res with
    | error err =>
      -- Only a refusal is an error here.
      simp only
      generalize c.change H r = change at hleaves heffect
      cases hleaves with
      | refuse hleft =>
        cases heffect
        exact .same (h.similar hleft) nofun
      | reply hleft => cases heffect
      | write hw hu => cases heffect
    | ok value =>
      simp only
      split
      · rename_i hmutates
        have hsame := hquiet (by simpa using hmutates)
        exact .same (h.similar hsame) fun _ => hsame
      · have hreplaced := disk.replaced_replace (C := C) (C.copy written.tables) r.revision trouble
        generalize disk.replace C (C.copy written.tables) r.revision trouble = out at hreplaced
        cases hreplaced with
        | kept err =>
          refine .same ⟨h.1, fun heq => ?_⟩ nofun
          have hold := h.2 heq
          rw [if_pos hold.encodes]
          exact hold.copy
        | @stored disk' res hrev hnext hholds =>
          have hholds := hholds.of_copy
          cases res with
          | ok _ =>
            exact .committed hrev.symm heffect hnext hholds ⟨by simp [hnext, hrev], fun _ => hholds⟩
          | error err =>
            exact .committed hrev.symm heffect hnext hholds
              (.behind (by show r.revision < disk'.revision; omega))

theorem sharedCall_outlived (h : disk.Current C r) (hok : r.keeps H c = true) (trouble : Trouble) :
    Outlived C H disk r c (sharedCall C H disk r c trouble) := by
  unfold Repository.keeps at hok
  unfold sharedCall
  split at hok
  · rename_i hdurable
    rw [if_pos hdurable]
    exact fileCall_outlived h hok trouble
  · rename_i hdurable
    rw [if_neg hdurable]
    exact sqlCall_outlived h hok trouble

variable {w : World Text}

def World.Sound (C : Codec Text) (w : World Text) : Prop :=
  ∀ i r, w.handles i = some r → w.disk.Current C r

/-- The calls of the processes keep what they take for granted. -/
def World.keeps (H : ControlHost) (w : World Text) : Move → Prop
  | .call i c _ => ∀ r, w.handles i = some r → r.keeps H c = true
  | _ => True

/-- A call that succeeds has left its repository as it was. -/
def World.idle (C : Codec Text) (H : ControlHost) (w : World Text) : Move → Prop
  | .call i c trouble => ∀ r, w.handles i = some r →
    (sharedCall C H w.disk r c trouble).1.isOk = true →
      r.Similar (sharedCall C H w.disk r c trouble).2.1
  | _ => True

/-- A move that changes the storage is a call of a repository that has the stored
snapshot, and what is stored then is the effect of the call on it. Any other call fails if
it has something to write, also one on a stale snapshot. -/
def Serial (C : Codec Text) (H : ControlHost) (w : World Text) (m : Move) : Prop :=
  ((w.move C H m).disk = w.disk ∧ w.idle C H m) ∨
    ∃ i c trouble r value written, m = .call i c trouble ∧ w.handles i = some r ∧
      r.revision = w.disk.revision ∧ w.disk.Holds C r.tables ∧
      (c.change H r).settle .ok = (.ok value, written) ∧
      (w.move C H m).disk.revision = w.disk.revision + 1 ∧
      (w.move C H m).disk.Holds C written.tables

theorem World.Sound.set (h : w.Sound C) (hr : w.disk.Current C r) :
    (w.set i r).Sound C := by
  intro j r' hj
  simp only [World.set] at hj
  split at hj
  · cases hj
    exact hr
  · exact h j r' hj

theorem current_load (h : disk.load C = some t) (hrev : r.revision = disk.revision)
    (ht : r.tables = t) : disk.Current C r := by
  refine ⟨le_of_eq hrev, fun _ => ?_⟩
  rw [ht]
  exact .load h

theorem move_sound (h : w.Sound C) (hok : w.keeps H m) :
    (w.move C H m).Sound C ∧ Serial C H w m := by
  cases m with
  | «open» i durable =>
    unfold Serial
    simp only [World.move]
    split
    · rename_i t ht
      exact ⟨h.set (current_load ht rfl rfl), .inl ⟨rfl, trivial⟩⟩
    · exact ⟨h, .inl ⟨rfl, trivial⟩⟩
  | refresh i =>
    unfold Serial
    simp only [World.move]
    split
    · split
      · exact ⟨h, .inl ⟨rfl, trivial⟩⟩
      · split
        · rename_i t ht
          exact ⟨h.set (current_load ht rfl rfl), .inl ⟨rfl, trivial⟩⟩
        · exact ⟨h, .inl ⟨rfl, trivial⟩⟩
    · exact ⟨h, .inl ⟨rfl, trivial⟩⟩
  | call i c trouble =>
    cases hr : w.handles i with
    | none =>
      have hmove : w.move C H (.call i c trouble) = w := by simp only [World.move, hr]
      rw [Serial, hmove]
      refine ⟨h, .inl ⟨rfl, ?_⟩⟩
      intro r hsome
      simp [hr] at hsome
    | some r =>
      have hmove : w.move C H (.call i c trouble) =
          ({ w with disk := (sharedCall C H w.disk r c trouble).2.2 } : World Text).set i
            (sharedCall C H w.disk r c trouble).2.1 := by
        simp only [World.move, hr]
      have hcall := sharedCall_outlived (h i r hr) (hok r hr) trouble
      have hidle : w.idle C H (.call i c trouble) ↔
          ((sharedCall C H w.disk r c trouble).1.isOk = true →
            r.Similar (sharedCall C H w.disk r c trouble).2.1) := by
        simp [World.idle, hr]
      rw [Serial, hmove, hidle]
      generalize sharedCall C H w.disk r c trouble = out at hcall
      cases hcall with
      | same current answered => exact ⟨h.set current, .inl ⟨rfl, answered⟩⟩
      | @committed ans r' written value disk' revision effect next holds current =>
        constructor
        · refine World.Sound.set (fun j r' hj => ?_) current
          -- The others have fallen behind.
          have := (h j r' hj).1
          exact .behind (by show r'.revision < disk'.revision; omega)
        · exact .inr ⟨i, c, trouble, r, value, written, rfl, hr, revision,
            (h i r hr).2 revision, effect, next, holds⟩

def plainCodec : Codec Tables where
  encode := some
  decode := some
  valid := fun _ => true
  decodes := fun _ _ _ => rfl
  stable := fun _ _ _ => rfl
  encodes_empty := rfl

def enqueueMove (i : Nat) (id key : String) (trouble : Trouble) : Move :=
  .call i (enqueueCall id key 2).call trouble

end Adro.Control
