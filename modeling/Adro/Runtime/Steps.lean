import Adro.Runtime.Loop

/-!
# What a move does to the file and the journals

A move changes at most one journal and may write the file. `move_step` says once
what it can come to, and where the parts of an operation come from; the workers
do not matter for that.
-/

namespace Adro.Runtime

open Adro.Go

variable {P : Platform} {w w' : World} {changed : Option Handle} {file : Option State}
  {answers : List Answer} {granted : List Lease} {reply : Reply} {h : Nat} {m : Move}

/-- A journal that is there afterwards was there before or is the changed one. -/
structure World.Becomes (w w' : World) (changed : Option Handle) (file : Option State)
    (answers : List Answer) (granted : List Lease) : Prop where
  file : w'.file = file
  handles : ∀ i hd, w'.handle? i = some hd → changed = some hd ∨ w.handle? i = some hd
  answers : w'.answers = answers
  granted : w'.granted = granted

def World.draws (w : World) : Move → Option (Request × (Nat → Stamp))
  | .call i stamps => (w.workers[i]?.bind Worker.request).bind fun
      | .ok req => some (req, stamps)
      | .error _ => none
  | .request _ req stamps => some (req, stamps)
  | _ => none

inductive World.Step (P : Platform) (w : World) (m : Move) (w' : World) : Prop
  | quiet (hb : w.Becomes w' none w.file w.answers w.granted)
  | opened (j : Journal) (ho : Journal.opened P w.file = .ok j)
      (hb : w.Becomes w' (some ⟨j, none⟩) w.file w.answers w.granted)
  | refused (h : Nat) (j j' : Journal) (hj : w.handle? h = some ⟨j, none⟩)
      (hr : j.reloadLocked P w.file = .ok j')
      (hb : w.Becomes w' (some ⟨j', none⟩) w.file w.answers w.granted)
  | found (h : Nat) (j j' : Journal) (req : Request) (stamps : Nat → Stamp) (reply : Reply)
      (hj : w.handle? h = some ⟨j, none⟩) (hr : j.reloadLocked P w.file = .ok j')
      (hd : j'.draft P stamps req = .ok (.inl reply))
      (hb : w.Becomes w' (some ⟨j', none⟩) w.file (⟨reply, reply.events⟩ :: w.answers) w.granted)
  | drafted (h : Nat) (j j' : Journal) (req : Request) (stamps : Nat → Stamp) (client : Option Nat)
      (d : Draft) (hj : w.handle? h = some ⟨j, none⟩) (hr : j.reloadLocked P w.file = .ok j')
      (hs : w.draws m = some (req, stamps)) (hd : j'.draft P stamps req = .ok (.inr d))
      (hb : w.Becomes w' (some ⟨j', some ⟨client, d, false⟩⟩) w.file w.answers w.granted)
  | dropped (h : Nat) (j : Journal) (client : Option Nat) (d : Draft)
      (hj : w.handle? h = some ⟨j, some ⟨client, d, false⟩⟩)
      (hb : w.Becomes w' (some ⟨j, none⟩) w.file w.answers w.granted)
  | failed (h : Nat) (j j' : Journal) (client : Option Nat) (d d' : Draft)
      (hj : w.handle? h = some ⟨j, some ⟨client, d, false⟩⟩) (hm : m = .write h false)
      (hc : j.candidateLocked P w.file d = .ok (j', d'))
      (hb : w.Becomes w' (some ⟨j', none⟩) w.file w.answers w.granted)
  | released (h : Nat) (j j' : Journal) (client : Option Nat) (d d' : Draft)
      (hj : w.handle? h = some ⟨j, some ⟨client, d, false⟩⟩) (hm : m = .write h true)
      (hc : j.candidateLocked P w.file d = .ok (j', d')) (hk : d.kind = .release)
      (hb : w.Becomes w' (some ⟨{ j' with revision := j'.revision + 1, leases := d.leases }, none⟩)
        (some (j'.contents d')) (⟨d.reply, []⟩ :: w.answers) (d.reply.leases ++ w.granted))
  | written (h : Nat) (j j' : Journal) (client : Option Nat) (d d' : Draft)
      (hj : w.handle? h = some ⟨j, some ⟨client, d, false⟩⟩) (hm : m = .write h true)
      (hc : j.candidateLocked P w.file d = .ok (j', d')) (hk : d.kind ≠ .release)
      (hb : w.Becomes w'
        (some ⟨{ j' with revision := j'.revision + 1 }, some ⟨client, d, true⟩⟩)
        (some (j'.contents d')) w.answers (d.reply.leases ++ w.granted))
  | unread (h : Nat) (j : Journal) (client : Option Nat) (d : Draft) (err : Error)
      (hj : w.handle? h = some ⟨j, some ⟨client, d, true⟩⟩)
      (hr : Journal.reloadFromDiskLocked P w.file = .error err)
      (hb : w.Becomes w' (some ⟨j.adopt d, none⟩) w.file w.answers w.granted)
  | refreshed (h : Nat) (j j' : Journal) (client : Option Nat) (d : Draft) (answers : List Answer)
      (hj : w.handle? h = some ⟨j, some ⟨client, d, true⟩⟩)
      (hr : Journal.reloadFromDiskLocked P w.file = .ok j')
      (ha : answers = w.answers ∨ answers = ⟨d.reply, d.events⟩ :: w.answers)
      (hb : w.Becomes w' (some ⟨j', none⟩) w.file answers w.granted)

namespace World

theorem Becomes.same (h : w.Becomes w' changed file answers granted)
    (hf : w''.file = w'.file) (hh : w''.handles = w'.handles) (ha : w''.answers = w'.answers)
    (hg : w''.granted = w'.granted) : w.Becomes w'' changed file answers granted :=
  ⟨hf.trans h.file, fun i hd hi => h.handles i hd (by rwa [handle?, hh] at hi), ha.trans h.answers,
    hg.trans h.granted⟩

theorem Becomes.refl : w.Becomes w none w.file w.answers w.granted :=
  ⟨rfl, fun _ _ => .inr, rfl, rfl⟩

section

variable {events : List Event}

theorem Becomes.refuse (h : w.Becomes w' changed file answers granted) :
    w.Becomes (w'.deliver (.error err) events client) changed file answers granted := by
  cases client <;> exact h.same rfl rfl rfl rfl

theorem Becomes.deliver (h : w.Becomes w' changed file answers granted) :
    w.Becomes (w'.deliver (.ok reply) events client) changed file (⟨reply, events⟩ :: answers)
      granted := by
  have hw : w.Becomes { w' with answers := ⟨reply, events⟩ :: w'.answers } changed file
      (⟨reply, events⟩ :: answers) granted := ⟨h.file, h.handles, by rw [← h.answers], h.granted⟩
  cases client <;> exact hw.same rfl rfl rfl rfl

theorem Becomes.mark (h : w.Becomes w' changed file answers granted) :
    w.Becomes (w'.mark client) changed file answers granted := by
  cases client <;> exact h.same rfl rfl rfl rfl

theorem Becomes.await (h : w.Becomes w' changed file answers granted) :
    w.Becomes (w'.await client) changed file answers granted := by
  cases client <;> exact h.same rfl rfl rfl rfl

end

theorem Becomes.setHandle (hw : w.Becomes w' none file answers granted) :
    w.Becomes (w'.setHandle h hd) (some hd) file answers granted := by
  refine ⟨hw.file, fun i hd' hi => ?_, hw.answers, hw.granted⟩
  rw [World.handle?, World.setHandle, List.getElem?_set] at hi
  split at hi
  · split at hi
    · exact .inl (by simpa using hi)
    · cases hi
  · exact .inr ((hw.handles i hd' hi).resolve_left nofun)

theorem answer_reply {d : Draft} (h : d.answer = .ok reply) : reply = d.reply := by
  unfold Draft.answer at h
  split at h
  · rename_i hr
    have h := (then_ok.mp h).2
    cases h
    exact hr.symm
  · cases h
  · cases h
    rfl

theorem start_step
    (hs : w.draws m = some (req, stamps)) : w.Step P m (w.start P h client req stamps) := by
  unfold World.start
  split
  · rename_i j hj
    split
    · exact .quiet Becomes.refl.refuse
    · rename_i j' hr
      split
      · exact .refused h j j' hj hr Becomes.refl.setHandle.refuse
      · rename_i reply hd
        exact .found h j j' req stamps reply hj hr hd Becomes.refl.setHandle.mark.deliver
      · rename_i d hd
        exact .drafted h j j' req stamps client d hj hr hs hd Becomes.refl.setHandle.await
  · exact .quiet .refl

theorem write_step {succeeds : Bool} : w.Step P (.write h succeeds) (w.write P h succeeds) := by
  unfold World.write
  split
  · rename_i j client d hj
    split
    · exact .dropped h j client d hj Becomes.refl.setHandle.refuse
    · rename_i j' d' hc
      cases succeeds with
      | false =>
        simp only [Bool.not_false, if_true]
        exact .failed h j j' client d d' hj rfl hc Becomes.refl.setHandle.refuse
      | true =>
        have hafter : w.Becomes { w.mark client with
            file := some (j'.contents d'), granted := d.reply.leases ++ w.granted } none
            (some (j'.contents d')) w.answers (d.reply.leases ++ w.granted) :=
          have hmark : w.Becomes (w.mark client) none _ _ _ := Becomes.refl.mark
          ⟨rfl, hmark.handles, hmark.answers, rfl⟩
        simp only [Bool.not_true, Bool.false_eq_true, if_false]
        split
        · rename_i hk
          refine .released h j j' client d d' hj rfl hc hk ?_
          simp only [Journal.adopt, hk]
          exact hafter.setHandle.deliver
        · rename_i hk
          exact .written h j j' client d d' hj rfl hc hk hafter.setHandle
  · exact .quiet .refl

theorem refresh_step : w.Step P m (w.refresh P h) := by
  unfold World.refresh
  split
  · rename_i j client d hj
    split
    · rename_i err hr
      exact .unread h j client d err hj hr Becomes.refl.setHandle.refuse
    · rename_i j' hr
      cases ha : d.answer with
      | error err =>
        exact .refreshed h j j' client d _ hj hr (.inl rfl) Becomes.refl.setHandle.refuse
      | ok reply =>
        obtain rfl := answer_reply ha
        exact .refreshed h j j' client d _ hj hr (.inr rfl) Becomes.refl.setHandle.deliver
  · exact .quiet .refl

theorem move_step : w.Step P m (w.move P m) := by
  have hworkers {w' : World} (hf : w'.file = w.file) (hh : w'.handles = w.handles)
      (ha : w'.answers = w.answers) (hg : w'.granted = w.granted) : w.Step P m w' :=
    .quiet (Becomes.refl.same hf hh ha hg)
  cases m with
  | openJournal =>
    simp only [World.move]
    split
    · rename_i j ho
      refine .opened j ho ⟨rfl, fun i hd hi => ?_, rfl, rfl⟩
      rw [World.handle?, List.getElem?_append] at hi
      split at hi
      · exact .inr hi
      · cases hk : i - w.handles.length <;> simp_all
    · exact .quiet .refl
  | run h r =>
    simp only [World.move]
    split
    · exact hworkers rfl rfl rfl rfl
    · exact .quiet .refl
  | call i stamps =>
    simp only [World.move, World.call]
    split
    · rename_i wk hwk
      split
      · exact .quiet .refl
      · split
        · rename_i req hreq
          exact start_step (by simp [World.draws, hwk, hreq])
        · exact .quiet Becomes.refl.refuse
        · exact .quiet .refl
    · exact .quiet .refl
  | request h req stamps => exact start_step rfl
  | write h succeeds => exact write_step
  | refresh h => exact refresh_step
  | read i =>
    simp only [World.move, World.read]
    split
    · split
      · exact hworkers rfl rfl rfl rfl
      · exact .quiet .refl
    · exact .quiet .refl
  | execute i outcome =>
    simp only [World.move, World.execute]
    split
    · split
      · exact hworkers rfl rfl rfl rfl
      · exact .quiet .refl
    · exact .quiet .refl
  | crash h =>
    refine .quiet ⟨rfl, fun i hd hi => .inr ?_, rfl, rfl⟩
    simp only [World.move, World.crash, World.handle?, List.getElem?_set] at hi
    split at hi
    · split at hi <;> cases hi
    · exact hi

end World

end Adro.Runtime
