import Adro.Go.Basic

/-!
# Graph searches

Breadth-first closure and search over a successor function, and a
three-colour depth-first visit that rejects cycles. Each loop has a step
bound; the callers pass one that exceeds the number of steps the loop can
take. The depth-first visit lists nodes as it finishes them, so a visit that
accepts leaves an order in which every successor comes before its source.
-/

namespace Adro.Go

variable {ν η : Type}

section Breadth

variable [DecidableEq ν]

/-- Pop, skip when seen, else mark and queue the successors. -/
def closure (next : ν → List ν) : Nat → List ν → List ν → List ν
  | 0, _, seen => seen
  | _ + 1, [], seen => seen
  | n + 1, id :: queue, seen =>
    if id ∈ seen then closure next n queue seen
    else closure next n (queue ++ next id) (id :: seen)

/-- The same traversal, stopping at the first node that satisfies `stop`. -/
def search (next : ν → List ν) (stop : ν → Bool) : Nat → List ν → List ν → Bool
  | 0, _, _ => false
  | _ + 1, [], _ => false
  | n + 1, id :: queue, seen =>
    if stop id then true
    else if id ∈ seen then search next stop n queue seen
    else search next stop n (queue ++ next id) (id :: seen)

variable {next : ν → List ν}

theorem closure_sound {P : ν → Prop} (hstep : ∀ a, P a → ∀ b ∈ next a, P b)
    (hq : ∀ a ∈ queue, P a) (hs : ∀ a ∈ seen, P a) : ∀ a ∈ closure next n queue seen, P a := by
  induction n generalizing queue seen with
  | zero => exact hs
  | succ n ih =>
    cases queue with
    | nil => exact hs
    | cons id queue =>
      obtain ⟨hid, hq⟩ := List.forall_mem_cons.1 hq
      unfold closure
      split
      · exact ih hq hs
      · refine ih (fun a ha => ?_) (List.forall_mem_cons.2 ⟨hid, hs⟩)
        exact (List.mem_append.1 ha).elim (hq a) (hstep id hid a)

/-- A step pops a queued node, and an edge is queued once, when its source is first seen. -/
theorem closure_closed {es : List η} {src dst : η → ν}
    (hnext : ∀ a, next a = (es.filter (src · = a)).map dst)
    (hfuel : queue.length + es.countP (src · ∉ seen) < n)
    (hseen : ∀ a ∈ seen, ∀ b ∈ next a, b ∈ seen ∨ b ∈ queue) :
    let r := closure next n queue seen
    (∀ a, a ∈ seen ∨ a ∈ queue → a ∈ r) ∧ ∀ a ∈ r, ∀ b ∈ next a, b ∈ r := by
  induction n generalizing queue seen with
  | zero => omega
  | succ n ih =>
    cases queue with
    | nil => simpa [closure] using hseen
    | cons id queue =>
      simp only [List.length_cons] at hfuel
      unfold closure
      split
      · exact (ih (by omega) (by grind)).imp_left fun h a ha => h a (by grind)
      · have hcount (l : List η) : l.countP (src · ∉ seen) =
            l.countP (src · ∉ id :: seen) + (l.filter (src · = id)).length := by
          induction l with
          | nil => rfl
          | cons e l ihl => grind
        have hlen : (next id).length = (es.filter (src · = id)).length := by
          rw [hnext, List.length_map]
        rw [hcount] at hfuel
        refine (ih (by rw [List.length_append]; omega) ?_).imp_left fun h a ha => h a ?_ <;> grind

end Breadth

/-- `active` holds the nodes on the recursion stack, `done` the finished ones,
latest first. -/
structure Colors (ν : Type) where
  active : List ν := []
  done : List ν := []

/-- The ends of the edges out of a finished node were finished before it. -/
def Finished (out : ν → List η) (dst : η → ν) : List ν → Prop
  | [] => True
  | id :: rest => (∀ e ∈ out id, dst e ∈ rest) ∧ Finished out dst rest

variable {out : ν → List η} {dst : η → ν} {n : Nat} {c c' : Colors ν}

/-- What a visit leaves: an extended finishing order that has the visited node. -/
structure Visited (out : ν → List η) (dst : η → ν) (c : Colors ν) (ids : List ν)
    (c' : Colors ν) : Prop where
  finished : Finished out dst c'.done
  all : ∀ id ∈ ids, id ∈ c'.done
  grows : ∀ id ∈ c.done, id ∈ c'.done

theorem Visited.cons {id : ν} (h : Visited out dst c [id] m)
    (h' : Visited out dst m ids c') : Visited out dst c (id :: ids) c' where
  finished := h'.finished
  all := List.forall_mem_cons.mpr ⟨h'.grows id (h.all id (List.mem_singleton_self id)), h'.all⟩
  grows := fun x hx => h'.grows x (h.grows x hx)

theorem Visited.refl (hf : Finished out dst c.done) : Visited out dst c [] c :=
  ⟨hf, by simp, fun _ h => h⟩

theorem Visited.known {id : ν} (hf : Finished out dst c.done) (h : id ∈ c.done) :
    Visited out dst c [id] c :=
  ⟨hf, by simpa using h, fun _ h => h⟩

variable [DecidableEq ν]

/-- Visit a white node: no edge out of it may lead to an active node, and a
white end is visited first. The error is the offending edge. -/
def visit (out : ν → List η) (dst : η → ν) : Nat → ν → Colors ν → Except (Option η) (Colors ν)
  | 0, _, _ => .error none
  | n + 1, id, c => do
    let inner ← (out id).foldlM (fun (c : Colors ν) e =>
      if dst e ∈ c.active then .error (some e)
      else if dst e ∈ c.done then .ok c
      else visit out dst n (dst e) c) { c with active := id :: c.active }
    .ok { active := c.active, done := id :: inner.done }

def visitAll (out : ν → List η) (dst : η → ν) (fuel : Nat) (roots : List ν) (c : Colors ν) :
    Except (Option η) (Colors ν) :=
  roots.foldlM (fun c id => if id ∈ c.done then .ok c else visit out dst fuel id c) c

theorem visit_ok {id : ν} (h : visit out dst n id c = .ok c') (hf : Finished out dst c.done) :
    Visited out dst c [id] c' := by
  induction n generalizing id c c' with
  | zero => cases h
  | succ n ih =>
    simp only [visit, bind_ok, Except.ok.injEq] at h
    obtain ⟨inner, hi, rfl⟩ := h
    -- The loop over the edges keeps `Visited`; the stack plays no part in it.
    have hloop : ∀ (es : List η) (m m' : Colors ν), Finished out dst m.done →
        es.foldlM (fun (c : Colors ν) e =>
          if dst e ∈ c.active then .error (some e)
          else if dst e ∈ c.done then .ok c
          else visit out dst n (dst e) c) m = .ok m' →
        Visited out dst m (es.map dst) m' := by
      intro es
      induction es with
      | nil => rintro m m' hm ⟨⟩; exact .refl hm
      | cons e es ihe =>
        intro m m' hm h
        simp only [List.foldlM_cons, bind_ok] at h
        obtain ⟨k, hk, hrest⟩ := h
        have hv : Visited out dst m [dst e] k := by
          split at hk
          · cases hk
          · split at hk
            · cases hk; exact .known hm (by assumption)
            · exact ih hk hm
        exact hv.cons (ihe k m' hv.finished hrest)
    have hv := hloop _ { c with active := id :: c.active } _ hf hi
    refine ⟨⟨fun e he => hv.all _ (List.mem_map_of_mem he), hv.finished⟩, by simp, ?_⟩
    exact fun x hx => List.mem_cons_of_mem _ (hv.grows x hx)

theorem visitAll_ok (h : visitAll out dst fuel roots c = .ok c')
    (hf : Finished out dst c.done) : Visited out dst c roots c' := by
  induction roots generalizing c with
  | nil => cases h; exact .refl hf
  | cons r roots ih =>
    simp only [visitAll, List.foldlM_cons, bind_ok] at h
    obtain ⟨m, hm, hrest⟩ := h
    have hv : Visited out dst c [r] m := by
      split at hm
      · cases hm; exact .known hf (by assumption)
      · exact visit_ok hm hf
    exact hv.cons (ih hrest hv.finished)

/-- The place at which a node was first finished, counted from 1. -/
def finishRank : List ν → ν → Nat
  | [], _ => 0
  | x :: rest, id => if id ∈ rest then finishRank rest id else if x = id then rest.length + 1 else 0

theorem finishRank_le (done : List ν) (id : ν) : finishRank done id ≤ done.length := by
  induction done with
  | nil => simp [finishRank]
  | cons x rest ih =>
    unfold finishRank
    split
    · simp only [List.length_cons]; omega
    · split <;> simp

/-- Along an edge out of a finished node the rank falls, so finished nodes are
on no cycle. -/
theorem Finished.rank_lt (h : Finished out dst done) {id : ν} (hid : id ∈ done) (he : e ∈ out id) :
    dst e ∈ done ∧ finishRank done (dst e) < finishRank done id := by
  induction done with
  | nil => cases hid
  | cons x rest ih =>
    by_cases hr : id ∈ rest
    · obtain ⟨hm, hlt⟩ := ih h.2 hr
      exact ⟨List.mem_cons_of_mem _ hm, by simp only [finishRank, hm, hr]; exact hlt⟩
    · have hx : x = id := by
        rcases List.mem_cons.mp hid with h' | h'
        · exact h'.symm
        · exact absurd h' hr
      subst hx
      have hm := h.1 e he
      refine ⟨List.mem_cons_of_mem _ hm, ?_⟩
      have := finishRank_le rest (dst e)
      simp only [finishRank, hm, hr, if_true, if_false]
      omega

end Adro.Go
