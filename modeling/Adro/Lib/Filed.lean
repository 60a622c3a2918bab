import Adro.Go.Map

/-!
# Entries filed under keys

A map that holds a list of entries, each under a key computed from it. The key
need not determine the entry's name: what is filed under the key of a name is an
entry of that name only where no other name has the same key. Also the greatest
element of a list by a measure, as a loop that keeps the best one so far finds it.
-/

namespace Adro.Lib

open Adro.Go

variable {α ν : Type}

/-- The first element of greatest positive measure among those that pass. -/
def greatest (measure : α → Int) (p : α → Bool) (l : List α) : Option α :=
  l.foldl (fun out a =>
    if p a && measure a > (out.map measure).getD 0 then some a else out) none

/-- No element passes with a positive measure, or the one given is the greatest. -/
def Greatest (measure : α → Int) (p : α → Bool) (l : List α) : Option α → Prop
  | none => ∀ a ∈ l, p a = true → measure a ≤ 0
  | some a => a ∈ l ∧ p a = true ∧ 0 < measure a ∧ ∀ b ∈ l, p b = true → measure b ≤ measure a

variable {measure : α → Int}

theorem Greatest.bound (h : Greatest measure p l o) (ha : a ∈ l) (hp : p a = true) :
    measure a ≤ (o.map measure).getD 0 := by
  cases o with
  | none => exact h a ha hp
  | some b => exact h.2.2.2 a ha hp

theorem Greatest.concat (h : Greatest measure p l o) (a : α) :
    Greatest measure p (l ++ [a])
      (if p a && measure a > (o.map measure).getD 0 then some a else o) := by
  split
  · rename_i hbetter
    simp only [Bool.and_eq_true, decide_eq_true_eq] at hbetter
    obtain ⟨hp, hlt⟩ := hbetter
    have hpos : 0 < measure a := by
      cases o with
      | none => exact hlt
      | some b => exact lt_trans h.2.2.1 hlt
    refine ⟨by simp, hp, hpos, fun b hb hpb => ?_⟩
    rcases List.mem_append.mp hb with hb | hb
    · exact le_trans (h.bound hb hpb) (le_of_lt hlt)
    · rw [List.mem_singleton.mp hb]
  · rename_i hbetter
    have hle (hp : p a = true) : measure a ≤ (o.map measure).getD 0 := by
      simpa [hp] using hbetter
    cases o with
    | none =>
      intro b hb hpb
      rcases List.mem_append.mp hb with hb | hb
      · exact h b hb hpb
      · rw [List.mem_singleton.mp hb] at hpb ⊢
        exact hle hpb
    | some best =>
      obtain ⟨hmem, hp, hpos, hmax⟩ := h
      refine ⟨List.mem_append_left _ hmem, hp, hpos, fun b hb hpb => ?_⟩
      rcases List.mem_append.mp hb with hb | hb
      · exact hmax b hb hpb
      · rw [List.mem_singleton.mp hb] at hpb ⊢
        exact hle hpb

theorem greatest_spec (measure : α → Int) (p : α → Bool) (l : List α) :
    Greatest measure p l (greatest measure p l) := by
  induction l using List.reverseRecOn with
  | nil => exact fun _ h => absurd h List.not_mem_nil
  | append_singleton l a ih =>
    have hstep := ih.concat a
    rwa [show greatest measure p (l ++ [a]) = _ from List.foldl_concat ..]

/-- Where the measure tells those that pass apart, the greatest is determined by
which elements there are. -/
theorem Greatest.unique (h : Greatest measure p l o) (h' : Greatest measure p l' o')
    (hmem : ∀ a, p a = true → (a ∈ l ↔ a ∈ l'))
    (hinj : ∀ a ∈ l, ∀ b ∈ l, p a = true → p b = true → measure a = measure b → a = b) :
    o = o' := by
  cases o with
  | none =>
    cases o' with
    | none => rfl
    | some b =>
      obtain ⟨hb, hp, hpos, -⟩ := h'
      have := h b ((hmem b hp).mpr hb) hp
      omega
  | some a =>
    obtain ⟨ha, hp, hpos, hmax⟩ := h
    cases o' with
    | none =>
      have := h' a ((hmem a hp).mp ha) hp
      omega
    | some b =>
      obtain ⟨hb, hpb, -, hmax'⟩ := h'
      have hb' := (hmem b hpb).mpr hb
      have h1 := hmax b hb' hpb
      have h2 := hmax' a ((hmem a hp).mp ha) hp
      rw [hinj a ha b hb' hp hpb (by omega)]

/-- The map holds the listed entries under their keys and nothing else; no two of
them have the same name. -/
structure Filed (key : α → String) (name : α → ν) (m : GoMap α) (listed : List α) : Prop where
  entry : ∀ (k : String) a, m[k]? = some a ↔ a ∈ listed ∧ key a = k
  names : (listed.map name).Nodup

variable {key : α → String} {name : α → ν} {m : GoMap α} {listed : List α}

theorem Filed.empty : Filed key name ∅ [] := ⟨fun k a => by simp, List.nodup_nil⟩

section
variable (h : Filed key name m listed)
include h

theorem Filed.enter (hname : ∀ b ∈ listed, name b ≠ name a)
    (hkey : m[key a]? = none) : Filed key name (m.insert (key a) a) (a :: listed) := by
  constructor
  · intro k b
    rw [GoMap.get_set]
    split
    · rename_i hk
      subst hk
      constructor
      · intro hb
        cases hb
        simp
      · rintro ⟨hb, hkb⟩
        rcases List.mem_cons.mp hb with rfl | hb
        · rfl
        · rw [(h.entry (key a) b).mpr ⟨hb, hkb⟩] at hkey
          cases hkey
    · rename_i hk
      rw [h.entry]
      constructor
      · rintro ⟨hb, hkb⟩
        exact ⟨List.mem_cons_of_mem _ hb, hkb⟩
      · rintro ⟨hb, hkb⟩
        rcases List.mem_cons.mp hb with rfl | hb
        · exact absurd hkb hk
        · exact ⟨hb, hkb⟩
  · rw [List.map_cons, List.nodup_cons]
    refine ⟨fun hn => ?_, h.names⟩
    obtain ⟨b, hb, hbn⟩ := List.mem_map.mp hn
    exact hname b hb hbn

theorem Filed.eq_of_name (ha : a ∈ listed) (hb : b ∈ listed) (hn : name a = name b) : a = b :=
  List.inj_on_of_nodup_map h.names ha hb hn

/-- Under the key of a name is the listed entry of that name, where the key is not
used for another. -/
theorem Filed.find [DecidableEq ν]
    (hkey : ∀ a, name a = n → key a = k) (hfree : ∀ a, m[k]? = some a → name a = n) :
    m[k]? = listed.find? fun a => name a = n := by
  cases hm : m[k]? with
  | none =>
    refine (List.find?_eq_none.mpr fun a ha hn => ?_).symm
    have hn : name a = n := by simpa using hn
    rw [(h.entry k a).mpr ⟨ha, hkey a hn⟩] at hm
    cases hm
  | some a =>
    have ha := ((h.entry k a).mp hm).1
    have hn := hfree a hm
    cases hf : listed.find? fun a => decide (name a = n) with
    | none =>
      have := List.find?_eq_none.mp hf a ha
      simp [hn] at this
    | some b =>
      have hb : name b = n := by simpa using List.find?_some hf
      rw [h.eq_of_name ha (List.mem_of_find?_eq_some hf) (hn.trans hb.symm)]

end

end Adro.Lib
