import Mathlib.Algebra.Order.Ring.Int
import Mathlib.Data.Finset.Basic
import Mathlib.Algebra.BigOperators.Group.List.Basic

/-!
# String-keyed maps

A `map[string]T` whose nil and empty values are not told apart. Reading a
missing key gives no value, or the zero value through `getD`. A `range` loop
visits the entries in key order; the loops below that stop early say which
entries they can stop at, so a result can be shown not to depend on the order.
-/

namespace Adro.Go

abbrev GoMap (α : Type) := Std.ExtTreeMap String α compare

namespace GoMap

variable {α β : Type} {m : GoMap α} {k k' : String} {v : α} {f g : String → α → Bool}

theorem get_set : (m.insert k v)[k']? = if k = k' then some v else m[k']? := by
  simp [Std.ExtTreeMap.getElem?_insert]

@[simp] theorem get_set_ne (h : k ≠ k') : (m.insert k v)[k']? = m[k']? := by
  simp [get_set, h]

theorem get_delete : (m.erase k)[k']? = if k = k' then none else m[k']? := by
  simp [Std.ExtTreeMap.getElem?_erase]

theorem ext_get (h : ∀ k : String, m[k]? = m'[k]?) : m = m' := Std.ExtTreeMap.ext_getElem? h

theorem set_get_self (h : m[k]? = some v) : m.insert k v = m := by
  refine ext_get fun k' => ?_
  rw [get_set]
  split
  · rename_i hk; rw [← hk, h]
  · rfl

theorem set_eq_self : m.insert k v = m ↔ m[k]? = some v := by
  constructor
  · intro h
    rw [← h, get_set, if_pos rfl]
  · exact set_get_self

theorem set_set : (m.insert k v).insert k w = m.insert k w := by
  refine ext_get fun k' => ?_
  simp only [get_set]
  split <;> rfl

theorem erase_set : (m.insert k v).erase k = m.erase k := by
  refine ext_get fun k' => ?_
  simp only [get_delete, get_set]
  split <;> rfl

theorem mem_entries : e ∈ m.toList ↔ m[e.1]? = some e.2 :=
  Std.ExtTreeMap.mem_toList_iff_getElem?_eq_some

theorem mem_values : v ∈ m.toList.map (·.2) ↔ ∃ k : String, m[k]? = some v := by
  simp only [List.mem_map, Prod.exists, mem_entries, exists_eq_right]

theorem nodup_entries : m.toList.Nodup := by
  have h : (m.toList.map Prod.fst).Nodup := by
    rw [Std.ExtTreeMap.map_fst_toList_eq_keys]
    exact Std.ExtTreeMap.nodup_keys
  exact h.of_map

def any (m : GoMap α) (f : String → α → Bool) : Bool := m.toList.any fun e => f e.1 e.2

def all (m : GoMap α) (f : String → α → Bool) : Bool := m.toList.all fun e => f e.1 e.2

/-- The entry an early exit of a `range` loop stops at. -/
def find (m : GoMap α) (f : String → α → Bool) : Option (String × α) :=
  m.toList.find? fun e => f e.1 e.2

def count (m : GoMap α) (f : String → α → Bool) : Nat := m.toList.countP fun e => f e.1 e.2

def sum (m : GoMap α) (g : α → Int) : Int := (m.toList.map fun e => g e.2).sum

theorem any_iff : any m f = true ↔ ∃ k v, m[k]? = some v ∧ f k v = true := by
  simp only [any, List.any_eq_true, Prod.exists, mem_entries]

theorem all_iff : all m f = true ↔ ∀ k v, m[k]? = some v → f k v = true := by
  simp only [all, List.all_eq_true, Prod.forall, mem_entries]

theorem find_some (h : find m f = some (k, v)) : m[k]? = some v ∧ f k v = true :=
  ⟨mem_entries.mp (List.mem_of_find?_eq_some h),
    List.find?_some (p := fun e : String × α => f e.1 e.2) h⟩

theorem find_none : find m f = none ↔ ∀ k v, m[k]? = some v → f k v = false := by
  simp [find]

/-- The entries after a write: the written one and those of the other keys. -/
theorem entries_set_perm : (m.insert k v).toList.Perm ((k, v) :: (m.erase k).toList) := by
  have hn : ((k, v) :: (m.erase k).toList).Nodup := by
    refine List.nodup_cons.mpr ⟨?_, nodup_entries⟩
    simp
  refine (List.perm_ext_iff_of_nodup nodup_entries hn).mpr ?_
  rintro ⟨k', v'⟩
  simp only [mem_entries, List.mem_cons, get_delete]
  by_cases hk : k = k'
  · subst hk; simp [eq_comm]
  · simp [hk, Ne.symm hk]

theorem erase_of_none (h : m[k]? = none) : m.erase k = m := by
  refine ext_get fun k' => ?_
  rw [get_delete]
  split
  · rename_i hk; rw [← hk, h]
  · rfl

theorem erase_eq_self : m.erase k = m ↔ m[k]? = none := by
  constructor
  · intro h
    rw [← h, get_delete, if_pos rfl]
  · exact erase_of_none

theorem count_empty : count (∅ : GoMap α) f = 0 := rfl

theorem count_set : count (m.insert k v) f = count (m.erase k) f + (f k v).toNat := by
  rw [count, (entries_set_perm).countP_eq, List.countP_cons, count]
  cases f k v <;> simp

theorem count_get (h : m[k]? = some v) : count m f = count (m.erase k) f + (f k v).toNat := by
  rw [← count_set, set_get_self h]

theorem count_set_new (h : m[k]? = none) : count (m.insert k v) f = count m f + (f k v).toNat := by
  rw [count_set, erase_of_none h]

theorem sum_set {g : α → Int} : sum (m.insert k v) g = sum (m.erase k) g + g v := by
  rw [sum, (entries_set_perm.map _).sum_eq, List.map_cons, List.sum_cons, sum, Int.add_comm]

theorem sum_replace {g : α → Int} (h : m[k]? = some v) :
    sum (m.insert k w) g = sum m g + (g w - g v) := by
  have hold : sum m g = sum (m.erase k) g + g v := by rw [← sum_set, set_get_self h]
  rw [sum_set]
  omega

variable {l : List String}

/-- A map that has as many entries as a list that names its keys has an entry
for every item of the list. -/
theorem covers_of_size (hsub : ∀ k v, m[k]? = some v → k ∈ l) (hsize : l.length ≤ m.size)
    (hk : k ∈ l) : ∃ v, m[k]? = some v := by
  have hkeys : m.keys ⊆ l := by
    intro j hj
    obtain ⟨v, hv⟩ := Option.isSome_iff_exists.mp
      (Std.ExtTreeMap.isSome_getElem?_iff_mem.mpr (Std.ExtTreeMap.mem_keys.mp hj))
    exact hsub j v hv
  have hperm := (List.subperm_of_subset Std.ExtTreeMap.nodup_keys hkeys).perm_of_length_le
    (by rw [Std.ExtTreeMap.length_keys]; exact hsize)
  exact Option.isSome_iff_exists.mp (Std.ExtTreeMap.isSome_getElem?_iff_mem.mpr
    (Std.ExtTreeMap.mem_keys.mp (hperm.mem_iff.mpr hk)))

theorem length_le_size (hnodup : l.Nodup) (hsub : ∀ k ∈ l, ∃ v, m[k]? = some v) :
    l.length ≤ m.size := by
  rw [← Std.ExtTreeMap.length_keys]
  refine (List.subperm_of_subset hnodup fun k hk => ?_).length_le
  obtain ⟨v, hv⟩ := hsub k hk
  exact Std.ExtTreeMap.mem_keys.mpr (Std.ExtTreeMap.isSome_getElem?_iff_mem.mp (by simp [hv]))

/-- What holds of every other entry holds after writing one that has it. -/
theorem forall_overwrite {P : String → α → Prop}
    (h : ∀ (j : String) (b : α), m[j]? = some b → j ≠ k → P j b) (ha : P k a) (j : String) (b : α)
    (hj : (m.insert k a)[j]? = some b) : P j b := by
  rw [get_set] at hj
  split at hj
  · rename_i hk
    cases hj
    exact hk ▸ ha
  · rename_i hk
    exact h j b hj (Ne.symm hk)

theorem forall_set {P : String → α → Prop}
    (h : ∀ (j : String) (b : α), m[j]? = some b → P j b) (ha : P k a) (j : String) (b : α)
    (hj : (m.insert k a)[j]? = some b) : P j b :=
  forall_overwrite (fun j b hb _ => h j b hb) ha j b hj

section
variable {g : α → β}

def mapValues (g : α → β) (m : GoMap α) : GoMap β := m.map fun _ v => g v

@[simp] theorem get_mapValues : (mapValues g m)[k]? = m[k]?.map g := Std.ExtTreeMap.getElem?_map

theorem mapValues_set : mapValues g (m.insert k v) = (mapValues g m).insert k (g v) := by
  refine ext_get fun k' => ?_
  simp only [get_mapValues, get_set]
  split <;> rfl

theorem entries_mapValues : (mapValues g m).toList = m.toList.map fun e => (e.1, g e.2) :=
  Std.ExtTreeMap.toList_map

theorem any_mapValues (h : ∀ k v, f' k (g v) = f k v) : any (mapValues g m) f' = any m f := by
  simp only [any, entries_mapValues, List.any_map, Function.comp_def, h]

theorem count_mapValues (h : ∀ k v, f' k (g v) = f k v) :
    count (mapValues g m) f' = count m f := by
  simp only [count, entries_mapValues, List.countP_map, Function.comp_def, h]

theorem sum_mapValues (h : ∀ (k : String) (v : α), m[k]? = some v → w (g v) = w' v) :
    sum (mapValues g m) w = sum m w' := by
  simp only [sum, entries_mapValues, List.map_map]
  exact congrArg List.sum (List.map_congr_left fun e he => h e.1 e.2 (mem_entries.mp he))

end

end GoMap

end Adro.Go
