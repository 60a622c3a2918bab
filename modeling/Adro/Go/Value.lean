import Adro.Go.Basic
import Adro.Go.Map

/-!
# Dynamically typed values

The values an `any` holds in a structured result or a predicate. Numbers keep
their Go type, because type switches and `reflect.DeepEqual` see it. A float is
its exact rational value, or an infinity, or not a number.
-/

namespace Adro.Go

inductive IntKind
  | int | int8 | int16 | int32 | int64 | uint | uint8 | uint16 | uint32 | uint64
  deriving DecidableEq, Repr

inductive FloatKind
  | float32 | float64
  deriving DecidableEq, Repr

inductive F64
  | finite (q : Rat)
  | inf (negative : Bool)
  | nan
  deriving DecidableEq

/-- The members of an object are listed in key order. A value of any other
static type (a struct, a typed map or slice) is its type name and the value
its JSON text decodes to. -/
inductive Value
  | null
  | bool (b : Bool)
  | str (s : String)
  | int (kind : IntKind) (n : Int)
  | float (kind : FloatKind) (x : F64)
  | strs (items : List String)
  | list (items : List Value)
  | obj (members : List (String × Value))
  | typed (name : String) (image : Value)

instance : Inhabited Value := ⟨.null⟩

/-- The nearest multiple of `2 ^ shift`, ties to the even multiple. -/
def roundTo (shift a : Nat) : Nat :=
  let q := a / 2 ^ shift
  let r := a % 2 ^ shift
  let half := 2 ^ (shift - 1)
  if r > half || (r == half && q % 2 == 1) then (q + 1) * 2 ^ shift else q * 2 ^ shift

/-- The conversion `float64(n)`: exact up to 53 bits, else rounded to even. -/
def f64OfInt (n : Int) : Int :=
  let a := n.natAbs
  if a < 2 ^ 53 then n else n.sign * roundTo (Nat.log2 a - 52) a

def F64.ofInt (n : Int) : F64 := .finite (f64OfInt n)

/-- The conversion `int64(x)`: truncation, and the least integer when the
truncated value is out of range, as on amd64. -/
def F64.toInt64 : F64 → Int
  | .finite q =>
    let t := if q < 0 then q.ceil else q.floor
    if -2 ^ 63 ≤ t && t ≤ maxInt64 then t else -2 ^ 63
  | .inf _ | .nan => -2 ^ 63

theorem F64.toInt64_le (x : F64) : x.toInt64 ≤ maxInt64 := by
  have hmin : (-2 ^ 63 : Int) ≤ maxInt64 := by decide
  cases x with
  | finite q =>
    simp only [F64.toInt64]
    generalize (if q < 0 then q.ceil else q.floor) = t
    split
    · rename_i h
      simp only [Bool.and_eq_true, decide_eq_true_eq] at h
      exact h.2
    · exact hmin
  | inf _ => exact hmin
  | nan => exact hmin

def F64.eq : F64 → F64 → Bool
  | .finite a, .finite b => a == b
  | .inf a, .inf b => a == b
  | _, _ => false

def F64.lt : F64 → F64 → Bool
  | .finite a, .finite b => decide (a < b)
  | .finite _, .inf negative => !negative
  | .inf negative, .finite _ => negative
  | .inf a, .inf b => a && !b
  | _, _ => false

def F64.le (a b : F64) : Bool := a.lt b || a.eq b

mutual
/-- `reflect.DeepEqual`: the dynamic types agree and so do the contents. -/
def Value.deepEqual : Value → Value → Bool
  | .null, .null => true
  | .bool a, .bool b => a == b
  | .str a, .str b => a == b
  | .int j a, .int k b => j == k && a == b
  | .float j a, .float k b => j == k && a.eq b
  | .strs a, .strs b => a == b
  | .list a, .list b => deepEqualItems a b
  | .obj a, .obj b => deepEqualMembers a b
  | .typed n a, .typed m b => n == m && a.deepEqual b
  | _, _ => false
def deepEqualItems : List Value → List Value → Bool
  | [], [] => true
  | a :: as, b :: bs => a.deepEqual b && deepEqualItems as bs
  | _, _ => false
def deepEqualMembers : List (String × Value) → List (String × Value) → Bool
  | [], [] => true
  | (k, a) :: as, (l, b) :: bs => k == l && a.deepEqual b && deepEqualMembers as bs
  | _, _ => false
end

/-- A type assertion to `string`. -/
def Value.str? : Value → Option String
  | .str s => some s
  | _ => none

/-- The elements of a `[]any` that are strings. -/
def stringItems (items : List Value) : List String := items.filterMap Value.str?

/-- The `number` conversion of the predicate evaluator. -/
def Value.number : Value → Option F64
  | .int .int n | .int .int64 n => some (.ofInt n)
  | .float _ x => some x
  | _ => none

mutual
/-- What the JSON text of a value decodes to in an `any`: every number is a
`float64` and every sequence a `[]any`. Infinities and NaN have no text.
`short` is the value of the shortest decimal that identifies a `float32`. -/
def Value.image (short : Rat → Rat) : Value → Option Value
  | .null => some .null
  | .bool b => some (.bool b)
  | .str s => some (.str s)
  | .int _ n => some (.float .float64 (.ofInt n))
  | .float .float64 (.finite q) => some (.float .float64 (.finite q))
  | .float .float32 (.finite q) => some (.float .float64 (.finite (short q)))
  | .float _ _ => none
  | .strs items => some (.list (items.map .str))
  | .list items => (imageItems short items).map .list
  | .obj members => (imageMembers short members).map .obj
  | .typed _ v => v.image short
def imageItems (short : Rat → Rat) : List Value → Option (List Value)
  | [] => some []
  | v :: rest => do
    let w ← v.image short
    let rest ← imageItems short rest
    pure (w :: rest)
def imageMembers (short : Rat → Rat) : List (String × Value) → Option (List (String × Value))
  | [] => some []
  | (k, v) :: rest => do
    let w ← v.image short
    let rest ← imageMembers short rest
    pure ((k, w) :: rest)
end

mutual
theorem Value.image_image :
    ∀ {v w : Value}, v.image short = some w → w.image short = some w
  | .null, w, h => by cases h; rfl
  | .bool b, w, h => by cases h; rfl
  | .str s, w, h => by cases h; rfl
  | .int kind n, w, h => by cases h; rfl
  | .float .float64 (.finite q), w, h => by cases h; rfl
  | .float .float32 (.finite q), w, h => by cases h; rfl
  | .float kind (.inf negative), w, h => by cases kind <;> cases h
  | .float kind .nan, w, h => by cases kind <;> cases h
  | .strs items, w, h => by
    cases h
    have hitems : ∀ items : List String,
        imageItems short (items.map .str) = some (items.map .str) := by
      intro items
      induction items with
      | nil => rfl
      | cons s rest ih => simp [imageItems, Value.image, ih]
    simp [Value.image, hitems]
  | .list items, w, h => by
    simp only [Value.image, Option.map_eq_some_iff] at h
    obtain ⟨items', hitems, rfl⟩ := h
    simp [Value.image, imageItems_image hitems]
  | .obj members, w, h => by
    simp only [Value.image, Option.map_eq_some_iff] at h
    obtain ⟨members', hmembers, rfl⟩ := h
    simp [Value.image, imageMembers_image hmembers]
  | .typed name v, w, h => by
    simp only [Value.image] at h
    exact Value.image_image h
theorem imageItems_image :
    ∀ {items items' : List Value}, imageItems short items = some items' →
      imageItems short items' = some items'
  | [], items', h => by cases h; rfl
  | v :: rest, items', h => by
    simp only [imageItems, Option.bind_eq_bind, Option.bind_eq_some_iff, Option.pure_def,
      Option.some.injEq] at h
    obtain ⟨w, hw, rest', hrest, rfl⟩ := h
    simp [imageItems, Value.image_image hw, imageItems_image hrest]
theorem imageMembers_image :
    ∀ {members members' : List (String × Value)}, imageMembers short members = some members' →
      imageMembers short members' = some members'
  | [], members', h => by cases h; rfl
  | (k, v) :: rest, members', h => by
    simp only [imageMembers, Option.bind_eq_bind, Option.bind_eq_some_iff, Option.pure_def,
      Option.some.injEq] at h
    obtain ⟨w, hw, rest', hrest, rfl⟩ := h
    simp [imageMembers, Value.image_image hw, imageMembers_image hrest]
end

variable {short : Rat → Rat}

theorem Value.image_ne_typed :
    ∀ v : Value, v.image short ≠ some (.typed name x)
  | .null, h | .bool _, h | .str _, h | .int _ _, h | .strs _, h => by cases h
  | .float kind y, h => by cases kind <;> cases y <;> cases h
  | .list items, h => by simp [Value.image] at h
  | .obj members, h => by simp [Value.image] at h
  | .typed _ v, h => Value.image_ne_typed v (by simpa only [Value.image] using h)

mutual
theorem Value.deepEqual_self :
    ∀ {v : Value}, v.image short = some v → v.deepEqual v = true
  | .null, _ => rfl
  | .bool b, _ => by simp [Value.deepEqual]
  | .str s, _ => by simp [Value.deepEqual]
  | .int kind n, _ => by simp [Value.deepEqual]
  | .float kind (.finite q), _ => by simp [Value.deepEqual, F64.eq]
  | .float kind (.inf negative), _ => by simp [Value.deepEqual, F64.eq]
  | .float kind .nan, h => by cases kind <;> cases h
  | .strs items, _ => by simp [Value.deepEqual]
  | .list items, h => by
    simp only [Value.image, Option.map_eq_some_iff, Value.list.injEq, exists_eq_right] at h
    simp [Value.deepEqual, deepEqualItems_self h]
  | .obj members, h => by
    simp only [Value.image, Option.map_eq_some_iff, Value.obj.injEq, exists_eq_right] at h
    simp [Value.deepEqual, deepEqualMembers_self h]
  | .typed name v, h => absurd h (Value.image_ne_typed _)
theorem deepEqualItems_self :
    ∀ {items : List Value}, imageItems short items = some items → deepEqualItems items items = true
  | [], _ => rfl
  | v :: rest, h => by
    simp only [imageItems, Option.bind_eq_bind, Option.bind_eq_some_iff, Option.pure_def,
      Option.some.injEq, List.cons.injEq] at h
    obtain ⟨w, hw, rest', hrest, rfl, rfl⟩ := h
    simp [deepEqualItems, Value.deepEqual_self hw, deepEqualItems_self hrest]
theorem deepEqualMembers_self :
    ∀ {members : List (String × Value)}, imageMembers short members = some members →
      deepEqualMembers members members = true
  | [], _ => rfl
  | (k, v) :: rest, h => by
    simp only [imageMembers, Option.bind_eq_bind, Option.bind_eq_some_iff, Option.pure_def,
      Option.some.injEq, List.cons.injEq, Prod.mk.injEq, true_and] at h
    obtain ⟨w, hw, rest', hrest, rfl, rfl⟩ := h
    simp [deepEqualMembers, Value.deepEqual_self hw, deepEqualMembers_self hrest]
end

/-- The same for the entries of a `map[string]any`. -/
def imageFields (short : Rat → Rat) (fields : GoMap Value) : Option (GoMap Value) :=
  if fields.all fun _ v => (v.image short).isSome then
    some (fields.filterMap fun _ v => v.image short)
  else none

variable {fields image : GoMap Value}

theorem imageFields_some :
    imageFields short fields = some image ↔
      ∀ k : String, (fields[k]? = none → image[k]? = none) ∧
        ∀ v, fields[k]? = some v → ∃ w, v.image short = some w ∧ image[k]? = some w := by
  have hget (k : String) : (fields.filterMap fun _ v => v.image short)[k]? =
      fields[k]?.bind fun v => v.image short := Std.ExtTreeMap.getElem?_filterMap'
  unfold imageFields
  constructor
  · intro h k
    split at h
    · rename_i hall
      have hk := hget k
      rw [Option.some.inj h] at hk
      refine ⟨fun hnone => by rw [hk, hnone]; rfl, fun v hv => ?_⟩
      obtain ⟨w, hw⟩ := Option.isSome_iff_exists.mp (GoMap.all_iff.mp hall k v hv)
      exact ⟨w, hw, by rw [hk, hv]; exact hw⟩
    · cases h
  · intro h
    have hall : fields.all (fun _ v => (v.image short).isSome) = true :=
      GoMap.all_iff.mpr fun k v hv => by
        obtain ⟨w, hw, -⟩ := (h k).2 v hv
        rw [hw]; rfl
    rw [if_pos hall]
    refine congrArg some (GoMap.ext_get fun k => ?_)
    rw [hget]
    cases hv : fields[k]? with
    | none => exact ((h k).1 hv).symm
    | some v =>
      obtain ⟨w, hw, hi⟩ := (h k).2 v hv
      rw [hi]; exact hw

theorem imageFields_set_str (h : imageFields short fields = some image) :
    imageFields short (fields.insert k (.str s)) = some (image.insert k (.str s)) := by
  refine imageFields_some.mpr fun j => ?_
  simp only [GoMap.get_set]
  split
  · refine ⟨fun hnone => by simp at hnone, fun v hv => ⟨.str s, ?_, rfl⟩⟩
    rw [← Option.some.inj hv]
    rfl
  · exact imageFields_some.mp h j

theorem imageFields_stable :
    imageFields short fields = some fields ↔
      ∀ (k : String) (v : Value), fields[k]? = some v → v.image short = some v := by
  constructor
  · intro h k v hv
    obtain ⟨w, hw, hk⟩ := (imageFields_some.mp h k).2 v hv
    rw [hv] at hk
    cases hk
    exact hw
  · exact fun h => imageFields_some.mpr fun k => ⟨id, fun v hv => ⟨v, h k v hv, hv⟩⟩

end Adro.Go
