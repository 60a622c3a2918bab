import Adro.Go.Basic
import Adro.Go.Utf8

/-!
# Byte strings as texts and as keys

The functions of `strings` that look at the characters of a byte string, for
the lower case and the folding of one character, and maps whose keys are byte
strings. A byte that starts no character is read as U+FFFD.
-/

namespace Adro.Go

def newline : UInt8 := 0x0A

/-- The characters of `strings.ToLower`. -/
def lowered (lower : Char → Char) (b : Bytes) : List Char := (runes b).map lower

/-- `strings.EqualFold`. -/
def foldEqual (fold : Char → Char) (s t : Bytes) : Bool := (runes s).map fold == (runes t).map fold

/-- `strings.FieldsFunc`. -/
def fieldsBy (separates : Char → Bool) (cs : List Char) : List (List Char) :=
  (cs.splitOnP separates).filter fun field => !field.isEmpty

/-- `strings.Fields`. -/
def fields (cs : List Char) : List (List Char) := fieldsBy isSpace cs

/-- `strings.Join`. -/
def joined {α : Type} (separator : List α) (parts : List (List α)) : List α :=
  separator.intercalate parts

/-- What stands before the first occurrence of a text, as `strings.Index` finds it. -/
def beforeFirst (sub : List Char) : List Char → Option (List Char)
  | [] => if sub.isEmpty then some [] else none
  | c :: cs => if sub.isPrefixOf (c :: cs) then some [] else (beforeFirst sub cs).map (c :: ·)

/-- `strings.ReplaceAll` of the two bytes of a line end by one. -/
def unixLines : Bytes → Bytes
  | 0x0D :: 0x0A :: rest => newline :: unixLines rest
  | b :: rest => b :: unixLines rest
  | [] => []

/-- `strings.Split` at newlines. -/
def lines (b : Bytes) : List Bytes := b.splitOn newline

def bytesLess (s t : Bytes) : Bool := @compare Bytes List.instOrd s t == .lt

abbrev ByteMap (α : Type) := Std.ExtTreeMap Bytes α (@compare Bytes List.instOrd)

namespace ByteMap

variable {α : Type} {m m' : ByteMap α} {k k' : Bytes} {v : α}

theorem get_set : (m.insert k v)[k']? = if k = k' then some v else m[k']? := by
  simp [Std.ExtTreeMap.getElem?_insert]

@[simp] theorem get_set_same : (m.insert k v)[k]? = some v := by
  simp

@[simp] theorem get_set_ne (h : k ≠ k') : (m.insert k v)[k']? = m[k']? := by
  simp [get_set, h]

theorem ext_get (h : ∀ k : Bytes, m[k]? = m'[k]?) : m = m' := Std.ExtTreeMap.ext_getElem? h

theorem set_get_self (h : m[k]? = some v) : m.insert k v = m := by
  apply ext_get
  intro k'
  rw [get_set]
  split
  · next hk => rw [← hk, h]
  · rfl

end ByteMap

end Adro.Go
