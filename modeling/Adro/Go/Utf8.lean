import Mathlib.Data.List.Basic

/-!
# Byte strings and runes

A `string` or `[]byte` is a sequence of bytes. `runes` is what a `range` loop
over it yields: the characters it encodes, and U+FFFD for every byte that does
not start an encoding. A string is valid when it is the encoding of its runes.
-/

namespace Adro.Go

abbrev Bytes := List UInt8

def utf8 (cs : List Char) : Bytes := cs.flatMap String.utf8EncodeChar

def bytesOf (s : String) : Bytes := utf8 s.toList

def replacement : Char := Char.ofNat 0xFFFD

/-- The character that the bytes start with, if they start with one. -/
def decodeRune (b : Bytes) : Option Char := b.toByteArray.utf8DecodeChar? 0

/-- The units after the next `skip` bytes. -/
def unitsFrom : Nat → Bytes → List (Option Char)
  | _, [] => []
  | skip + 1, _ :: rest => unitsFrom skip rest
  | 0, b :: rest =>
    match decodeRune (b :: rest) with
    | some c => some c :: unitsFrom (c.utf8Size - 1) rest
    | none => none :: unitsFrom 0 rest

/-- The characters of a string, and nothing for a byte that starts none. -/
def units (b : Bytes) : List (Option Char) := unitsFrom 0 b

def runes (b : Bytes) : List Char := (units b).map (·.getD replacement)

/-- The bytes with each that is no part of an encoding replaced by U+FFFD. -/
def toValid (b : Bytes) : Bytes := utf8 (runes b)

/-- `utf8.Valid`. -/
def Valid (b : Bytes) : Prop := toValid b = b

instance : DecidablePred Valid := fun b => inferInstanceAs (Decidable (toValid b = b))

@[simp] theorem utf8_nil : utf8 [] = [] := rfl

@[simp] theorem utf8_cons : utf8 (c :: cs) = String.utf8EncodeChar c ++ utf8 cs := rfl

theorem encode_ne_nil : String.utf8EncodeChar c ≠ [] := by
  intro h
  have hlen := String.length_utf8EncodeChar c
  rw [h] at hlen
  exact absurd c.utf8Size_pos (by rw [← hlen]; simp)

theorem decodeRune_encode : decodeRune (String.utf8EncodeChar c ++ r) = some c := by
  unfold decodeRune
  rw [List.toByteArray_append]
  exact ByteArray.utf8DecodeChar?_utf8EncodeChar_append

theorem decodeRune_some (h : decodeRune b = some c) : ∃ l, b = String.utf8EncodeChar c ++ l := by
  obtain ⟨l, hl⟩ := ByteArray.exists_of_utf8DecodeChar?_eq_some h
  refine ⟨l.data.toList, ?_⟩
  rw [← List.toByteArray_inj, hl]
  ext1
  simp

theorem unitsFrom_drop : unitsFrom n b = units (b.drop n) := by
  induction n generalizing b with
  | zero => rfl
  | succ n ih =>
    cases b with
    | nil => simp [unitsFrom, units]
    | cons x b => simp only [unitsFrom, ih, List.drop_succ_cons]

theorem units_encode : units (String.utf8EncodeChar c ++ rest) = some c :: units rest := by
  have hdec := decodeRune_encode (c := c) (r := rest)
  have hlen := String.length_utf8EncodeChar c
  cases he : String.utf8EncodeChar c with
  | nil => exact absurd he encode_ne_nil
  | cons x xs =>
    rw [he] at hdec hlen
    have hsize : c.utf8Size - 1 = xs.length := by rw [← hlen]; simp
    show unitsFrom 0 (x :: (xs ++ rest)) = _
    rw [unitsFrom, show decodeRune (x :: (xs ++ rest)) = some c from hdec]
    simp only [unitsFrom_drop, hsize, List.drop_left]

@[simp] theorem units_utf8 : units (utf8 cs) = cs.map some := by
  induction cs with
  | nil => rfl
  | cons c cs ih => rw [utf8_cons, units_encode, ih, List.map_cons]

theorem runes_encode : runes (String.utf8EncodeChar c ++ rest) = c :: runes rest := by
  unfold runes
  rw [units_encode]
  rfl

@[simp] theorem runes_utf8 : runes (utf8 cs) = cs := by
  simp [runes, Function.comp_def]

theorem valid_utf8 : Valid (utf8 cs) := by
  unfold Valid toValid
  rw [runes_utf8]

@[simp] theorem valid_toValid : Valid (toValid b) := valid_utf8

theorem runes_injective (h : Valid b) (h' : Valid b') (heq : runes b = runes b') : b = b' := by
  rw [← h, ← h', toValid, toValid, heq]

theorem valid_of_units (h : ∀ u ∈ units b, u.isSome) : Valid b := by
  generalize hn : b.length = n
  -- The encoding of the first character is not empty, so the rest is shorter.
  induction n using Nat.strongRecOn generalizing b with
  | _ n ih =>
    cases b with
    | nil => rfl
    | cons x rest =>
      have hfirst : ∃ c, decodeRune (x :: rest) = some c := by
        unfold units unitsFrom at h
        split at h
        · next hc => simp [hc]
        · exact absurd (h none (by simp)) (by simp)
      obtain ⟨c, hc⟩ := hfirst
      obtain ⟨l, hl⟩ := decodeRune_some hc
      rw [hl] at h hn ⊢
      rw [units_encode] at h
      have hpos : 0 < (String.utf8EncodeChar c).length := List.length_pos_of_ne_nil encode_ne_nil
      rw [List.length_append] at hn
      have hrec : toValid l = l := ih l.length (by omega) (fun u hu => h u (by simp [hu])) rfl
      unfold Valid toValid
      rw [runes_encode]
      exact congrArg _ hrec

end Adro.Go
