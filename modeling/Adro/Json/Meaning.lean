import Adro.Json.Quote
import Adro.Json.Number
import Adro.Lib.Assoc

/-!
# Meaning of a text

The value that a text denotes: a number is its rational value, a string its code
points, an array its items in order, and an object a map from names to values in
which the last member of a name counts. A string with a byte that is no part of
an encoding denotes nothing.
-/

namespace Adro.Json

open Adro.Go

inductive JsonValue
  | null
  | bool (b : Bool)
  | num (q : ℚ)
  | str (s : List Nat)
  | arr (items : List JsonValue)
  | obj (members : List Nat → Option JsonValue)

mutual
def Tree.denote : Syntax → Option JsonValue
  | .null => some .null
  | .bool b => some (.bool b)
  | .num n => (numberValue n).map .num
  | .str s => (codePoints s).map .str
  | .arr items => (denoteItems items).map .arr
  | .obj members => (denoteMembers members).map fun ms => .obj (lastOf ms)
def denoteItems : List Syntax → Option (List JsonValue)
  | [] => some []
  | t :: ts => do
    let v ← t.denote
    let vs ← denoteItems ts
    some (v :: vs)
def denoteMembers : List (Bytes × Syntax) → Option (List (List Nat × JsonValue))
  | [] => some []
  | (k, t) :: ms => do
    let name ← codePoints k
    let v ← t.denote
    let vs ← denoteMembers ms
    some ((name, v) :: vs)
end

def denote (b : Bytes) : Option JsonValue := (parse b).bind Tree.denote

mutual
/-- No string of the tree has a lone surrogate or a byte that encodes nothing. -/
def Tree.Clean : Syntax → Prop
  | .null => True
  | .bool _ => True
  | .num _ => True
  | .str s => Json.Clean s
  | .arr items => CleanItems items
  | .obj members => CleanMembers members
def CleanItems : List Syntax → Prop
  | [] => True
  | t :: ts => t.Clean ∧ CleanItems ts
def CleanMembers : List (Bytes × Syntax) → Prop
  | [] => True
  | (k, t) :: ms => Json.Clean k ∧ t.Clean ∧ CleanMembers ms
end

mutual
def Tree.decidableClean : (t : Syntax) → Decidable t.Clean
  | .null => isTrue trivial
  | .bool _ => isTrue trivial
  | .num _ => isTrue trivial
  | .str s => inferInstanceAs (Decidable (Json.Clean s))
  | .arr items => decidableCleanItems items
  | .obj members => decidableCleanMembers members
def decidableCleanItems : (ts : List Syntax) → Decidable (CleanItems ts)
  | [] => isTrue trivial
  | t :: ts =>
    have := t.decidableClean
    have := decidableCleanItems ts
    inferInstanceAs (Decidable (t.Clean ∧ CleanItems ts))
def decidableCleanMembers : (ms : List (Bytes × Syntax)) → Decidable (CleanMembers ms)
  | [] => isTrue trivial
  | (k, t) :: ms =>
    have := t.decidableClean
    have := decidableCleanMembers ms
    inferInstanceAs (Decidable (Json.Clean k ∧ t.Clean ∧ CleanMembers ms))
end

instance : DecidablePred (Tree.Clean) := Tree.decidableClean

def CleanText (b : Bytes) : Prop := ∀ t ∈ parse b, t.Clean

instance : DecidablePred CleanText := fun b =>
  match h : parse b with
  | none => isTrue fun t ht => by rw [h] at ht; cases ht
  | some t => decidable_of_iff t.Clean ⟨fun hc u hu => by
      rw [h] at hu
      cases hu
      exact hc, fun hc => hc t h⟩

end Adro.Json
