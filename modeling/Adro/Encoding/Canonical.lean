import Adro.Json.Meaning

/-!
# Canonical JSON

`core/encoding`: a text is decoded and written again without spaces, with the
keys of an object in order, with strings as the encoder of `encoding/json`
writes them and with numbers in one form. A decoded object is the sorted list of
its entries. The texts of decoding errors are left out.
-/

namespace Adro.Encoding

open Adro.Go Adro.Json

inductive CanonicalError
  | decode
  | exponent (value : Bytes)
  deriving DecidableEq, Repr

def maxExponent : Int := 10000

/-- What `json.Decoder` decodes a text to: literals of numbers, Go strings. -/
abbrev Decoded := Tree Bytes Bytes

mutual
def decode : Syntax → Decoded
  | .null => .null
  | .bool b => .bool b
  | .num n => .num n
  | .str s => .str (unquote s)
  | .arr items => .arr (decodeItems items)
  | .obj members => .obj (decodeMembers members)
def decodeItems : List Syntax → List Decoded
  | [] => []
  | t :: ts => decode t :: decodeItems ts
def decodeMembers : List (Bytes × Syntax) → List (Bytes × Decoded)
  | [] => []
  | (k, t) :: ms => insertKey (unquote k) (decode t) (decodeMembers ms)
end

/-- The exponent of a number text and what stands before it. -/
def splitExponent (value : Bytes) : Except CanonicalError (Int × Bytes) :=
  match value.dropWhile (!isExponentMark ·) with
  | [] => pure (0, value)
  | _ :: text =>
    match atoi text with
    | some parsed =>
      if parsed < -maxExponent ∨ maxExponent < parsed then throw (.exponent value)
      else pure (parsed, value.takeWhile (!isExponentMark ·))
    | none => throw (.exponent value)

/-- The loop that drops trailing zeros while there is a fraction. -/
def trimZeros : Nat → Bytes → Nat × Bytes
  | 0, digits => (0, digits)
  | scale + 1, digits =>
    if digits.getLast? == some zeroDigit then trimZeros scale digits.dropLast
    else (scale + 1, digits)

/-- The digits with the point `scale` digits from the right. -/
def placePoint (digits : Bytes) (scale : Int) : Bytes :=
  if scale ≤ 0 then digits ++ List.replicate (-scale).toNat zeroDigit
  else if scale < digits.length then
    let at_ := digits.length - scale.toNat
    digits.take at_ ++ point :: digits.drop at_
  else zeroDigit :: point :: List.replicate (scale - digits.length).toNat zeroDigit ++ digits

/-- The text of the digits without leading zeros, as many of which as `scale` says
stand after the point. -/
def formatDigits (sign digits : Bytes) (scale : Int) : Bytes :=
  if digits.isEmpty then [zeroDigit]
  else if 0 < scale then
    let (scale, digits) := trimZeros scale.toNat digits
    sign ++ placePoint digits scale
  else sign ++ placePoint digits scale

def canonicalNumber (value : Bytes) : Except CanonicalError Bytes := do
  let (sign, value) := if [minus].isPrefixOf value then ([minus], value.drop 1) else ([], value)
  let (exponent, value) ← splitExponent value
  let integer := value.takeWhile (· != point)
  let fraction := (value.dropWhile (· != point)).drop 1
  let digits := (integer ++ fraction).dropWhile (· == zeroDigit)
  return formatDigits sign digits (fraction.length - exponent)

mutual
def writeValue : Decoded → Except CanonicalError Bytes
  | .null => pure (bytesOf "null")
  | .bool true => pure (bytesOf "true")
  | .bool false => pure (bytesOf "false")
  | .str s => pure (quoted (literal s))
  | .num n => canonicalNumber n
  | .arr items => do
    let out ← writeItems items
    pure (openBracket :: out ++ [closeBracket])
  | .obj members => do
    let out ← writeMembers members
    pure (openBrace :: out ++ [closeBrace])
def writeItems : List Decoded → Except CanonicalError Bytes
  | [] => pure []
  | [t] => writeValue t
  | t :: ts => do
    let first ← writeValue t
    let rest ← writeItems ts
    pure (first ++ comma :: rest)
def writeMembers : List (Bytes × Decoded) → Except CanonicalError Bytes
  | [] => pure []
  | [(k, t)] => do
    let value ← writeValue t
    pure (quoted (literal k) ++ colon :: value)
  | (k, t) :: ms => do
    let value ← writeValue t
    let rest ← writeMembers ms
    pure (quoted (literal k) ++ colon :: value ++ comma :: rest)
end

def canonicalize (raw : Bytes) : Except CanonicalError Bytes :=
  match parse raw with
  | none => throw .decode
  | some t => writeValue (decode t)

/-- `Marshal` of a value that `encoding/json` writes as this tree. The decoder refuses a
tree that is too deep. -/
def marshal (t : Syntax) : Except CanonicalError Bytes :=
  if t.depth ≤ maxNestingDepth then writeValue (decode t) else throw .decode

/-- `hex.EncodeToString`. -/
def hexText (b : Bytes) : Bytes :=
  b.flatMap fun c => [hexDigit (c.toNat / 16), hexDigit (c.toNat % 16)]

section Digest

variable (sha : Bytes → Bytes)

def digest (t : Syntax) : Except CanonicalError Bytes :=
  (marshal t).map fun out => hexText (sha out)

def digestRaw (raw : Bytes) : Except CanonicalError Bytes :=
  (canonicalize raw).map fun out => hexText (sha out)

end Digest

end Adro.Encoding
