import Adro.Go.Value

/-!
# Decoding JSON

`json.Unmarshal` of a text into an `any`. The grammar is that of the decoder of
the standard library: a number becomes the nearest `float64`, the last of several
equal keys wins, a lone surrogate becomes U+FFFD, and nesting is limited. A
number too large for a `float64` is an error that is reported after the rest of
the text has been decoded.
-/

namespace Adro.Go

/-- The nearest integer, ties to the even one. -/
def halfEven (q : Rat) : Int :=
  let f := q.floor
  let r := q - f
  if r < 1 / 2 then f else if 1 / 2 < r then f + 1 else if f % 2 == 0 then f else f + 1

def pow2 (e : Int) : Rat :=
  if 0 ≤ e then ((2 ^ e.toNat : Nat) : Rat) else 1 / (2 ^ (-e).toNat : Nat)

/-- The exponent `e` with `2 ^ e ≤ q < 2 ^ (e + 1)`. -/
def binaryExponent (q : Rat) : Int :=
  let e : Int := (Nat.log2 q.num.natAbs : Int) - Nat.log2 q.den
  if q < pow2 e then e - 1 else e

/-- The nearest `float64`, ties to the even significand. -/
def F64.round (q : Rat) : F64 :=
  if q == 0 then .finite 0
  else
    let a := if q < 0 then -q else q
    let ulp := pow2 (max (binaryExponent a) (-1022) - 52)
    let r := halfEven (a / ulp) * ulp
    if pow2 1024 ≤ r then .inf (q < 0) else .finite (if q < 0 then -r else r)

def F64.mul : F64 → F64 → F64
  | .finite a, .finite b => .round (a * b)
  | .inf s, .inf t => .inf (s != t)
  | .inf s, .finite b => if b == 0 then .nan else .inf (s != decide (b < 0))
  | .finite a, .inf s => if a == 0 then .nan else .inf (s != decide (a < 0))
  | _, _ => .nan

/-- The quotient of two integers as floats; the divisor is not zero. -/
def F64.ratio (n m : Int) : F64 := .round (f64OfInt n / f64OfInt m : Rat)

namespace Decoder

/-- A decoded value, and whether every number in it is in range. One that is
not is decoded as nil. -/
structure Decoded where
  value : Value
  inRange : Bool

section

variable (cs : List Char)

def digitsValue : Nat := cs.foldl (fun n c => 10 * n + (c.toNat - 48)) 0

/-- `digits * 10 ^ e`. Magnitudes far outside the range are not computed. -/
def decimal (negative : Bool) (digits : Nat) (width : Nat) (e : Int) : Decoded :=
  let sign : Rat := if negative then -1 else 1
  if digits == 0 || width + e < -400 then ⟨.float .float64 (.finite 0), true⟩
  else if 400 < width + e then ⟨.null, false⟩
  else
    let scale : Rat := if 0 ≤ e then ((10 ^ e.toNat : Nat) : Rat) else 1 / (10 ^ (-e).toNat : Nat)
    match F64.round (sign * digits * scale) with
    | .finite q => ⟨.float .float64 (.finite q), true⟩
    | _ => ⟨.null, false⟩

/-- The digits at the front; a number has at least one. -/
def takeDigits : Option (List Char × List Char) :=
  match cs.span Char.isDigit with
  | ([], _) => none
  | split => some split

def takeExponent : Option (Int × List Char) :=
  match cs with
  | c :: rest =>
    if c == 'e' || c == 'E' then
      let (negative, rest) := match rest with
        | '-' :: rest => (true, rest)
        | '+' :: rest => (false, rest)
        | _ => (false, rest)
      (takeDigits rest).map fun (ds, rest) =>
        (if negative then -(digitsValue ds : Int) else digitsValue ds, rest)
    else some (0, cs)
  | [] => some (0, [])

def takeFraction : Option (List Char × List Char) :=
  match cs with
  | '.' :: rest => takeDigits rest
  | _ => some ([], cs)

/-- A number; leading zeros are refused. -/
def parseNumber : Option (Decoded × List Char) := do
  let (negative, cs) := match cs with
    | '-' :: rest => (true, rest)
    | _ => (false, cs)
  let (whole, cs) ← takeDigits cs
  if whole.head? == some '0' && whole.length != 1 then none
  let (fraction, cs) ← takeFraction cs
  let (e, cs) ← takeExponent cs
  let digits := whole ++ fraction
  some (decimal negative (digitsValue digits) digits.length (e - fraction.length), cs)

end

def hexDigit (c : Char) : Option Nat :=
  if c.isDigit then some (c.toNat - 48)
  else if 'a' ≤ c && c ≤ 'f' then some (c.toNat - 87)
  else if 'A' ≤ c && c ≤ 'F' then some (c.toNat - 55)
  else none

def hex4 : List Char → Option (Nat × List Char)
  | a :: b :: c :: d :: rest => do
    let a ← hexDigit a
    let b ← hexDigit b
    let c ← hexDigit c
    let d ← hexDigit d
    some (((a * 16 + b) * 16 + c) * 16 + d, rest)
  | _ => none

/-- A code unit after the `\u`, joined with a low surrogate that follows it. -/
def unicodeEscape (cs : List Char) : Option (Char × List Char) := do
  let (u, rest) ← hex4 cs
  if 0xD800 ≤ u && u < 0xDC00 then
    match rest with
    | '\\' :: 'u' :: low =>
      match hex4 low with
      | some (v, rest') =>
        if 0xDC00 ≤ v && v < 0xE000 then
          some (Char.ofNat (0x10000 + (u - 0xD800) * 1024 + (v - 0xDC00)), rest')
        else some (Char.ofNat 0xFFFD, rest)
      | none => some (Char.ofNat 0xFFFD, rest)
    | _ => some (Char.ofNat 0xFFFD, rest)
  else if 0xDC00 ≤ u && u < 0xE000 then some (Char.ofNat 0xFFFD, rest)
  else some (Char.ofNat u, rest)

def simpleEscape : Char → Option Char
  | '"' => some '"'
  | '\\' => some '\\'
  | '/' => some '/'
  | 'b' => some (Char.ofNat 8)
  | 'f' => some (Char.ofNat 12)
  | 'n' => some '\n'
  | 'r' => some '\r'
  | 't' => some '\t'
  | _ => none

def parseString : Nat → List Char → Option (List Char × List Char)
  | 0, _ | _, [] => none
  | fuel + 1, c :: cs =>
    if c == '"' then some ([], cs)
    else if c.toNat < 32 then none
    else if c == '\\' then
      match cs with
      | 'u' :: cs => do
        let (c, cs) ← unicodeEscape cs
        let (text, cs) ← parseString fuel cs
        some (c :: text, cs)
      | e :: cs => do
        let c ← simpleEscape e
        let (text, cs) ← parseString fuel cs
        some (c :: text, cs)
      | [] => none
    else do
      let (text, cs) ← parseString fuel cs
      some (c :: text, cs)

def skipSpace (cs : List Char) : List Char :=
  cs.dropWhile fun c => c == ' ' || c == '\t' || c == '\r' || c == '\n'

/-- Enter a member in key order, in the place of an equal key. -/
def setMember (k : String) (v : Value) : List (String × Value) → List (String × Value)
  | [] => [(k, v)]
  | (k', v') :: rest =>
    if k < k' then (k, v) :: (k', v') :: rest
    else if k == k' then (k, v) :: rest
    else (k', v') :: setMember k v rest

mutual
/-- One value. The fuel bounds the calls. -/
def parseValue : Nat → List Char → Option (Decoded × List Char)
  | 0, _ => none
  | fuel + 1, cs =>
    match skipSpace cs with
    | '[' :: cs =>
      match skipSpace cs with
      | ']' :: cs => some (⟨.list [], true⟩, cs)
      | _ => (parseItems fuel cs).map fun (items, ok, cs) => (⟨.list items, ok⟩, cs)
    | '{' :: cs =>
      match skipSpace cs with
      | '}' :: cs => some (⟨.obj [], true⟩, cs)
      | _ => (parseMembers fuel [] cs).map fun (members, ok, cs) => (⟨.obj members, ok⟩, cs)
    | '"' :: cs =>
      (parseString (cs.length + 1) cs).map fun (text, cs) =>
        (⟨.str (String.ofList text), true⟩, cs)
    | 't' :: 'r' :: 'u' :: 'e' :: cs => some (⟨.bool true, true⟩, cs)
    | 'f' :: 'a' :: 'l' :: 's' :: 'e' :: cs => some (⟨.bool false, true⟩, cs)
    | 'n' :: 'u' :: 'l' :: 'l' :: cs => some (⟨.null, true⟩, cs)
    | cs => parseNumber cs
/-- The items of an array that has one, up to its end. -/
def parseItems : Nat → List Char → Option (List Value × Bool × List Char)
  | 0, _ => none
  | fuel + 1, cs =>
    match parseValue fuel cs with
    | none => none
    | some (v, cs) =>
      match skipSpace cs with
      | ',' :: cs => (parseItems fuel cs).map fun (items, ok, cs) =>
          (v.value :: items, v.inRange && ok, cs)
      | ']' :: cs => some ([v.value], v.inRange, cs)
      | _ => none
/-- The members of an object that has one, entered after those before. -/
def parseMembers : Nat → List (String × Value) → List Char →
    Option (List (String × Value) × Bool × List Char)
  | 0, _, _ => none
  | fuel + 1, before, cs =>
    match skipSpace cs with
    | '"' :: cs =>
      match parseString (cs.length + 1) cs with
      | none => none
      | some (key, cs) =>
        match skipSpace cs with
        | ':' :: cs =>
          match parseValue fuel cs with
          | none => none
          | some (v, cs) =>
            let members := setMember (String.ofList key) v.value before
            match skipSpace cs with
            | ',' :: cs => (parseMembers fuel members cs).map fun (members, ok, cs) =>
                (members, v.inRange && ok, cs)
            | '}' :: cs => some (members, v.inRange, cs)
            | _ => none
        | _ => none
    | _ => none
end

/-- The value of a text that is one JSON value. -/
def jsonValue (text : String) : Option Decoded :=
  match parseValue (2 * text.length + 2) text.toList with
  | some (v, rest) => if (skipSpace rest).isEmpty then some v else none
  | none => none

def maxNestingDepth : Nat := 10000

/-- The most containers that are open at one place of a JSON text; in a string there are none. -/
def nesting : Bool → Nat → List Char → Nat
  | _, _, [] => 0
  | true, depth, '\\' :: _ :: cs => nesting true depth cs
  | true, depth, c :: cs => nesting (c != '"') depth cs
  | false, depth, c :: cs =>
    if c == '"' then nesting true depth cs
    else if c == '[' || c == '{' then max (depth + 1) (nesting false (depth + 1) cs)
    else if c == ']' || c == '}' then nesting false (depth - 1) cs
    else nesting false depth cs

/-- The value that is decoded; `json.Unmarshal` returns nil when its numbers are also in range. -/
def unmarshal (text : String) : Option Decoded :=
  if maxNestingDepth < nesting false 0 text.toList then none else jsonValue text

end Decoder

end Adro.Go
