import Adro.Go.Utf8

/-!
# JSON texts

The grammar that the decoder of `encoding/json` accepts. A tree keeps the
literals of a text: a number as it is written, a string as what stands between
its quotes. `parse` reads a text, `Tree.text` writes a tree without any space.
The members of an object are read with the text of their values, which is what
a raw message holds.
-/

namespace Adro.Json

open Adro.Go

/-- A value with numbers in `ν` and strings in `σ`. -/
inductive Tree (ν σ : Type)
  | null
  | bool (b : Bool)
  | num (n : ν)
  | str (s : σ)
  | arr (items : List (Tree ν σ))
  | obj (members : List (σ × Tree ν σ))

abbrev Syntax := Tree Bytes Bytes

abbrev quoteMark : UInt8 := 0x22
abbrev plus : UInt8 := 0x2B
abbrev comma : UInt8 := 0x2C
abbrev minus : UInt8 := 0x2D
abbrev point : UInt8 := 0x2E
abbrev colon : UInt8 := 0x3A
abbrev openBracket : UInt8 := 0x5B
abbrev backslash : UInt8 := 0x5C
abbrev closeBracket : UInt8 := 0x5D
abbrev openBrace : UInt8 := 0x7B
abbrev closeBrace : UInt8 := 0x7D

def isSpaceByte (b : UInt8) : Bool := b == 0x20 || b == 0x09 || b == 0x0D || b == 0x0A

def skipSpace (b : Bytes) : Bytes := b.dropWhile isSpaceByte

def isDigit (b : UInt8) : Bool := 0x30 ≤ b && b ≤ 0x39

def isExponentMark (b : UInt8) : Bool := b == 0x65 || b == 0x45

def hexValue (b : UInt8) : Option Nat :=
  if isDigit b then some (b.toNat - 0x30)
  else if 0x61 ≤ b && b ≤ 0x66 then some (b.toNat - 0x61 + 10)
  else if 0x41 ≤ b && b ≤ 0x46 then some (b.toNat - 0x41 + 10)
  else none

def after (word b : Bytes) : Option Bytes :=
  if word.isPrefixOf b then some (b.drop word.length) else none

/-- The exponent of a number: its mark, its sign and its digits. -/
structure Exponent where
  mark : UInt8
  sign : Bytes
  digits : Bytes

/-- The parts of a number. The fraction is empty when there is no point. -/
structure Number where
  negative : Bool
  integer : Bytes
  fraction : Bytes
  exponent : Option Exponent

def Exponent.text (e : Exponent) : Bytes := e.mark :: e.sign ++ e.digits

section

variable (p : Number) (b : Bytes)

def Number.signText : Bytes := if p.negative then [minus] else []

def Number.fractionText : Bytes :=
  if p.fraction.isEmpty then [] else point :: p.fraction

def Number.exponentText : Bytes := (p.exponent.map Exponent.text).getD []

def Number.text : Bytes :=
  p.signText ++ p.integer ++ p.fractionText ++ p.exponentText

def scanMinus : Bool × Bytes :=
  match b with
  | [] => (false, [])
  | c :: rest => if c == minus then (true, rest) else (false, b)

/-- The integer part of a number, in which a leading zero stands alone. -/
def scanInteger : Option (Bytes × Bytes) :=
  let digits := b.takeWhile isDigit
  if digits.isEmpty || (digits.head? == some 0x30 && digits.length != 1) then none
  else some (digits, b.dropWhile isDigit)

def scanFraction : Option (Bytes × Bytes) :=
  match b with
  | [] => some ([], [])
  | c :: rest =>
    if c == point then
      if (rest.takeWhile isDigit).isEmpty then none
      else some (rest.takeWhile isDigit, rest.dropWhile isDigit)
    else some ([], b)

def scanSign : Bytes × Bytes :=
  match b with
  | [] => ([], [])
  | c :: rest => if c == plus || c == minus then ([c], rest) else ([], b)

def scanExponent : Option (Option Exponent × Bytes) :=
  match b with
  | [] => some (none, [])
  | c :: rest =>
    if isExponentMark c then
      let (sign, digits) := scanSign rest
      if (digits.takeWhile isDigit).isEmpty then none
      else some (some ⟨c, sign, digits.takeWhile isDigit⟩, digits.dropWhile isDigit)
    else some (none, b)

/-- The parts of a number at the front and what follows it. -/
def readNumber : Option (Number × Bytes) := do
  let (negative, b) := scanMinus b
  let (integer, b) ← scanInteger b
  let (fraction, b) ← scanFraction b
  let (exponent, b) ← scanExponent b
  some (⟨negative, integer, fraction, exponent⟩, b)

def scanNumber : Option (Bytes × Bytes) :=
  (readNumber b).map fun (p, rest) => (p.text, rest)

end

def simpleEscape (b : UInt8) : Option Char :=
  if b == quoteMark then some '"'
  else if b == backslash then some '\\'
  else if b == 0x2F then some '/'
  else if b == 0x62 then some '\x08'
  else if b == 0x66 then some '\x0c'
  else if b == 0x6E then some '\n'
  else if b == 0x72 then some '\r'
  else if b == 0x74 then some '\t'
  else none

/-- The string up to its closing literal and what follows the literal. -/
def scanString : Bytes → Option (Bytes × Bytes)
  | [] => none
  | c :: rest =>
    if c == quoteMark then some ([], rest)
    else if c < 0x20 then none
    else if c == backslash then
      match rest with
      | [] => none
      | e :: rest' =>
        if e == 0x75 then
          match rest' with
          | h₁ :: h₂ :: h₃ :: h₄ :: rest'' =>
            if [h₁, h₂, h₃, h₄].all fun h => (hexValue h).isSome then
              (scanString rest'').map fun (s, b) => (c :: e :: h₁ :: h₂ :: h₃ :: h₄ :: s, b)
            else none
          | _ => none
        else if (simpleEscape e).isSome then (scanString rest').map fun (s, b) => (c :: e :: s, b)
        else none
    else (scanString rest).map fun (s, b) => (c :: s, b)

def maxNestingDepth : Nat := 10000

structure Member where
  key : Bytes
  value : Syntax
  raw : Bytes

mutual
/-- One value. The fuel bounds the calls; `depth` counts the open containers. -/
def parseValue : Nat → Nat → Bytes → Option (Syntax × Bytes)
  | 0, _, _ => none
  | fuel + 1, depth, b =>
    match skipSpace b with
    | [] => none
    | c :: rest =>
      if c == openBracket then
        if maxNestingDepth ≤ depth then none
        else
          match after [closeBracket] (skipSpace rest) with
          | some rest => some (.arr [], rest)
          | none => (parseItems fuel (depth + 1) rest).map fun (items, rest) => (.arr items, rest)
      else if c == openBrace then
        if maxNestingDepth ≤ depth then none
        else
          match after [closeBrace] (skipSpace rest) with
          | some rest => some (.obj [], rest)
          | none => (parseMembers fuel (depth + 1) rest).map fun (members, rest) =>
              (.obj (members.map fun m => (m.key, m.value)), rest)
      else if c == quoteMark then (scanString rest).map fun (s, rest) => (.str s, rest)
      else if c == 0x74 then (after (bytesOf "rue") rest).map fun rest => (.bool true, rest)
      else if c == 0x66 then (after (bytesOf "alse") rest).map fun rest => (.bool false, rest)
      else if c == 0x6E then (after (bytesOf "ull") rest).map fun rest => (.null, rest)
      else (scanNumber (c :: rest)).map fun (n, rest) => (.num n, rest)
/-- The items of an array that has one, up to its end. -/
def parseItems : Nat → Nat → Bytes → Option (List Syntax × Bytes)
  | 0, _, _ => none
  | fuel + 1, depth, b =>
    match parseValue fuel depth b with
    | none => none
    | some (v, b) =>
      match skipSpace b with
      | [] => none
      | c :: rest =>
        if c == comma then (parseItems fuel depth rest).map fun (items, rest) => (v :: items, rest)
        else if c == closeBracket then some ([v], rest)
        else none
/-- The members of an object that has one, up to its end. -/
def parseMembers : Nat → Nat → Bytes → Option (List Member × Bytes)
  | 0, _, _ => none
  | fuel + 1, depth, b =>
    match (after [quoteMark] (skipSpace b)).bind scanString with
    | none => none
    | some (key, b) =>
      match after [colon] (skipSpace b) with
      | none => none
      | some b =>
        match parseValue fuel depth (skipSpace b) with
        | none => none
        | some (v, b') =>
          let m : Member := ⟨key, v, (skipSpace b).take ((skipSpace b).length - b'.length)⟩
          match skipSpace b' with
          | [] => none
          | c :: rest =>
            if c == comma then
              (parseMembers fuel depth rest).map fun (members, rest) => (m :: members, rest)
            else if c == closeBrace then some ([m], rest)
            else none
end

def Member.pair (m : Member) : Bytes × Syntax := (m.key, m.value)

mutual
/-- The grammar: under `depth` open containers the text starts with the value. -/
inductive ReadsValue : Nat → Bytes → Syntax → Bytes → Prop
  | null : skipSpace b = bytesOf "null" ++ rest → ReadsValue depth b .null rest
  | true : skipSpace b = bytesOf "true" ++ rest → ReadsValue depth b (.bool true) rest
  | false : skipSpace b = bytesOf "false" ++ rest → ReadsValue depth b (.bool false) rest
  | num : scanNumber (skipSpace b) = some (n, rest) → ReadsValue depth b (.num n) rest
  | str : skipSpace b = quoteMark :: r → scanString r = some (s, rest) →
      ReadsValue depth b (.str s) rest
  | arr : skipSpace b = openBracket :: r → depth < maxNestingDepth →
      ReadsItems (depth + 1) r ts rest →
      ReadsValue depth b (.arr ts) rest
  | emptyArr : skipSpace b = openBracket :: r → depth < maxNestingDepth →
      skipSpace r = closeBracket :: rest → ReadsValue depth b (.arr []) rest
  | obj : skipSpace b = openBrace :: r → depth < maxNestingDepth →
      ReadsMembers (depth + 1) r ms rest →
      ReadsValue depth b (.obj (ms.map Member.pair)) rest
  | emptyObj : skipSpace b = openBrace :: r → depth < maxNestingDepth →
      skipSpace r = closeBrace :: rest → ReadsValue depth b (.obj []) rest
inductive ReadsItems : Nat → Bytes → List Syntax → Bytes → Prop
  | last : ReadsValue depth b t r → skipSpace r = closeBracket :: rest → ReadsItems depth b [t] rest
  | more : ReadsValue depth b t r → skipSpace r = comma :: r' → ReadsItems depth r' ts rest →
      ReadsItems depth b (t :: ts) rest
inductive ReadsMembers : Nat → Bytes → List Member → Bytes → Prop
  | last : skipSpace b = quoteMark :: r₁ → scanString r₁ = some (k, r₂) →
      skipSpace r₂ = colon :: r₃ → ReadsValue depth (skipSpace r₃) t r₄ →
      skipSpace r₄ = closeBrace :: rest →
      ReadsMembers depth b [⟨k, t, (skipSpace r₃).take ((skipSpace r₃).length - r₄.length)⟩] rest
  | more : skipSpace b = quoteMark :: r₁ → scanString r₁ = some (k, r₂) →
      skipSpace r₂ = colon :: r₃ → ReadsValue depth (skipSpace r₃) t r₄ →
      skipSpace r₄ = comma :: r₅ → ReadsMembers depth r₅ ms rest →
      ReadsMembers depth b
        (⟨k, t, (skipSpace r₃).take ((skipSpace r₃).length - r₄.length)⟩ :: ms) rest
end

def parse (b : Bytes) : Option Syntax :=
  match parseValue (2 * b.length + 2) 0 b with
  | some (t, rest) => if (skipSpace rest).isEmpty then some t else none
  | none => none

def parseObject (b : Bytes) : Option (List Member) :=
  match after [openBrace] (skipSpace b) with
  | none => none
  | some rest =>
    match after [closeBrace] (skipSpace rest) with
    | some rest => if (skipSpace rest).isEmpty then some [] else none
    | none =>
      match parseMembers (2 * b.length + 1) 1 rest with
      | some (members, rest) => if (skipSpace rest).isEmpty then some members else none
      | none => none

def quoted (lit : Bytes) : Bytes := quoteMark :: lit ++ [quoteMark]

mutual
def Tree.text : Syntax → Bytes
  | .null => bytesOf "null"
  | .bool true => bytesOf "true"
  | .bool false => bytesOf "false"
  | .num n => n
  | .str s => quoted s
  | .arr items => openBracket :: textItems items ++ [closeBracket]
  | .obj members => openBrace :: textMembers members ++ [closeBrace]
def textItems : List Syntax → Bytes
  | [] => []
  | [t] => t.text
  | t :: ts => t.text ++ comma :: textItems ts
def textMembers : List (Bytes × Syntax) → Bytes
  | [] => []
  | [(k, t)] => quoted k ++ colon :: t.text
  | (k, t) :: ms => quoted k ++ colon :: t.text ++ comma :: textMembers ms
end

end Adro.Json
