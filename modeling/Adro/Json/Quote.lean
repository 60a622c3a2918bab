import Adro.Json.Text

/-!
# Strings and their literals

`points` is what a literal says: a character for each escape and each encoded
character, a lone surrogate where an escape names one, and nothing for a byte
that is no part of an encoding. `unquote` and `literal` are the decoder and the
encoder of `encoding/json`; both put U+FFFD where there is no character.
-/

namespace Adro.Json

open Adro.Go

inductive Point
  | scalar (c : Char)
  | surrogate (n : Nat)
  | invalid
  deriving DecidableEq

/-- The number of a `\u` escape at the front. -/
def u4 : Bytes → Option Nat
  | b :: u :: h₁ :: h₂ :: h₃ :: h₄ :: _ =>
    if b == backslash && u == 0x75 then do
      let d₁ ← hexValue h₁
      let d₂ ← hexValue h₂
      let d₃ ← hexValue h₃
      let d₄ ← hexValue h₄
      some (((d₁ * 16 + d₂) * 16 + d₃) * 16 + d₄)
    else none
  | _ => none

def isSurrogate (n : Nat) : Bool := 0xD800 ≤ n && n < 0xE000

def surrogatePair (high low : Nat) : Option Char :=
  if 0xD800 ≤ high && high < 0xDC00 && 0xDC00 ≤ low && low < 0xE000 then
    some (Char.ofNat ((high - 0xD800) * 0x400 + (low - 0xDC00) + 0x10000))
  else none

/-- What an encoded character at the front says, and its length. -/
def plainPoint (b : Bytes) : Point × Nat :=
  match decodeRune b with
  | some c => (.scalar c, c.utf8Size)
  | none => (.invalid, 1)

/-- What the literal says first, and in how many bytes. -/
def nextPoint (b : Bytes) : Point × Nat :=
  match b with
  | c :: e :: _ =>
    if c == backslash then
      match u4 b with
      | some u =>
        if isSurrogate u then
          match (u4 (b.drop 6)).bind (surrogatePair u) with
          | some c => (.scalar c, 12)
          | none => (.surrogate u, 6)
        else (.scalar (Char.ofNat u), 6)
      | none =>
        match simpleEscape e with
        | some c => (.scalar c, 2)
        | none => (.invalid, 1)
    else plainPoint b
  | _ => plainPoint b

def pointsFrom : Nat → Bytes → List Point
  | _, [] => []
  | skip + 1, _ :: rest => pointsFrom skip rest
  | 0, b :: rest =>
    (nextPoint (b :: rest)).1 :: pointsFrom ((nextPoint (b :: rest)).2 - 1) rest

def points (s : Bytes) : List Point := pointsFrom 0 s

def Point.rune : Point → Char
  | .scalar c => c
  | _ => replacement

def unquote (s : Bytes) : Bytes := utf8 ((points s).map Point.rune)

def Point.codePoint : Point → Option Nat
  | .scalar c => some c.toNat
  | .surrogate n => some n
  | .invalid => none

def codePoints (s : Bytes) : Option (List Nat) := (points s).mapM Point.codePoint

def Point.isScalar : Point → Bool
  | .scalar _ => true
  | _ => false

/-- A literal without lone surrogates and without bytes that encode nothing. -/
def Clean (s : Bytes) : Prop := ∀ p ∈ points s, p.isScalar

instance : DecidablePred Clean := fun s => inferInstanceAs (Decidable (∀ p ∈ points s, p.isScalar))

def hexDigit (n : Nat) : UInt8 := (bytesOf "0123456789abcdef").getD n 0

def hex4 (n : Nat) : Bytes :=
  [hexDigit (n / 4096 % 16), hexDigit (n / 256 % 16), hexDigit (n / 16 % 16), hexDigit (n % 16)]

/-- The byte after the backslash of an escape of two bytes. -/
def shortEscape (c : Char) : Option UInt8 :=
  if c = '"' then some quoteMark
  else if c = '\\' then some backslash
  else if c = '\x08' then some 0x62
  else if c = '\x0c' then some 0x66
  else if c = '\n' then some 0x6E
  else if c = '\r' then some 0x72
  else if c = '\t' then some 0x74
  else none

def escapesByNumber (c : Char) : Bool :=
  c.toNat < 0x20 || c == '<' || c == '>' || c == '&' || c.toNat == 0x2028 || c.toNat == 0x2029

def escape (c : Char) : Bytes :=
  match shortEscape c with
  | some e => [backslash, e]
  | none =>
    if escapesByNumber c then backslash :: 0x75 :: hex4 c.toNat
    else String.utf8EncodeChar c

def escapeUnit : Option Char → Bytes
  | some c => escape c
  | none => backslash :: 0x75 :: hex4 0xFFFD

def literal (b : Bytes) : Bytes := (units b).flatMap escapeUnit

variable {b : Bytes} {x : Bytes}

theorem pointsFrom_drop : pointsFrom n b = points (b.drop n) := by
  induction n generalizing b with
  | zero => rfl
  | succ n ih =>
    cases b with
    | nil => simp [pointsFrom, points]
    | cons x b => simp only [pointsFrom, ih, List.drop_succ_cons]

theorem points_append (hx : x ≠ []) (h : nextPoint (x ++ rest) = (p, x.length)) :
    points (x ++ rest) = p :: points rest := by
  cases x with
  | nil => exact absurd rfl hx
  | cons y x =>
    show pointsFrom 0 (y :: (x ++ rest)) = _
    rw [pointsFrom, show nextPoint (y :: (x ++ rest)) = _ from h]
    simp [pointsFrom_drop]

theorem hexValue_hexDigit : ∀ {n : Nat}, n < 16 → hexValue (hexDigit n) = some n := by
  decide

theorem u4_hex4 (h : n < 65536) : u4 (backslash :: 0x75 :: hex4 n ++ r) = some n := by
  have hmod : ∀ m, m % 16 < 16 := fun m => Nat.mod_lt _ (by omega)
  simp only [hex4, List.cons_append, u4, beq_self_eq_true, Bool.and_self, if_true,
    hexValue_hexDigit (hmod _), Option.bind_eq_bind, Option.bind_some, Option.some.injEq]
  omega

theorem shortEscape_some (h : shortEscape c = some e) : simpleEscape e = some c := by
  unfold shortEscape at h
  split_ifs at h <;> simp_all <;> subst h <;> rfl

theorem simpleEscape_ne (h : simpleEscape e = some c) : (e == 0x75) = false := by
  rw [beq_eq_false_iff_ne]
  rintro rfl
  cases h

theorem simpleEscape_u4 (h : simpleEscape e = some c) : u4 (backslash :: e :: rest) = none := by
  unfold u4
  split
  · next heq =>
    cases heq
    simp [simpleEscape_ne h]
  · rfl

theorem nextPoint_short (h : simpleEscape e = some c) :
    nextPoint (backslash :: e :: rest) = (.scalar c, 2) := by
  simp only [nextPoint, beq_self_eq_true, if_true, simpleEscape_u4 h, h]

theorem nextPoint_number (h : n < 65536) (hs : isSurrogate n = false) :
    nextPoint (backslash :: 0x75 :: hex4 n ++ r) = (.scalar (Char.ofNat n), 6) := by
  have hu := u4_hex4 (r := r) h
  simp only [nextPoint, hu, hs]
  rfl

theorem ofNat_toNat (c : Char) : Char.ofNat c.toNat = c := by
  simp

theorem escapesByNumber_bounds (h : escapesByNumber c) :
    c.toNat < 65536 ∧ isSurrogate c.toNat = false := by
  simp only [escapesByNumber, Bool.or_eq_true, decide_eq_true_eq, beq_iff_eq] at h
  simp only [isSurrogate, Bool.and_eq_false_iff, decide_eq_false_iff_not]
  rcases h with ((((h | rfl) | rfl) | rfl) | h) | h
  all_goals first | omega | decide

/-- The first byte of an encoded character is a backslash only for the backslash. -/
theorem encode_head {x : UInt8} {xs : Bytes} (h : String.utf8EncodeChar c = x :: xs) (d : Char)
    (hd : String.utf8EncodeChar d = [x]) : c = d := by
  have h₁ := decodeRune_encode (c := c) (r := [])
  have h₂ := decodeRune_encode (c := d) (r := xs)
  rw [h, List.append_nil] at h₁
  rw [hd, List.singleton_append, h₁] at h₂
  exact Option.some.inj h₂

theorem nextPoint_plain (hc : c ≠ '\\') :
    nextPoint (String.utf8EncodeChar c ++ rest) = (.scalar c, c.utf8Size) := by
  have hplain : plainPoint (String.utf8EncodeChar c ++ rest) = (.scalar c, c.utf8Size) := by
    simp only [plainPoint, decodeRune_encode]
  cases he : String.utf8EncodeChar c with
  | nil => exact absurd he encode_ne_nil
  | cons x xs =>
    rw [he] at hplain
    rw [List.cons_append] at hplain ⊢
    cases hr : xs ++ rest with
    | nil =>
      rw [hr] at hplain
      exact hplain
    | cons y ys =>
      rw [hr] at hplain
      have hx : (x == backslash) = false := by
        rw [beq_eq_false_iff_ne]
        rintro rfl
        exact hc (encode_head he '\\' rfl)
      simp only [nextPoint, hx]
      exact hplain

theorem shortEscape_none (h : shortEscape c = none) : c ≠ '"' ∧ c ≠ '\\' := by
  unfold shortEscape at h
  split_ifs at h with h₁ h₂
  exact ⟨h₁, h₂⟩

theorem escape_ne_nil : escape c ≠ [] := by
  unfold escape
  split
  · simp
  · split
    · simp
    · exact encode_ne_nil

theorem nextPoint_escape : nextPoint (escape c ++ rest) = (.scalar c, (escape c).length) := by
  unfold escape
  cases h : shortEscape c with
  | some e => exact nextPoint_short (shortEscape_some h)
  | none =>
    dsimp only
    split
    · next hn =>
      obtain ⟨hlt, hs⟩ := escapesByNumber_bounds hn
      have := nextPoint_number (r := rest) hlt hs
      rw [ofNat_toNat] at this
      exact this
    · rw [nextPoint_plain (shortEscape_none h).2, String.length_utf8EncodeChar]

@[simp] theorem points_escape : points (escape c ++ rest) = .scalar c :: points rest :=
  points_append escape_ne_nil nextPoint_escape

theorem points_escapeUnit :
    points (escapeUnit u ++ rest) = .scalar (u.getD replacement) :: points rest := by
  cases u with
  | some c => exact points_escape
  | none => exact points_append (by simp [escapeUnit]) (nextPoint_number (by decide) rfl)

theorem points_literal : points (literal b) = (runes b).map .scalar := by
  unfold literal runes
  generalize units b = us
  induction us with
  | nil => rfl
  | cons u us ih => rw [List.flatMap_cons, points_escapeUnit, ih]; rfl

theorem unquote_literal : unquote (literal b) = toValid b := by
  unfold unquote toValid
  rw [points_literal, List.map_map]
  congr 1
  exact List.map_id _

theorem clean_literal : Clean (literal b) := by
  intro p hp
  rw [points_literal] at hp
  obtain ⟨c, -, rfl⟩ := List.mem_map.1 hp
  rfl

theorem valid_unquote (s : Bytes) : Valid (unquote s) := valid_utf8

theorem Clean.points (h : Clean s) : points s = (runes (unquote s)).map .scalar := by
  unfold unquote
  rw [runes_utf8, List.map_map]
  symm
  refine (List.map_congr_left fun p hp => ?_).trans (List.map_id _)
  have := h p hp
  cases p with
  | scalar c => rfl
  | surrogate _ | invalid => cases this

theorem Clean.codePoints (h : Clean s) :
    codePoints s = some ((runes (unquote s)).map Char.toNat) := by
  rw [Json.codePoints, h.points]
  generalize runes (unquote s) = cs
  induction cs with
  | nil => rfl
  | cons c cs ih => simp [Point.codePoint, ih]

theorem IsString.append (hx : ∀ rest, scanString (x ++ rest) =
    (scanString rest).map fun p => (x ++ p.1, p.2)) (h : IsString s) : IsString (x ++ s) := by
  intro rest
  rw [List.append_assoc, hx, h rest]
  rfl

theorem scanString_short (h : simpleEscape e = some c) :
    scanString ([backslash, e] ++ rest) = (scanString rest).map fun p =>
      ([backslash, e] ++ p.1, p.2) := by
  rw [scanString.eq_def]
  simp [simpleEscape_ne h, h]
  rfl

theorem scanString_number :
    scanString (backslash :: 0x75 :: hex4 n ++ rest) =
      (scanString rest).map fun p => (backslash :: 0x75 :: hex4 n ++ p.1, p.2) := by
  have hmod : ∀ m, m % 16 < 16 := fun m => Nat.mod_lt _ (by omega)
  simp only [hex4]
  rw [scanString.eq_def]
  simp [hexValue_hexDigit (hmod _)]
  rfl

def Plain (x : UInt8) : Prop := (x == quoteMark) = false ∧ ¬ x < 0x20 ∧ (x == backslash) = false

theorem scanString_plain (h : ∀ y ∈ x, Plain y) :
    scanString (x ++ rest) = (scanString rest).map fun p => (x ++ p.1, p.2) := by
  induction x with
  | nil => simp
  | cons y x ih =>
    obtain ⟨h₁, h₂, h₃⟩ := h y (by simp)
    rw [scanString.eq_def]
    simp [h₁, h₂, h₃, ih fun z hz => h z (by simp [hz])]
    rfl

theorem plain_of_high {x : UInt8} (h : 0x80 ≤ x.toNat) : Plain x := by
  have hne : ∀ d : UInt8, d.toNat < 0x80 → (x == d) = false := fun d hd => by
    rw [beq_eq_false_iff_ne]
    rintro rfl
    omega
  refine ⟨hne _ (by decide), fun hlt => ?_, hne _ (by decide)⟩
  have : x.toNat < 0x20 := hlt
  omega

theorem toNat_byte (h : n < 256) : (UInt8.ofNat n).toNat = n :=
  UInt8.toNat_ofNat_of_lt' h

theorem plain_ascii (hs : shortEscape c = none) (hn : escapesByNumber c = false)
    (hc : c.toNat ≤ 127) : Plain (UInt8.ofNat c.toNat) := by
  obtain ⟨hq, hb⟩ := shortEscape_none hs
  have hto := toNat_byte (n := c.toNat) (by omega)
  have hchar : ∀ d : Char, c ≠ d → d.toNat ≤ 127 →
      (UInt8.ofNat c.toNat == UInt8.ofNat d.toNat) = false := by
    intro d hd hle
    by_contra heq
    rw [Bool.not_eq_false, beq_iff_eq] at heq
    have hnat : c.toNat = d.toNat := by rw [← hto, heq, toNat_byte (by omega)]
    exact hd (by rw [← ofNat_toNat c, hnat, ofNat_toNat])
  refine ⟨hchar '"' hq (by decide), ?_, hchar '\\' hb (by decide)⟩
  intro hlt
  have hlt : (UInt8.ofNat c.toNat).toNat < 0x20 := hlt
  rw [hto] at hlt
  simp [escapesByNumber, hlt] at hn

theorem plain_encode (hs : shortEscape c = none) (hn : escapesByNumber c = false) :
    ∀ y ∈ String.utf8EncodeChar c, Plain y := by
  have hhigh : ∀ n, 0x80 ≤ n → n < 256 → Plain (UInt8.ofNat n) := fun n h hlt =>
    plain_of_high (by rw [toNat_byte hlt]; exact h)
  intro y hy
  rw [String.utf8EncodeChar.eq_def] at hy
  dsimp only at hy
  split_ifs at hy with h
  · rw [List.mem_singleton.1 hy]
    exact plain_ascii hs hn h
  all_goals
    simp only [List.mem_cons, List.not_mem_nil, or_false] at hy
    rcases hy with rfl | rfl | rfl | rfl
  all_goals exact hhigh _ (by omega) (by omega)

theorem isString_escapeUnit (h : IsString s) : IsString (escapeUnit u ++ s) := by
  refine IsString.append (fun rest => ?_) h
  cases u with
  | none => exact scanString_number
  | some c =>
    simp only [escapeUnit, escape]
    cases hs : shortEscape c with
    | some e => exact scanString_short (shortEscape_some hs)
    | none =>
      split_ifs with hn
      · exact scanString_number
      · exact scanString_plain (plain_encode hs (by simpa using hn))

theorem isString_literal : IsString (literal b) := by
  unfold literal
  generalize units b = us
  induction us with
  | nil => exact isString_nil
  | cons u us ih => exact isString_escapeUnit ih

def isSafe (x : UInt8) : Bool :=
  0x20 ≤ x && x < 0x80 && x != quoteMark && x != backslash && x != 0x3C && x != 0x3E && x != 0x26

def Safe (b : Bytes) : Prop := ∀ x ∈ b, isSafe x

instance : DecidablePred Safe := fun b => inferInstanceAs (Decidable (∀ x ∈ b, isSafe x))

theorem safe_char : ∀ n < 128, isSafe (UInt8.ofNat n) →
    String.utf8EncodeChar (Char.ofNat n) = [UInt8.ofNat n] ∧
      escape (Char.ofNat n) = [UInt8.ofNat n] := by
  decide +kernel

theorem isSafe_char {x : UInt8} (h : isSafe x) :
    ∃ c, String.utf8EncodeChar c = [x] ∧ escape c = [x] := by
  have hlt : x.toNat < 128 := by
    simp only [isSafe, Bool.and_eq_true, decide_eq_true_eq] at h
    exact h.1.1.1.1.1.2
  have hx : UInt8.ofNat x.toNat = x := UInt8.ofNat_toNat
  have := safe_char x.toNat hlt (by rwa [hx])
  rw [hx] at this
  exact ⟨_, this⟩

theorem literal_safe (h : Safe b) : literal b = b ∧ Valid b := by
  suffices hs : ∃ cs, b = utf8 cs ∧ cs.flatMap escape = b by
    obtain ⟨cs, hcs, hesc⟩ := hs
    refine ⟨?_, hcs ▸ valid_utf8⟩
    rw [literal, hcs, units_utf8, List.flatMap_map, ← hcs]
    exact hesc
  induction b with
  | nil => exact ⟨[], rfl, rfl⟩
  | cons x b ih =>
    obtain ⟨cs, hcs, hesc⟩ := ih fun y hy => h y (by simp [hy])
    obtain ⟨c, hc, he⟩ := isSafe_char (h x (by simp))
    refine ⟨c :: cs, ?_, ?_⟩
    · rw [utf8_cons, hc, ← hcs]
      rfl
    · rw [List.flatMap_cons, he, hesc]
      rfl

end Adro.Json
