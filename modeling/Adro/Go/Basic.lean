import Mathlib.Algebra.Order.Ring.Int
import Mathlib.Data.Finset.Basic

/-!
# Strings, machine integers, instants and errors

What the modelled functions use of the language and its standard library:
`strings.TrimSpace` and `strings.EqualFold`, 64-bit wrapping arithmetic,
instants as nanoseconds counted from the zero time, and errors that carry a
text and may wrap a sentinel. A sequence of checks is a computation in
`Except`; `bind_ok` and `ensure_ok` read its success check by check.
-/

namespace Adro.Go

/-- `unicode.IsSpace`. -/
def isSpace (c : Char) : Bool :=
  let n := c.toNat
  (9 ≤ n && n ≤ 13) || n == 0x20 || n == 0x85 || n == 0xA0 || n == 0x1680 ||
    (0x2000 ≤ n && n ≤ 0x200a) || n == 0x2028 || n == 0x2029 || n == 0x202f || n == 0x205f ||
    n == 0x3000

def trimLeft (cs : List Char) : List Char := cs.dropWhile isSpace

def trimChars (cs : List Char) : List Char := (trimLeft (trimLeft cs).reverse).reverse

/-- `strings.TrimSpace`. -/
def trimSpace (s : String) : String := String.ofList (trimChars s.toList)

/-- The emptiness test `strings.TrimSpace(s) == ""`. -/
def blank (s : String) : Bool := trimSpace s == ""

@[simp] theorem blank_empty : blank "" = true := by decide

variable {s : String}

theorem ne_empty_of_not_blank (h : blank s = false) : s ≠ "" := by
  rintro rfl
  simp at h

/-- `strings.EqualFold`, for the folding that sends a character to the
representative of its simple-folding orbit. -/
def equalFold (fold : Char → Char) (s t : String) : Bool := s.toList.map fold == t.toList.map fold

/-- `strings.Contains`. -/
def containsText (s sub : String) : Bool := s.toList.tails.any fun t => sub.toList.isPrefixOf t

/-- The verb `%q` of a string without control characters. -/
def quote (s : String) : String :=
  "\"" ++ String.ofList (s.toList.flatMap fun c =>
    if c == '"' then ['\\', '"'] else if c == '\\' then ['\\', '\\'] else [c]) ++ "\""

/-- The value an `int` or `int64` operation leaves, wrapped to 64 bits. -/
def i64 (n : Int) : Int := (n + 2 ^ 63) % 2 ^ 64 - 2 ^ 63

def maxInt64 : Int := 2 ^ 63 - 1

theorem i64_eq (h : -2 ^ 63 ≤ n) (h' : n ≤ maxInt64) : i64 n = n := by
  unfold i64
  unfold maxInt64 at h'
  omega

theorem i64_le : i64 n ≤ maxInt64 := by
  unfold i64 maxInt64
  omega

abbrev Time := Int
abbrev Duration := Int

def Time.isZero (t : Time) : Bool := t == 0

def hour : Duration := 3600 * 10 ^ 9
def minute : Duration := 60 * 10 ^ 9

/-- `Time.UnixNano`; the zero time is the first of January of the year 1. -/
def Time.unixNano (t : Time) : Int := i64 (t - 62135596800 * 10 ^ 9)

/-- `Time.MarshalJSON` takes the years 0 to 9999. -/
def Time.encodes (t : Time) : Bool :=
  -366 * 86400 * 10 ^ 9 ≤ t && t < 3652059 * 86400 * 10 ^ 9

/-- `Time.Sub`, which saturates at the ends of the duration range. -/
def Time.sub (t u : Time) : Duration := max (-2 ^ 63) (min maxInt64 (t - u))

/-- An error value: its text, and the sentinel it is or wraps. -/
structure GoError (σ : Type) where
  sentinel : Option σ
  text : String
  deriving DecidableEq, Repr

def ensure {ε : Type} (b : Bool) (e : ε) : Except ε Unit := if b then .ok () else .error e

variable {ε α β : Type} {i : Nat} {seen : List String}

theorem bind_ok {f : α → Except ε β} :
    x >>= f = .ok b ↔ ∃ a, x = .ok a ∧ f a = .ok b := by
  cases x <;> simp [bind, Except.bind]

theorem pure_ok : (pure a : Except ε α) = .ok a' ↔ a = a' := by
  simp [pure, Except.pure]

theorem ensure_ok : ensure c e = .ok u ↔ c = true := by
  cases c <;> simp [ensure]

theorem then_ok {f : Unit → Except ε β} :
    x >>= f = .ok b ↔ x = .ok () ∧ f () = .ok b := by
  cases x <;> simp [bind, Except.bind]

theorem mapError_ok {x : Except ε α} :
    x.mapError f = .ok a ↔ x = .ok a := by
  cases x <;> simp [Except.mapError]

/-- A check over a list, failing with the error of the first element that does. -/
def eachOk (f : α → Except ε Unit) : List α → Except ε Unit
  | [] => .ok ()
  | x :: xs => do f x; eachOk f xs

theorem eachOk_ok :
    eachOk f l = .ok u ↔ ∀ x ∈ l, f x = .ok () := by
  induction l with
  | nil => simp [eachOk]
  | cons x xs ih =>
    simp only [eachOk, then_ok, ih, List.forall_mem_cons]

/-- A check over a list that passes each element's index and the keys before it. -/
def eachSeen (key : α → String) (f : Nat → List String → α → Except ε Unit) :
    Nat → List String → List α → Except ε Unit
  | _, _, [] => .ok ()
  | i, seen, x :: xs => do f i seen x; eachSeen key f (i + 1) (key x :: seen) xs

theorem eachSeen_ok (h : eachSeen key f i seen l = .ok u) : ∀ x ∈ l, ∃ j s, f j s x = .ok () := by
  induction l generalizing i seen with
  | nil => simp
  | cons y ys ih =>
    simp only [eachSeen, then_ok] at h
    obtain ⟨hy, hr⟩ := h
    exact List.forall_mem_cons.mpr ⟨⟨i, seen, hy⟩, ih hr⟩

/-- When the check refuses a key it has seen, the accepted keys are distinct. -/
theorem eachSeen_nodup
    (h : eachSeen key f i seen l = .ok u) (hf : ∀ i seen x, f i seen x = .ok () → key x ∉ seen) :
    (l.map key).Nodup ∧ ∀ x ∈ l, key x ∉ seen := by
  induction l generalizing i seen with
  | nil => simp
  | cons y ys ih =>
    simp only [eachSeen, then_ok] at h
    obtain ⟨hy, hr⟩ := h
    obtain ⟨hn, hd⟩ := ih hr
    refine ⟨List.nodup_cons.mpr ⟨?_, hn⟩, List.forall_mem_cons.mpr ⟨hf i seen y hy, ?_⟩⟩
    · intro hm
      obtain ⟨x, hx, hxy⟩ := List.mem_map.mp hm
      exact hd x hx (hxy ▸ List.mem_cons_self)
    · exact fun x hx hs => hd x hx (List.mem_cons_of_mem _ hs)

/-- Distinct keys are accepted when the check asks only for keys it has not seen. -/
theorem eachSeen_of_nodup {f : Nat → List String → α → Except ε Unit}
    (hf : ∀ i seen, ∀ x ∈ l, key x ∉ seen → f i seen x = .ok ())
    (hn : (l.map key).Nodup) (hd : ∀ x ∈ l, key x ∉ seen) :
    eachSeen key f i seen l = .ok () := by
  induction l generalizing i seen with
  | nil => rfl
  | cons y ys ih =>
    obtain ⟨hy, hn⟩ := List.nodup_cons.mp hn
    simp only [eachSeen, then_ok]
    refine ⟨hf i seen y List.mem_cons_self (hd y List.mem_cons_self),
      ih (fun i seen x hx => hf i seen x (List.mem_cons_of_mem _ hx)) hn fun x hx => ?_⟩
    rw [List.mem_cons, not_or]
    refine ⟨fun he => hy ?_, hd x (List.mem_cons_of_mem _ hx)⟩
    exact he ▸ List.mem_map_of_mem hx

end Adro.Go
