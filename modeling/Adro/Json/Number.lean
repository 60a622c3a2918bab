import Adro.Json.Literal
import Adro.Go.Basic
import Mathlib.Data.Nat.Digits.Defs
import Mathlib.Tactic.Positivity
import Mathlib.Tactic.LinearCombination

/-!
# Values of numbers

The value of a digit string and the rational value of a number. A digit string
is determined by its value and its length, and one without leading zeros by its
value alone.
-/

namespace Adro.Json

open Adro.Go

abbrev zeroDigit : UInt8 := 0x30

def digitValue (c : UInt8) : Nat := c.toNat - 0x30

/-- The digits as Mathlib has them, the last one first. -/
def digitList (ds : Bytes) : List Nat := (ds.map digitValue).reverse

def digitsValue (ds : Bytes) : Nat := Nat.ofDigits 10 (digitList ds)

def Exponent.value (e : Exponent) : Int :=
  if e.sign = [minus] then -(digitsValue e.digits : Int) else digitsValue e.digits

def Number.power (p : Number) : Int := (p.exponent.map Exponent.value).getD 0

def Number.value (p : Number) : ℚ :=
  (if p.negative then -1 else 1) * digitsValue (p.integer ++ p.fraction) *
    (10 : ℚ) ^ (p.power - p.fraction.length)

def numberValue (n : Bytes) : Option ℚ := (readNumber n).map (·.1.value)

/-- `strconv.Atoi`. -/
def atoi (s : Bytes) : Option Int :=
  let (sign, digits) := scanSign s
  if digits.isEmpty || !digits.all isDigit then none
  else
    let n : Int := if sign = [minus] then -(digitsValue digits : Int) else digitsValue digits
    if -(2 ^ 63) ≤ n ∧ n ≤ maxInt64 then some n else none

variable {ds : Bytes}

theorem isDigit_iff : isDigit c ↔ 0x30 ≤ c.toNat ∧ c.toNat ≤ 0x39 := by
  simp only [isDigit, Bool.and_eq_true, decide_eq_true_eq]
  exact Iff.rfl

theorem digitValue_lt (h : isDigit c) : digitValue c < 10 := by
  rw [isDigit_iff] at h
  unfold digitValue
  omega

theorem digitValue_inj (hc : isDigit c) (hd : isDigit d)
    (h : digitValue c = digitValue d) : c = d := by
  rw [isDigit_iff] at hc hd
  unfold digitValue at h
  exact UInt8.toNat_inj.1 (by omega)

theorem AllDigits.append : AllDigits (ds ++ ds') ↔ AllDigits ds ∧ AllDigits ds' :=
  List.forall_mem_append

theorem AllDigits.lt (h : AllDigits ds) : ∀ l ∈ digitList ds, l < 10 := by
  intro l hl
  simp only [digitList, List.mem_reverse, List.mem_map] at hl
  obtain ⟨c, hc, rfl⟩ := hl
  exact digitValue_lt (h c hc)

theorem length_digitList (ds : Bytes) : (digitList ds).length = ds.length := by
  simp [digitList]

theorem digitList_inj (h : AllDigits ds) (h' : AllDigits ds') (heq : digitList ds = digitList ds') :
    ds = ds' := by
  have hmap := List.reverse_injective heq
  clear heq
  induction ds generalizing ds' with
  | nil =>
    cases ds' with
    | nil => rfl
    | cons d ds' => cases hmap
  | cons c ds ih =>
    cases ds' with
    | nil => cases hmap
    | cons d ds' =>
      simp only [List.map_cons, List.cons.injEq] at hmap
      rw [digitValue_inj (h c (by simp)) (h' d (by simp)) hmap.1,
        ih (fun x hx => h x (by simp [hx])) (fun x hx => h' x (by simp [hx])) hmap.2]

@[simp] theorem digitsValue_nil : digitsValue [] = 0 := rfl

theorem digitsValue_append :
    digitsValue (ds ++ ds') = digitsValue ds * 10 ^ ds'.length + digitsValue ds' := by
  simp only [digitsValue, digitList, List.map_append, List.reverse_append, Nat.ofDigits_append,
    List.length_reverse, List.length_map]
  ring

theorem digitsValue_zeros : digitsValue (List.replicate n zeroDigit) = 0 := by
  simp only [digitsValue, digitList, List.map_replicate, List.reverse_replicate]
  exact Nat.ofDigits_replicate_zero

theorem digitsValue_zero_cons : digitsValue (zeroDigit :: ds) = digitsValue ds := by
  rw [← List.singleton_append, digitsValue_append]
  show 0 * _ + _ = _
  rw [Nat.zero_mul, Nat.zero_add]

theorem digitsValue_zeros_append :
    digitsValue (List.replicate n zeroDigit ++ ds) = digitsValue ds := by
  rw [digitsValue_append, digitsValue_zeros, Nat.zero_mul, Nat.zero_add]

theorem digitsValue_lt (h : AllDigits ds) : digitsValue ds < 10 ^ ds.length := by
  have := Nat.ofDigits_lt_base_pow_length (by decide : 1 < 10) h.lt
  rwa [length_digitList] at this

theorem digitsValue_dropZeros : digitsValue (ds.dropWhile (· == zeroDigit)) = digitsValue ds := by
  induction ds with
  | nil => rfl
  | cons c ds ih =>
    by_cases hc : c = zeroDigit
    · rw [hc, List.dropWhile_cons_of_pos (by simp), ih, digitsValue_zero_cons]
    · rw [List.dropWhile_cons_of_neg (by simpa using hc)]

theorem digitsValue_inj_length (h : AllDigits ds) (h' : AllDigits ds')
    (hlen : ds.length = ds'.length) (heq : digitsValue ds = digitsValue ds') : ds = ds' :=
  digitList_inj h h' (Nat.ofDigits_inj_of_len_eq (by decide) (by simp [length_digitList, hlen])
    h.lt h'.lt heq)

def NoLeadingZero (ds : Bytes) : Prop := ds.head? ≠ some zeroDigit

theorem digits_digitsValue (h : AllDigits ds) (hz : NoLeadingZero ds) :
    Nat.digits 10 (digitsValue ds) = digitList ds := by
  refine Nat.digits_ofDigits 10 (by decide) _ h.lt fun hne => ?_
  cases ds with
  | nil => exact absurd rfl hne
  | cons c ds =>
    have hc := h c (by simp)
    have hne : c ≠ zeroDigit := fun heq => hz (by simp [heq])
    have hv : digitValue c ≠ 0 := fun h0 => hne (digitValue_inj hc (by decide) h0)
    simpa [digitList] using hv

theorem digitsValue_inj (h : AllDigits ds) (h' : AllDigits ds') (hz : NoLeadingZero ds)
    (hz' : NoLeadingZero ds') (heq : digitsValue ds = digitsValue ds') : ds = ds' := by
  refine digitList_inj h h' ?_
  rw [← digits_digitsValue h hz, ← digits_digitsValue h' hz', heq]

theorem digitsValue_pos (h : AllDigits ds) (hz : NoLeadingZero ds) (hne : ds ≠ []) :
    0 < digitsValue ds := by
  by_contra h0
  have := digits_digitsValue h hz
  rw [Nat.eq_zero_of_not_pos h0] at this
  have hlen := length_digitList ds
  rw [← this] at hlen
  exact hne (List.length_eq_zero_iff.1 hlen.symm)

end Adro.Json
