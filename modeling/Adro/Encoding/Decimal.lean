import Adro.Encoding.Canonical

/-!
# Canonical numbers

`canonicalNumber` rewrites a number into the only canonical one of its value: no
exponent, no zero at the end of the fraction, no sign before zero.
-/

namespace Adro.Encoding

open Adro.Go Adro.Json

variable {p q : Number} {ds : Bytes} {c : UInt8}

structure Canonical (p : Number) : Prop extends p.Wf where
  no_exponent : p.exponent = none
  no_trailing : p.fraction.getLast? ≠ some zeroDigit
  signed_nonzero : p.negative → digitsValue (p.integer ++ p.fraction) ≠ 0

def mantissa (p : Number) : Bytes := p.integer ++ p.fractionText

theorem digit_not (hc : isDigit c) (hd : isDigit d = false) : c ≠ d := by
  rintro rfl
  rw [hd] at hc
  cases hc

theorem digit_not_mark (hc : isDigit c) : isExponentMark c = false := by
  simp [isExponentMark, digit_not hc (d := 0x65) rfl, digit_not hc (d := 0x45) rfl]

theorem mantissa_no_mark (hp : p.Wf) : ∀ c ∈ mantissa p, (!isExponentMark c) = true := by
  intro c hc
  simp only [mantissa, Number.fractionText, List.mem_append] at hc
  rcases hc with hc | hc
  · rw [digit_not_mark (hp.integer c hc)]
    rfl
  · split at hc
    · cases hc
    · rcases List.mem_cons.1 hc with rfl | hc
      · rfl
      · rw [digit_not_mark (hp.fraction c hc)]
        rfl

theorem split_sign (hp : p.Wf) :
    (if [minus].isPrefixOf p.text then ([minus], p.text.drop 1) else ([], p.text)) =
      (p.signText, mantissa p ++ p.exponentText) := by
  obtain ⟨c, ds, hi, hc⟩ := hp.integer.head hp.some_digit
  cases hn : p.negative with
  | true => simp [Number.text, Number.signText, mantissa, hn]
  | false =>
    have : (minus == c) = false := by
      rw [BEq.comm]
      exact isDigit_ne hc rfl
    simp [Number.text, Number.signText, mantissa, hn, hi, List.isPrefixOf, this]

theorem split_point (hp : p.Wf) :
    (mantissa p).takeWhile (· != point) = p.integer ∧
      ((mantissa p).dropWhile (· != point)).drop 1 = p.fraction := by
  have hall : ∀ c ∈ p.integer, (c != point) = true := fun c hc =>
    bne_iff_ne.2 (digit_not (hp.integer c hc) rfl)
  unfold mantissa
  rw [List.takeWhile_append_of_pos hall, List.dropWhile_append_of_pos hall]
  unfold Number.fractionText
  by_cases hf : p.fraction = []
  · simp [hf]
  · simp [hf]

theorem atoi_exponent {e : Exponent} (he : e.Wf) :
    atoi (e.sign ++ e.digits) =
      if -(2 ^ 63) ≤ e.value ∧ e.value ≤ maxInt64 then some e.value else none := by
  have hscan := scanSign_text (r := []) he.digits he.some_digit he.sign
  rw [List.append_nil, List.append_nil] at hscan
  have hall : e.digits.all isDigit = true := List.all_eq_true.2 he.digits
  simp only [atoi, hscan, hall, List.isEmpty_eq_false_iff.2 he.some_digit]
  rfl

theorem splitExponent_eq (hp : p.Wf) :
    splitExponent (mantissa p ++ p.exponentText) =
      if p.power < -maxExponent ∨ maxExponent < p.power then
        .error (.exponent (mantissa p ++ p.exponentText))
      else .ok (p.power, mantissa p) := by
  have hno := mantissa_no_mark hp
  unfold splitExponent
  rw [List.takeWhile_append_of_pos hno, List.dropWhile_append_of_pos hno]
  cases he : p.exponent with
  | none =>
    have hpow : p.power = 0 := by simp [Number.power, he]
    rw [hpow]
    simp [Number.exponentText, he]
    rfl
  | some e =>
    have hw := hp.exponent e he
    have hpow : p.power = e.value := by simp [Number.power, he]
    have htext : p.exponentText = e.mark :: (e.sign ++ e.digits) := by
      simp [Number.exponentText, he, Exponent.text]
    rw [htext, hpow, List.dropWhile_cons_of_neg (by simp [hw.mark]),
      List.takeWhile_cons_of_neg (by simp [hw.mark])]
    simp only [atoi_exponent hw, List.append_nil]
    by_cases hr : -(2 ^ 63) ≤ e.value ∧ e.value ≤ maxInt64
    · rw [if_pos hr]
      rfl
    · rw [if_neg hr, if_pos (by simp only [maxExponent, maxInt64] at hr ⊢; omega)]
      rfl

theorem trimZeros_spec (h : trimZeros n ds = (k, ds')) :
    k ≤ n ∧ ds = ds' ++ List.replicate (n - k) zeroDigit ∧
      (0 < k → ds'.getLast? ≠ some zeroDigit) := by
  induction n generalizing ds with
  | zero =>
    cases h
    exact ⟨Nat.le_refl _, by simp, fun h => absurd h (Nat.lt_irrefl _)⟩
  | succ n ih =>
    rw [trimZeros] at h
    split at h
    · next hz =>
      obtain ⟨hle, heq, hlast⟩ := ih h
      rw [beq_iff_eq] at hz
      refine ⟨by omega, ?_, hlast⟩
      have hsplit : ds = ds.dropLast ++ [zeroDigit] := (List.dropLast_append_getLast? _ hz).symm
      have hsub : n + 1 - k = (n - k) + 1 := by omega
      rw [hsplit, heq, hsub, List.replicate_succ', List.append_assoc]
    · next hz =>
      cases h
      exact ⟨Nat.le_refl _, by simp, fun _ => by simpa using hz⟩

theorem digitsValue_append_zeros :
    digitsValue (ds ++ List.replicate n zeroDigit) = digitsValue ds * 10 ^ n := by
  rw [digitsValue_append, digitsValue_zeros, List.length_replicate, Nat.add_zero]

theorem allDigits_zeros (n : Nat) : AllDigits (List.replicate n zeroDigit) := by
  intro c hc
  rw [List.eq_of_mem_replicate hc]
  rfl

def signFactor (negative : Bool) : ℚ := if negative then -1 else 1

theorem value_eq (p : Number) :
    p.value = signFactor p.negative * digitsValue (p.integer ++ p.fraction) *
      (10 : ℚ) ^ (p.power - p.fraction.length) := rfl

/-- The number that `placePoint` writes. -/
def placed (negative : Bool) (ds : Bytes) (scale : Int) : Number :=
  if scale ≤ 0 then ⟨negative, ds ++ List.replicate (-scale).toNat zeroDigit, [], none⟩
  else if scale < ds.length then
    ⟨negative, ds.take (ds.length - scale.toNat), ds.drop (ds.length - scale.toNat), none⟩
  else ⟨negative, [zeroDigit], List.replicate (scale - ds.length).toNat zeroDigit ++ ds, none⟩

theorem text_placed (negative : Bool) (hne : ds ≠ []) :
    (placed negative ds scale).text = (if negative then [minus] else []) ++
      placePoint ds scale := by
  unfold placed placePoint
  split_ifs with h₁ h₂
  all_goals simp [Number.text, Number.signText, Number.fractionText, Number.exponentText, *]
  all_goals omega

theorem value_placed (negative : Bool) :
    (placed negative ds scale).value =
      signFactor negative * digitsValue ds * (10 : ℚ) ^ (-scale) := by
  unfold placed
  split_ifs with h₁ h₂
  · have hpow : (10 : ℚ) ^ (-scale) = 10 ^ (-scale).toNat := by
      rw [← zpow_natCast, Int.toNat_of_nonneg (by omega)]
    simp only [value_eq, List.append_nil, digitsValue_append_zeros, Number.power, hpow]
    simp [mul_assoc]
  · simp only [value_eq, List.take_append_drop, Number.power, Option.map_none, Option.getD_none,
      List.length_drop]
    congr 2
    omega
  · simp only [value_eq, List.singleton_append, digitsValue_zero_cons, digitsValue_zeros_append,
      Number.power, Option.map_none, Option.getD_none, List.length_append, List.length_replicate]
    congr 2
    omega

theorem canonical_placed (negative : Bool) (hd : AllDigits ds) (hz : NoLeadingZero ds)
    (hne : ds ≠ [])
    (scale : Int) (hlast : 0 < scale → ds.getLast? ≠ some zeroDigit) :
    Canonical (placed negative ds scale) := by
  have hpos := digitsValue_pos hd hz hne
  obtain ⟨c, ds', hcons⟩ := List.exists_cons_of_ne_nil hne
  have hc : c ≠ zeroDigit := fun h => hz (by rw [hcons, h]; rfl)
  unfold placed
  split_ifs with h₁ h₂
  · refine ⟨⟨?_, ?_, ?_, ?_, ?_⟩, rfl, ?_, fun _ => ?_⟩
    · exact AllDigits.append.2 ⟨hd, allDigits_zeros _⟩
    · simp [hne]
    · intro h
      simp [hcons, hc] at h
    · simp [AllDigits]
    · simp
    · simp
    · have : 0 < digitsValue ds * 10 ^ (-scale).toNat := by positivity
      rw [List.append_nil, digitsValue_append_zeros]
      omega
  · have hsplit := AllDigits.append.1 (by rwa [List.take_append_drop (ds.length - scale.toNat) ds])
    refine ⟨⟨hsplit.1, ?_, ?_, hsplit.2, ?_⟩, rfl, ?_, fun _ => ?_⟩
    · intro h
      rw [List.take_eq_nil_iff] at h
      rcases h with h | h
      · omega
      · exact hne h
    · intro h
      rw [List.head?_take, hcons] at h
      simp [hc] at h
    · simp
    · rw [List.getLast?_drop, if_neg (by omega)]
      exact hlast (by omega)
    · rw [List.take_append_drop]
      omega
  · refine ⟨⟨?_, ?_, ?_, ?_, ?_⟩, rfl, ?_, fun _ => ?_⟩
    · exact allDigits_zeros 1
    · simp
    · simp
    · exact AllDigits.append.2 ⟨allDigits_zeros _, hd⟩
    · simp
    · rw [List.getLast?_append_of_ne_nil _ hne]
      exact hlast (by omega)
    · rw [List.singleton_append, digitsValue_zero_cons, digitsValue_zeros_append]
      omega

theorem noLeadingZero_dropZeros : NoLeadingZero (ds.dropWhile (· == zeroDigit)) := by
  intro h
  have := List.head?_dropWhile_not (· == zeroDigit) ds
  rw [h] at this
  simp at this

theorem allDigits_dropWhile (hd : AllDigits ds) : AllDigits (ds.dropWhile f) :=
  fun c hc => hd c ((List.dropWhile_sublist f).subset hc)

def zeroNumber : Number := ⟨false, [zeroDigit], [], none⟩

theorem canonical_zero : Canonical zeroNumber :=
  ⟨⟨by decide, by decide, by decide, by decide, by simp [zeroNumber]⟩, rfl, by decide, by decide⟩

theorem canonicalNumber_eq (hp : p.Wf) :
    canonicalNumber p.text =
      if p.power < -maxExponent ∨ maxExponent < p.power then
        .error (.exponent (mantissa p ++ p.exponentText))
      else .ok (formatDigits p.signText ((p.integer ++ p.fraction).dropWhile (· == zeroDigit))
        (p.fraction.length - p.power)) := by
  simp only [canonicalNumber, split_sign hp, splitExponent_eq hp]
  by_cases he : p.power < -maxExponent ∨ maxExponent < p.power
  · rw [if_pos he, if_pos he]
    rfl
  · obtain ⟨hi, hf⟩ := split_point hp
    rw [if_neg he, if_neg he]
    show Except.ok _ = _
    simp only [hi, hf]

theorem formatDigits_canonical (negative : Bool) (hd : AllDigits ds) (hz : NoLeadingZero ds) :
    ∃ q : Number, formatDigits (if negative then [minus] else []) ds scale = q.text ∧ Canonical q ∧
      q.value = signFactor negative * digitsValue ds * (10 : ℚ) ^ (-scale) := by
  by_cases hempty : ds = []
  · refine ⟨zeroNumber, by rw [hempty]; rfl, canonical_zero, ?_⟩
    rw [value_eq, hempty]
    simp [zeroNumber, digitsValue_zero_cons]
  by_cases hs : 0 < scale
  · obtain ⟨⟨k, ds'⟩, htrim⟩ : ∃ r, trimZeros scale.toNat ds = r := ⟨_, rfl⟩
    obtain ⟨hk, rfl, hlast⟩ := trimZeros_spec htrim
    -- something is left, since the digits are not all zeros
    have hne : ds' ≠ [] := by
      rintro rfl
      have := digitsValue_pos hd hz hempty
      rw [List.nil_append, digitsValue_zeros] at this
      exact absurd this (Nat.lt_irrefl 0)
    have hz' : NoLeadingZero ds' := by
      obtain ⟨c, l, rfl⟩ := List.exists_cons_of_ne_nil hne
      exact hz
    refine ⟨placed negative ds' k, ?_, canonical_placed _ (AllDigits.append.1 hd).1 hz' hne _
      (by simpa using hlast), ?_⟩
    · rw [text_placed _ hne]
      simp only [formatDigits, List.isEmpty_iff, hempty, if_false, hs, if_true, htrim]
    · have hscale : -scale = -((scale.toNat - k : Nat) : Int) + -(k : Int) := by omega
      have hcancel : (10 : ℚ) ^ (scale.toNat - k) * 10 ^
        (-((scale.toNat - k : Nat) : Int)) = 1 := by
        rw [zpow_neg]
        exact mul_inv_cancel₀ (by positivity)
      rw [value_placed, digitsValue_append_zeros, hscale, zpow_add₀ (by norm_num)]
      push_cast
      linear_combination (-(signFactor negative * digitsValue ds' * 10 ^ (-(k : Int)))) * hcancel
  · refine ⟨placed negative ds scale, ?_, canonical_placed _ hd hz hempty _ (fun h => absurd h hs),
      value_placed _⟩
    rw [text_placed _ hempty]
    simp only [formatDigits, List.isEmpty_iff, hempty, if_false, hs]

/-- A number whose exponent is within the bounds is written in canonical form. -/
theorem canonicalNumber_accepts (hp : p.Wf)
    (he : ¬ (p.power < -maxExponent ∨ maxExponent < p.power)) :
    ∃ q : Number, canonicalNumber p.text = .ok q.text ∧ Canonical q ∧ q.value = p.value := by
  have hdigits : AllDigits (p.integer ++ p.fraction) := AllDigits.append.2 ⟨hp.integer, hp.fraction⟩
  obtain ⟨q, htext, hq, hval⟩ := formatDigits_canonical p.negative
    (allDigits_dropWhile hdigits) noLeadingZero_dropZeros
  refine ⟨q, ?_, hq, ?_⟩
  · rw [canonicalNumber_eq hp, if_neg he, ← htext]
    rfl
  · rw [hval, value_eq, digitsValue_dropZeros, neg_sub]

theorem canonicalNumber_spec (hp : p.Wf) (h : canonicalNumber p.text = .ok m) :
    ∃ q : Number, m = q.text ∧ Canonical q ∧ q.value = p.value := by
  have he : ¬ (p.power < -maxExponent ∨ maxExponent < p.power) := by
    intro he
    rw [canonicalNumber_eq hp, if_pos he] at h
    cases h
  obtain ⟨q, hq, hc, hv⟩ := canonicalNumber_accepts hp he
  rw [h] at hq
  exact ⟨q, Except.ok.inj hq, hc, hv⟩

abbrev unscaled (p : Number) : Nat := digitsValue (p.integer ++ p.fraction)

theorem integer_eq_zero (hp : p.Wf) (h : digitsValue p.integer = 0) : p.integer = [zeroDigit] := by
  by_cases hz : NoLeadingZero p.integer
  · exact absurd h (digitsValue_pos hp.integer hz hp.some_digit).ne'
  · obtain ⟨c, ds, hi⟩ := List.exists_cons_of_ne_nil hp.some_digit
    have hhead : p.integer.head? = some zeroDigit := not_not.1 hz
    have hlen := hp.zero_alone hhead
    rw [hi] at hhead hlen ⊢
    simp only [List.head?_cons, Option.some.injEq] at hhead
    simp only [List.length_cons, Nat.add_eq_right, List.length_eq_zero_iff] at hlen
    rw [hhead, hlen]

theorem integer_inj (hp : p.Wf) (hq : q.Wf) (h : digitsValue p.integer = digitsValue q.integer) :
    p.integer = q.integer := by
  by_cases h0 : digitsValue p.integer = 0
  · rw [integer_eq_zero hp h0, integer_eq_zero hq (h ▸ h0)]
  · have hz : ∀ {r : Number}, r.Wf → digitsValue r.integer ≠ 0 → NoLeadingZero r.integer := by
      intro r hr hne hhead
      have hlen := hr.zero_alone hhead
      obtain ⟨c, hc⟩ := List.length_eq_one_iff.1 hlen
      rw [hc] at hhead hne
      cases hhead
      exact hne rfl
    exact digitsValue_inj hp.integer hq.integer (hz hp h0) (hz hq (h ▸ h0)) h

theorem Canonical.unscaled_mod (hp : Canonical p) (hf : p.fraction ≠ []) : unscaled p % 10 ≠ 0 := by
  obtain ⟨ds, c, hsplit⟩ : ∃ ds c, p.fraction = ds ++ [c] :=
    ⟨_, _, (List.dropLast_append_getLast hf).symm⟩
  have hdig : isDigit c := hp.fraction c (by simp [hsplit])
  have hc : digitValue c ≠ 0 := fun h0 => by
    have hcz : c = zeroDigit := digitValue_inj hdig (by decide) h0
    exact hp.no_trailing (by simp [hsplit, hcz])
  have hval : digitsValue [c] = digitValue c := by simp [digitsValue, digitList]
  have hlt := digitValue_lt hdig
  rw [unscaled, hsplit, ← List.append_assoc, digitsValue_append]
  simp only [List.length_singleton]
  omega

theorem Canonical.eq_zero (hp : Canonical p) (h : unscaled p = 0) : p = zeroNumber := by
  have hf : p.fraction = [] := by
    by_contra hf
    exact hp.unscaled_mod hf (by rw [h])
  have hi : p.integer = [zeroDigit] := integer_eq_zero hp.toWf (by simpa [unscaled, hf] using h)
  have hn : p.negative = false := by
    by_contra hn
    exact hp.signed_nonzero (by simpa using hn) h
  obtain ⟨negative, integer, fraction, exponent⟩ := p
  simp only at hf hi hn
  rw [hf, hi, hn, show exponent = none from hp.no_exponent]
  rfl

theorem unscaled_inj (hm : j ≠ 0 → m % 10 ≠ 0) (hn : k ≠ 0 → n % 10 ≠ 0)
    (h : m * 10 ^ k = n * 10 ^ j) : j = k ∧ m = n := by
  wlog hle : j ≤ k generalizing m n j k
  · obtain ⟨h₁, h₂⟩ := this hn hm h.symm (by omega)
    exact ⟨h₁.symm, h₂.symm⟩
  obtain ⟨d, rfl⟩ := Nat.exists_eq_add_of_le hle
  have hmn : m * 10 ^ d = n := by
    have : m * 10 ^ d * 10 ^ j = n * 10 ^ j := by rw [← h]; ring
    exact Nat.eq_of_mul_eq_mul_right (by positivity) this
  cases d with
  | zero => exact ⟨rfl, by simpa using hmn⟩
  | succ d =>
    refine absurd ?_ (hn (by omega))
    rw [← hmn, pow_succ, ← mul_assoc, Nat.mul_mod_left]

theorem Canonical.value_eq (hp : Canonical p) :
    p.value = signFactor p.negative * (unscaled p / 10 ^ p.fraction.length) := by
  have hpow : p.power = 0 := by simp [Number.power, hp.no_exponent]
  rw [Encoding.value_eq, hpow, zero_sub, zpow_neg, zpow_natCast, mul_assoc, div_eq_mul_inv]

theorem signFactor_pos_inj (hx : 0 < x) (hy : 0 < y)
    (h : signFactor a * x = signFactor b * y) : a = b ∧ x = y := by
  cases a <;> cases b <;> simp only [signFactor, Bool.false_eq_true, if_true, if_false, neg_mul,
    one_mul, neg_inj] at h
  · exact ⟨rfl, h⟩
  · linarith
  · linarith
  · exact ⟨rfl, h⟩

theorem Canonical.value_eq_zero (hp : Canonical p) : p.value = 0 ↔ unscaled p = 0 := by
  have hsign : signFactor p.negative ≠ 0 := by cases p.negative <;> simp [signFactor]
  rw [hp.value_eq, mul_eq_zero, or_iff_right hsign, div_eq_zero_iff, Nat.cast_eq_zero,
    or_iff_left (by positivity)]

/-- The value of a canonical number gives its sign, its digits and its scale. -/
theorem Canonical.scaled (hp : Canonical p) (hq : Canonical q) (h : p.value = q.value)
    (h0 : p.value ≠ 0) : p.negative = q.negative ∧ p.fraction.length = q.fraction.length ∧
      unscaled p = unscaled q := by
  have hpos : ∀ {r : Number}, Canonical r → r.value ≠ 0 →
      (0 : ℚ) < unscaled r / 10 ^ r.fraction.length := fun hr hne => by
    have := Nat.pos_of_ne_zero fun h => hne (hr.value_eq_zero.2 h)
    positivity
  have hsigned := h
  rw [hp.value_eq, hq.value_eq] at hsigned
  obtain ⟨hneg, hdiv⟩ := signFactor_pos_inj (hpos hp h0) (hpos hq (h ▸ h0)) hsigned
  rw [div_eq_div_iff (by positivity) (by positivity)] at hdiv
  have hmod : ∀ {r : Number}, Canonical r → r.fraction.length ≠ 0 → unscaled r % 10 ≠ 0 :=
    fun hr hne => hr.unscaled_mod (by simpa using hne)
  exact ⟨hneg, unscaled_inj (hmod hp) (hmod hq) (by exact_mod_cast hdiv)⟩

theorem split_inj (hp : p.Wf) (hq : q.Wf) (hlen : p.fraction.length = q.fraction.length)
    (h : unscaled p = unscaled q) : p.integer = q.integer ∧ p.fraction = q.fraction := by
  have hdiv : ∀ a {b n : Nat}, b < n → (a * n + b) / n = a := fun a b n hb => by
    rw [Nat.mul_comm, Nat.mul_add_div (by omega), Nat.div_eq_of_lt hb, Nat.add_zero]
  have hlt : digitsValue p.fraction < 10 ^ q.fraction.length := hlen ▸ digitsValue_lt hp.fraction
  unfold unscaled at h
  rw [digitsValue_append, digitsValue_append, hlen] at h
  have hint : digitsValue p.integer = digitsValue q.integer := by
    rw [← hdiv (digitsValue p.integer) hlt, h, hdiv _ (digitsValue_lt hq.fraction)]
  rw [hint] at h
  exact ⟨integer_inj hp hq hint,
    digitsValue_inj_length hp.fraction hq.fraction hlen (by omega)⟩

theorem Canonical.ext (hp : Canonical p) (hq : Canonical q) (h : p.value = q.value) : p = q := by
  by_cases h0 : p.value = 0
  · rw [hp.eq_zero (hp.value_eq_zero.1 h0), hq.eq_zero (hq.value_eq_zero.1 (h ▸ h0))]
  · obtain ⟨hneg, hlen, hun⟩ := hp.scaled hq h h0
    obtain ⟨hi, hf⟩ := split_inj hp.toWf hq.toWf hlen hun
    have he := hp.no_exponent.trans hq.no_exponent.symm
    cases p
    simp only at hneg hi hf he
    rw [hneg, hi, hf, he]

theorem Canonical.accepted (hp : Canonical p) : canonicalNumber p.text = .ok p.text := by
  have hpow : p.power = 0 := by simp [Number.power, hp.no_exponent]
  obtain ⟨q, htext, hq, hval⟩ := canonicalNumber_accepts hp.toWf (by rw [hpow]; decide)
  rw [htext, hq.ext hp hval]

end Adro.Encoding
