import Adro.Json.Syntax

/-!
# Literals

What the two scanners leave. A literal is a text that its scanner takes whole;
a scanner takes a literal off the front of every text in which what follows does
not extend it, and takes nothing else.
-/

namespace Adro.Json

open Adro.Go

variable {b s n rest : Bytes} {p : Number}

def AllDigits (b : Bytes) : Prop := ∀ c ∈ b, isDigit c

instance : DecidablePred AllDigits := fun b => List.decidableBAll (isDigit ·) b

structure Exponent.Wf (e : Exponent) : Prop where
  mark : isExponentMark e.mark
  sign : e.sign = [] ∨ e.sign = [plus] ∨ e.sign = [minus]
  digits : AllDigits e.digits
  some_digit : e.digits ≠ []

structure Number.Wf (p : Number) : Prop where
  integer : AllDigits p.integer
  some_digit : p.integer ≠ []
  zero_alone : p.integer.head? = some 0x30 → p.integer.length = 1
  fraction : AllDigits p.fraction
  exponent : ∀ e ∈ p.exponent, e.Wf

def isNumberByte (c : UInt8) : Bool :=
  isDigit c || isExponentMark c || c == point || c == plus || c == minus

def Stop (rest : Bytes) : Prop := ∀ c ∈ rest.head?, isNumberByte c = false

theorem stop_nil : Stop [] := fun _ h => nomatch h

theorem Stop.digit (h : Stop rest) : ∀ c ∈ rest.head?, isDigit c = false := fun c hc => by
  have := h c hc
  simp only [isNumberByte, Bool.or_eq_false_iff] at this
  exact this.1.1.1.1

theorem takeDigits (hd : AllDigits ds) (hr : ∀ c ∈ rest.head?, isDigit c = false) :
    (ds ++ rest).takeWhile isDigit = ds := by
  rw [List.takeWhile_append_of_pos hd]
  cases rest with
  | nil => simp
  | cons c rest => simp [hr c rfl]

theorem dropDigits (hd : AllDigits ds) (hr : ∀ c ∈ rest.head?, isDigit c = false) :
    (ds ++ rest).dropWhile isDigit = rest := by
  rw [List.dropWhile_append_of_pos hd]
  cases rest with
  | nil => simp
  | cons c rest => simp [hr c rfl]

theorem allDigits_takeWhile : AllDigits (b.takeWhile isDigit) :=
  by
  have h := List.all_takeWhile (p := isDigit) (l := b)
  rwa [List.all_eq_true] at h

theorem isDigit_ne (h : isDigit c) (hd : isDigit d = false) : (c == d) = false := by
  by_contra hne
  rw [Bool.not_eq_false, beq_iff_eq] at hne
  rw [hne, hd] at h
  cases h

theorem AllDigits.head (hd : AllDigits ds) (hne : ds ≠ []) :
    ∃ c ds', ds = c :: ds' ∧ isDigit c := by
  cases ds with
  | nil => exact absurd rfl hne
  | cons c ds' => exact ⟨c, ds', rfl, hd c (by simp)⟩

theorem scanSign_text (hd : AllDigits ds) (hne : ds ≠ []) (hs : s = [] ∨ s = [plus] ∨ s = [minus]) :
    scanSign (s ++ ds ++ r) = (s, ds ++ r) := by
  obtain ⟨c, ds', rfl, hc⟩ := hd.head hne
  rcases hs with rfl | rfl | rfl
  · simp [scanSign, isDigit_ne hc (d := plus) rfl, isDigit_ne hc (d := minus) rfl]
  · rfl
  · rfl

section
variable (hp : p.Wf) (hr : Stop rest)
include hp hr

theorem scanExponent_text : scanExponent (p.exponentText ++ rest) = some (p.exponent, rest) := by
  cases he : p.exponent with
  | none =>
    simp only [Number.exponentText, he]
    cases rest with
    | nil => rfl
    | cons c rest =>
      have := hr c rfl
      simp only [isNumberByte, Bool.or_eq_false_iff] at this
      simp [scanExponent, this.1.1.1.2]
  | some e =>
    have hw := hp.exponent e he
    simp only [Number.exponentText, he, Option.map_some, Option.getD_some, Exponent.text,
      List.cons_append]
    simp only [scanExponent, hw.mark, scanSign_text hw.digits hw.some_digit hw.sign,
      takeDigits hw.digits hr.digit, dropDigits hw.digits hr.digit]
    simp [hw.some_digit]

theorem exponentText_stops :
    ∀ c ∈ (p.exponentText ++ rest).head?, isDigit c = false ∧ (c == point) = false := by
  cases he : p.exponent with
  | none =>
    intro c hc
    simp only [Number.exponentText, he] at hc
    have := hr c hc
    simp only [isNumberByte, Bool.or_eq_false_iff] at this
    exact ⟨this.1.1.1.1, this.1.1.2⟩
  | some e =>
    intro c hc
    simp only [Number.exponentText, he, Option.map_some, Option.getD_some, Exponent.text,
      List.cons_append, List.head?_cons, Option.mem_def, Option.some.injEq] at hc
    have hm := (hp.exponent e he).mark
    rw [hc] at hm
    simp only [isExponentMark, Bool.or_eq_true, beq_iff_eq] at hm
    rcases hm with rfl | rfl <;> exact ⟨rfl, rfl⟩

theorem scanFraction_text : scanFraction (p.fractionText ++ (p.exponentText ++ rest)) =
      some (p.fraction, p.exponentText ++ rest) := by
  have hstop := exponentText_stops hp hr
  generalize p.exponentText ++ rest = r at hstop
  by_cases hf : p.fraction = []
  · simp only [Number.fractionText, hf]
    cases r with
    | nil => rfl
    | cons c r => simp [scanFraction, (hstop c rfl).2]
  · have hdig := fun c hc => (hstop c hc).1
    simp only [Number.fractionText, List.isEmpty_iff, hf, if_false, List.cons_append, scanFraction,
      beq_self_eq_true, if_true, takeDigits hp.fraction hdig, dropDigits hp.fraction hdig]

theorem fractionText_stops :
    ∀ c ∈ (p.fractionText ++ (p.exponentText ++ rest)).head?, isDigit c = false := by
  intro c hc
  by_cases hf : p.fraction = []
  · simp only [Number.fractionText, hf] at hc
    exact (exponentText_stops hp hr c hc).1
  · simp only [Number.fractionText, List.isEmpty_iff, hf, if_false, List.cons_append,
      List.head?_cons, Option.mem_def, Option.some.injEq] at hc
    rw [← hc]
    rfl

end

theorem scanInteger_text (hp : p.Wf) (hr : ∀ c ∈ rest.head?, isDigit c = false) :
    scanInteger (p.integer ++ rest) = some (p.integer, rest) := by
  have hzero := hp.zero_alone
  unfold scanInteger
  rw [takeDigits hp.integer hr, dropDigits hp.integer hr]
  simpa [hp.some_digit] using hzero

theorem scanMinus_text (hp : p.Wf) :
    scanMinus (p.signText ++ (p.integer ++ rest)) = (p.negative, p.integer ++ rest) := by
  obtain ⟨c, ds, hi, hc⟩ := hp.integer.head hp.some_digit
  unfold Number.signText
  cases p.negative with
  | true => rfl
  | false => simp [hi, scanMinus, isDigit_ne hc (d := minus) rfl]

theorem readNumber_text (hp : p.Wf) (hr : Stop rest) :
    readNumber (p.text ++ rest) = some (p, rest) := by
  simp only [readNumber, Number.text, List.append_assoc, scanMinus_text hp,
    scanInteger_text hp (fractionText_stops hp hr), scanFraction_text hp hr,
    scanExponent_text hp hr, Option.bind_eq_bind, Option.bind_some]

-- The other direction: each part that a scanner takes has its shape.

theorem scanMinus_sound (h : scanMinus b = (neg, r)) :
    b = (if neg then [minus] else []) ++ r := by
  unfold scanMinus at h
  split at h
  · cases h
    rfl
  · split at h
    · next hc =>
      cases h
      rw [beq_iff_eq] at hc
      rw [hc]
      rfl
    · cases h
      rfl

theorem scanInteger_sound (h : scanInteger b = some (s, r)) :
    b = s ++ r ∧ AllDigits s ∧ s ≠ [] ∧ (s.head? = some 0x30 → s.length = 1) := by
  simp only [scanInteger] at h
  split at h
  · cases h
  · next hc =>
    cases h
    refine ⟨List.takeWhile_append_dropWhile.symm, allDigits_takeWhile, ?_⟩
    simpa using hc

theorem scanFraction_sound (h : scanFraction b = some (s, r)) :
    b = (if s.isEmpty then [] else point :: s) ++ r ∧ AllDigits s := by
  unfold scanFraction at h
  split at h
  · cases h
    exact ⟨rfl, by simp [AllDigits]⟩
  · next c rest =>
    split at h
    · next hc =>
      split at h
      · cases h
      · next hne =>
        cases h
        rw [beq_iff_eq] at hc
        rw [if_neg hne, hc]
        exact ⟨by simp, allDigits_takeWhile⟩
    · cases h
      exact ⟨rfl, by simp [AllDigits]⟩

theorem scanSign_sound (h : scanSign b = (s, r)) :
    b = s ++ r ∧ (s = [] ∨ s = [plus] ∨ s = [minus]) := by
  unfold scanSign at h
  split at h
  · cases h
    exact ⟨rfl, .inl rfl⟩
  · split at h
    · next hc =>
      cases h
      simp only [Bool.or_eq_true, beq_iff_eq] at hc
      rcases hc with rfl | rfl <;> simp
    · cases h
      exact ⟨rfl, .inl rfl⟩

theorem scanExponent_sound (h : scanExponent b = some (e, r)) :
    b = (e.map Exponent.text).getD [] ++ r ∧ ∀ x ∈ e, x.Wf := by
  unfold scanExponent at h
  split at h
  · cases h
    exact ⟨rfl, by simp⟩
  · next c rest =>
    split at h
    · next hc =>
      generalize hsign : scanSign rest = split at h
      obtain ⟨sign, digits⟩ := split
      dsimp only at h
      obtain ⟨hrest, hs⟩ := scanSign_sound hsign
      split at h
      · cases h
      · next hne =>
        cases h
        refine ⟨by simp [hrest, Exponent.text], ?_⟩
        rintro _ ⟨⟩
        exact ⟨hc, hs, allDigits_takeWhile, by simpa using hne⟩
    · cases h
      exact ⟨rfl, by simp⟩

theorem readNumber_sound (h : readNumber b = some (p, rest)) : b = p.text ++ rest ∧ p.Wf := by
  unfold readNumber at h
  generalize hs : scanMinus b = split at h
  obtain ⟨neg, b₁⟩ := split
  simp only [Option.bind_eq_bind, Option.bind_eq_some_iff, Prod.exists] at h
  obtain ⟨integer, b₂, hi, fraction, b₃, hf, exponent, b₄, he, rfl, rfl⟩ := h
  obtain ⟨rfl, hint, hne, hzero⟩ := scanInteger_sound hi
  obtain ⟨rfl, hfd⟩ := scanFraction_sound hf
  obtain ⟨rfl, hew⟩ := scanExponent_sound he
  refine ⟨?_, hint, hne, hzero, hfd, hew⟩
  rw [scanMinus_sound hs]
  simp [Number.text, Number.signText, Number.fractionText, Number.exponentText]

def IsNumber (n : Bytes) : Prop := ∃ p : Number, p.Wf ∧ n = p.text

theorem IsNumber.scan (h : IsNumber n) (hr : Stop rest) :
    scanNumber (n ++ rest) = some (n, rest) := by
  obtain ⟨p, hp, rfl⟩ := h
  simp [scanNumber, readNumber_text hp hr]

theorem scanNumber_sound (h : scanNumber b = some (n, rest)) : b = n ++ rest ∧ IsNumber n := by
  simp only [scanNumber, Option.map_eq_some_iff, Prod.exists] at h
  obtain ⟨p, r, hp, rfl, rfl⟩ := h
  obtain ⟨hb, hw⟩ := readNumber_sound hp
  exact ⟨hb, p, hw, rfl⟩

theorem IsNumber.head (h : IsNumber n) : ∃ c n', n = c :: n' ∧ (c = minus ∨ isDigit c) := by
  obtain ⟨p, hp, rfl⟩ := h
  obtain ⟨c, ds, hi, hc⟩ := hp.integer.head hp.some_digit
  unfold Number.text Number.signText
  cases p.negative with
  | true => exact ⟨minus, _, rfl, .inl rfl⟩
  | false => exact ⟨c, ds ++ p.fractionText ++ p.exponentText, by simp [hi], .inr hc⟩

def IsString (s : Bytes) : Prop := ∀ rest, scanString (s ++ quoteMark :: rest) = some (s, rest)

theorem isString_nil : IsString [] := fun rest => by simp [scanString.eq_def]

theorem scanString_sound (h : scanString b = some (s, rest)) :
    b = s ++ quoteMark :: rest ∧ IsString s := by
  fun_induction scanString b generalizing s rest
  case case2 hc =>
    cases h
    rw [beq_iff_eq] at hc
    exact ⟨by rw [hc]; rfl, isString_nil⟩
  -- An escape, a short escape and a plain byte are each read before the rest.
  case case5 ih | case8 ih | case10 ih =>
    simp only [Option.map_eq_some_iff, Prod.exists] at h
    obtain ⟨s, b, hs, rfl, rfl⟩ := h
    obtain ⟨rfl, hstr⟩ := ih hs
    refine ⟨by simp, fun rest => ?_⟩
    rw [scanString.eq_def]
    simp [*, hstr rest]
  all_goals cases h

end Adro.Json
