import Adro.Json.Number
import Mathlib.Data.Nat.Digits.Lemmas

/-!
# Decimal texts, dates and times

The texts that `strconv` and `time` write for whole numbers and for times in
UTC. A time is the number of nanoseconds since January 1 of the year 1. The
calendar is the Gregorian one, extended to all years.
-/

namespace Adro.Go

open Adro.Json

def digitByte (d : Nat) : UInt8 := UInt8.ofNat (0x30 + d)

/-- The last `w` digits of a number. -/
def pad : Nat → Nat → Bytes
  | 0, _ => []
  | w + 1, n => pad w (n / 10) ++ [digitByte (n % 10)]

def natText (n : Nat) : Bytes :=
  if n = 0 then [zeroDigit] else (Nat.digits 10 n).reverse.map digitByte

/-- `strconv.FormatInt` in base ten. -/
def intText (n : Int) : Bytes := if n < 0 then minus :: natText n.natAbs else natText n.natAbs

theorem digitByte_spec : ∀ {d : Nat}, d < 10 →
    isDigit (digitByte d) ∧ digitValue (digitByte d) = d := by
  decide

theorem length_pad : (pad w n).length = w := by
  induction w generalizing n with
  | zero => rfl
  | succ w ih => simp [pad, ih]

theorem allDigits_pad (w n : Nat) : AllDigits (pad w n) := by
  induction w generalizing n with
  | zero => simp [pad, AllDigits]
  | succ w ih =>
    refine AllDigits.append.2 ⟨ih _, ?_⟩
    intro c hc
    rw [List.mem_singleton.1 hc]
    exact (digitByte_spec (Nat.mod_lt _ (by decide))).1

theorem digitsValue_singleton : Json.digitsValue [c] = digitValue c := by
  simp [Json.digitsValue, digitList]

theorem digitsValue_pad (w n : Nat) : Json.digitsValue (pad w n) = n % 10 ^ w := by
  induction w generalizing n with
  | zero => simp [pad, Nat.mod_one]
  | succ w ih =>
    rw [pad, digitsValue_append, ih, digitsValue_singleton,
      (digitByte_spec (Nat.mod_lt _ (by decide))).2, pow_succ, Nat.mul_comm (10 ^ w), Nat.mod_mul]
    simp only [List.length_singleton]
    ring

variable {n : Nat}

theorem pad_inj (hn : n < 10 ^ w) (hm : m < 10 ^ w) (h : pad w n = pad w m) :
    n = m := by
  have := congrArg Json.digitsValue h
  rwa [digitsValue_pad, digitsValue_pad, Nat.mod_eq_of_lt hn, Nat.mod_eq_of_lt hm] at this

theorem digitList_natText (hn : n ≠ 0) : digitList (natText n) = Nat.digits 10 n := by
  have hmap : ((Nat.digits 10 n).map digitByte).map digitValue = Nat.digits 10 n := by
    rw [List.map_map]
    exact (List.map_congr_left fun d hd =>
      (digitByte_spec (Nat.digits_lt_base (by decide) hd)).2).trans (List.map_id _)
  rw [natText, if_neg hn, digitList, List.map_reverse, List.map_reverse, List.reverse_reverse, hmap]

theorem digitsValue_natText : Json.digitsValue (natText n) = n := by
  by_cases hn : n = 0
  · rw [hn]
    rfl
  · rw [Json.digitsValue, digitList_natText hn, Nat.ofDigits_digits]

theorem allDigits_natText (n : Nat) : AllDigits (natText n) := by
  unfold natText
  split
  · intro c hc
    rw [List.mem_singleton.1 hc]
    rfl
  · intro c hc
    simp only [List.mem_map, List.mem_reverse] at hc
    obtain ⟨d, hd, rfl⟩ := hc
    exact (digitByte_spec (Nat.digits_lt_base (by decide) hd)).1

theorem natText_ne_nil (n : Nat) : natText n ≠ [] := by
  unfold natText
  split
  · simp
  · next hn => simpa using Nat.digits_ne_nil_iff_ne_zero.2 hn

theorem natText_zero_alone (h : (natText n).head? = some zeroDigit) : (natText n).length = 1 := by
  by_cases hn : n = 0
  · rw [hn]
    rfl
  · exfalso
    have hdigits : Nat.digits 10 n ≠ [] := Nat.digits_ne_nil_iff_ne_zero.2 hn
    have hlast := Nat.getLast_digit_ne_zero 10 hn
    have hlt := Nat.digits_lt_base (by decide : 1 < 10) (List.getLast_mem hdigits)
    rw [natText, if_neg hn, List.head?_map, List.head?_reverse,
      List.getLast?_eq_getLast_of_ne_nil hdigits,
      Option.map_some, Option.some.injEq] at h
    have hval := (digitByte_spec hlt).2
    rw [h] at hval
    exact hlast hval.symm

def intNumber (n : Int) : Number := ⟨n < 0, natText n.natAbs, [], none⟩

theorem text_intNumber (n : Int) : (intNumber n).text = intText n := by
  unfold intText
  split <;> simp [intNumber, Number.text, Number.signText, Number.fractionText,
    Number.exponentText, *]

theorem wf_intNumber (n : Int) : (intNumber n).Wf :=
  ⟨allDigits_natText _, natText_ne_nil _, natText_zero_alone, by simp [intNumber, AllDigits],
    by simp [intNumber]⟩

theorem value_intNumber (n : Int) : (intNumber n).value = n := by
  simp only [intNumber, Number.value, List.append_nil, digitsValue_natText, Number.power]
  by_cases hn : n < 0
  · have hcast : ((n.natAbs : Int) : ℚ) = -(n : ℚ) := by
      rw [← Int.cast_neg]
      congr 1
      omega
    simp only [hn, Int.cast_natCast] at hcast ⊢
    rw [hcast]
    simp
  · have hcast : ((n.natAbs : Int) : ℚ) = (n : ℚ) := by
      congr 1
      omega
    simp only [hn, Int.cast_natCast] at hcast ⊢
    simp [hcast]

theorem isNumber_intText (n : Int) : IsNumber (intText n) :=
  ⟨intNumber n, wf_intNumber n, (text_intNumber n).symm⟩

theorem atoi_intText {n : Int} (h : -(2 ^ 63) ≤ n) (h' : n ≤ maxInt64) :
    atoi (intText n) = some n := by
  have hall : (natText n.natAbs).all isDigit = true := List.all_eq_true.2 (allDigits_natText _)
  have hempty := List.isEmpty_eq_false_iff.2 (natText_ne_nil n.natAbs)
  have hscan : ∀ s, s = [] ∨ s = [plus] ∨ s = [minus] →
      scanSign (s ++ natText n.natAbs) = (s, natText n.natAbs) := fun s hs => by
    have := scanSign_text (r := []) (allDigits_natText n.natAbs) (natText_ne_nil _) hs
    rwa [List.append_nil, List.append_nil] at this
  unfold intText
  by_cases hn : n < 0
  · have hval : -((n.natAbs : Nat) : Int) = n := by omega
    rw [if_pos hn, ← List.singleton_append, atoi, hscan [minus] (by simp)]
    simp only [hall, hempty, digitsValue_natText, if_true, hval, h, h']
    rfl
  · have hval : ((n.natAbs : Nat) : Int) = n := by omega
    have hne : ([] : Bytes) ≠ [minus] := by simp
    rw [if_neg hn, ← List.nil_append (natText _), atoi, hscan [] (by simp)]
    simp only [hall, hempty, digitsValue_natText, hne, if_false, hval, h, h']
    rfl

structure Date where
  year : Int
  month : Nat
  day : Nat
  deriving DecidableEq, Repr

def isLeap (year : Int) : Bool := year % 4 == 0 && (year % 100 != 0 || year % 400 == 0)

def monthStarts : List Nat := [0, 31, 59, 90, 120, 151, 181, 212, 243, 273, 304, 334]

/-- The days of a year before a month, the first month being 0. -/
def monthStart (leap : Bool) (month : Nat) : Nat :=
  monthStarts.getD month 0 + if leap && 2 ≤ month then 1 else 0

/-- The number of the month, from 1, with this day of the year. -/
def monthOf (leap : Bool) (yday : Nat) : Nat :=
  ((List.range 12).filter fun m => monthStart leap m ≤ yday).length

/-- The year of a day since January 1 of the year 1, and the days of the year before it. -/
def yearDay (days : Int) : Int × Nat :=
  let era := days / 146097
  let d := (days % 146097).toNat
  let c := d / 36524 - d / 36524 / 4
  let d := d - 36524 * c
  let q := d / 1461
  let d := d - 1461 * q
  let y := d / 365 - d / 365 / 4
  (400 * era + 100 * c + 4 * q + y + 1, d - 365 * y)

def civil (days : Int) : Date :=
  let (year, yday) := yearDay days
  let month := monthOf (isLeap year) yday
  ⟨year, month, yday - monthStart (isLeap year) (month - 1) + 1⟩

def daysBeforeYear (year : Int) : Int :=
  365 * (year - 1) + (year - 1) / 4 - (year - 1) / 100 + (year - 1) / 400

def daysOf (d : Date) : Int :=
  daysBeforeYear d.year + monthStart (isLeap d.year) (d.month - 1) + d.day - 1

theorem yearDay_spec :
    daysBeforeYear (yearDay days).1 + (yearDay days).2 = days ∧ (yearDay days).2 ≤ 365 := by
  simp only [yearDay, daysBeforeYear]
  have hd : 146097 * (days / 146097) + (((days % 146097).toNat : Nat) : Int) = days := by omega
  generalize (days % 146097).toNat = d at hd
  obtain ⟨c, hc⟩ : ∃ c, c = d / 36524 - d / 36524 / 4 := ⟨_, rfl⟩
  rw [← hc]
  obtain ⟨d₁, hd₁⟩ : ∃ d₁, d₁ = d - 36524 * c := ⟨_, rfl⟩
  rw [← hd₁]
  obtain ⟨q, hq⟩ : ∃ q, q = d₁ / 1461 := ⟨_, rfl⟩
  rw [← hq]
  obtain ⟨d₂, hd₂⟩ : ∃ d₂, d₂ = d₁ - 1461 * q := ⟨_, rfl⟩
  rw [← hd₂]
  obtain ⟨y, hy⟩ : ∃ y, y = d₂ / 365 - d₂ / 365 / 4 := ⟨_, rfl⟩
  rw [← hy]
  have hc3 : c ≤ 3 ∧ d = 36524 * c + d₁ ∧ d₁ ≤ 36524 := by omega
  generalize days / 146097 = era at *
  have h₄ : (400 * era + 100 * c + 4 * q + y + 1 - 1) / 4 = 100 * era + 25 * c + q := by omega
  have h₁₀₀ : (400 * era + 100 * c + 4 * q + y + 1 - 1) / 100 = 4 * era + c := by omega
  omega

theorem monthOf_spec : ∀ leap : Bool, ∀ yday ≤ 365,
    1 ≤ monthOf leap yday ∧ monthOf leap yday ≤ 12 ∧
    monthStart leap (monthOf leap yday - 1) ≤ yday ∧
    yday - monthStart leap (monthOf leap yday - 1) < 32 := by
  decide +kernel

theorem civil_spec :
    daysOf (civil days) = days ∧ (civil days).month < 100 ∧ (civil days).day < 100 := by
  obtain ⟨hdays, hle⟩ := yearDay_spec
  obtain ⟨h₁, h₂, h₃, h₄⟩ := monthOf_spec (isLeap (yearDay days).1) (yearDay days).2 hle
  simp only [civil, daysOf]
  rw [← hdays]
  simp only [hdays]
  omega

def nanosPerDay : Int := 86400000000000

def dateOf (t : Time) : Date := civil (t / nanosPerDay)

def secondOf (t : Time) : Nat := (t % nanosPerDay / 1000000000).toNat

def nanosOf (t : Time) : Nat := (t % 1000000000).toNat

def yearDigits (n : Nat) : Bytes := if n < 10000 then pad 4 n else natText n

def yearText (year : Int) : Bytes :=
  if year < 0 then minus :: yearDigits year.natAbs else yearDigits year.natAbs

def monthDayText (d : Date) : Bytes := minus :: pad 2 d.month ++ minus :: pad 2 d.day

def clockText (second : Nat) : Bytes :=
  pad 2 (second / 3600) ++ colon :: pad 2 (second / 60 % 60) ++ colon :: pad 2 (second % 60)

def secondsText (t : Time) : Bytes :=
  yearText (dateOf t).year ++ monthDayText (dateOf t) ++ 0x54 :: clockText (secondOf t)

/-- The layout `2006-01-02T15:04:05.000000Z`. -/
def microsText (t : Time) : Bytes :=
  secondsText t ++ point :: pad 6 (nanosOf t / 1000) ++ [0x5A]

/-- The fraction of a second without zeros at its end, and without its point when it is zero. -/
def fractionText (nanos : Nat) : Bytes :=
  if nanos = 0 then [] else point :: ((pad 9 nanos).reverse.dropWhile (· == zeroDigit)).reverse

/-- `Time.MarshalJSON` of a time in UTC, without the quotes. -/
def rfc3339 (t : Time) : Option Bytes :=
  if 0 ≤ (dateOf t).year ∧ (dateOf t).year ≤ 9999 then
    some (secondsText t ++ fractionText (nanosOf t) ++ [0x5A])
  else none

/-- The time that a text of the layout of `rfc3339` says. -/
def readTime (b : Bytes) : Time :=
  let field start width := Json.digitsValue ((b.drop start).take width)
  let date : Date := ⟨field 0 4, field 5 2, field 8 2⟩
  let fraction := (b.drop 20).dropLast
  daysOf date * nanosPerDay +
    (field 11 2 * 3600 + field 14 2 * 60 + field 17 2 : Nat) * 1000000000 +
    (Json.digitsValue fraction * 10 ^ (9 - fraction.length) : Nat)

/-- `Time.UnmarshalJSON`. A text that `MarshalJSON` writes is read back; `other` reads the
texts of other forms. -/
def parseTime (other : Bytes → Option Time) (b : Bytes) : Option Time :=
  if rfc3339 (readTime b) = some b then some (readTime b) else other b

theorem dateOf_spec (t : Time) :
    daysOf (dateOf t) = t / nanosPerDay ∧ (dateOf t).month < 100 ∧ (dateOf t).day < 100 :=
  civil_spec

theorem time_split (t : Int) :
    t / nanosPerDay * nanosPerDay + (secondOf t : Int) * 1000000000 + nanosOf t = t := by
  unfold secondOf nanosOf nanosPerDay
  omega

theorem secondOf_lt (t : Int) : secondOf t < 86400 := by
  unfold secondOf nanosPerDay
  omega

theorem nanosOf_lt (t : Int) : nanosOf t < 1000000000 := by
  unfold nanosOf
  omega

theorem trimmed_fraction (h : nanos < 1000000000) :
    Json.digitsValue (fractionText nanos).tail * 10 ^ (9 - (fractionText nanos).tail.length) =
      nanos := by
  unfold fractionText
  split
  · next h0 => simp [h0]
  · obtain ⟨zs, hzs⟩ : ∃ zs, zs = (pad 9 nanos).reverse.takeWhile (· == zeroDigit) := ⟨_, rfl⟩
    obtain ⟨ds, hds⟩ : ∃ ds, ds = ((pad 9 nanos).reverse.dropWhile (· == zeroDigit)).reverse :=
      ⟨_, rfl⟩
    have hzeros : zs.reverse = List.replicate zs.length zeroDigit := by
      refine List.eq_replicate_iff.2 ⟨by simp, fun c hc => ?_⟩
      have hall := List.all_takeWhile (p := (· == zeroDigit)) (l := (pad 9 nanos).reverse)
      rw [← hzs, List.all_eq_true] at hall
      simpa using hall c (by simpa using hc)
    have hsplit : pad 9 nanos = ds ++ zs.reverse := by
      rw [hds, hzs, ← List.reverse_append, List.takeWhile_append_dropWhile, List.reverse_reverse]
    have hlen : ds.length + zs.length = 9 := by
      have := congrArg List.length hsplit
      rw [length_pad, List.length_append, List.length_reverse] at this
      omega
    have hval := digitsValue_pad 9 nanos
    rw [hsplit, hzeros, digitsValue_append, digitsValue_zeros, List.length_replicate,
      Nat.mod_eq_of_lt (by exact h), Nat.add_zero] at hval
    rw [← hds, List.tail_cons, show 9 - ds.length = zs.length by omega, hval]

theorem yearText_inRange (h : 0 ≤ year) (h' : year ≤ 9999) :
    yearText year = pad 4 year.toNat := by
  have hn : year.natAbs = year.toNat := by omega
  simp only [yearText, if_neg (not_lt.2 h), hn, yearDigits,
    if_pos (show year.toNat < 10000 by omega)]

theorem readTime_layout :
    readTime (pad 4 y ++ (minus :: pad 2 m ++ minus :: pad 2 d) ++
        0x54 :: (pad 2 h ++ colon :: pad 2 mi ++ colon :: pad 2 s) ++ f ++ [0x5A]) =
      daysOf ⟨Json.digitsValue (pad 4 y), Json.digitsValue (pad 2 m),
        Json.digitsValue (pad 2 d)⟩ * nanosPerDay +
        (Json.digitsValue (pad 2 h) * 3600 + Json.digitsValue (pad 2 mi) * 60 + Json.digitsValue
          (pad 2 s) : Nat) *
          1000000000 +
        (Json.digitsValue f.tail * 10 ^ (9 - f.tail.length) : Nat) := by
  have hf : (f ++ [0x5A]).tail.dropLast = f.tail := by
    cases f with
    | nil => rfl
    | cons c f => simp
  simp [readTime, pad, hf]

theorem readTime_rfc3339 (h : rfc3339 t = some b) : readTime b = t := by
  unfold rfc3339 at h
  split at h
  · next hy =>
    cases h
    obtain ⟨hdays, hm, hd⟩ := dateOf_spec t
    have hs := secondOf_lt t
    have hpad : ∀ {n : Nat}, n < 100 → Json.digitsValue (pad 2 n) = n := fun hn => by
      rw [digitsValue_pad, Nat.mod_eq_of_lt (by exact hn)]
    have hyear : ((Json.digitsValue (pad 4 (dateOf t).year.toNat) : Nat) : Int) =
      (dateOf t).year := by
      rw [digitsValue_pad]
      omega
    have hclock : secondOf t / 3600 * 3600 + secondOf t / 60 % 60 * 60 + secondOf t % 60 =
        secondOf t := by omega
    simp only [secondsText, yearText_inRange hy.1 hy.2, monthDayText, clockText]
    rw [readTime_layout, hyear, hpad hm, hpad hd, hpad (by omega), hpad (by omega), hpad (by omega),
      hclock, trimmed_fraction (nanosOf_lt t)]
    refine Eq.trans ?_ (time_split t)
    rw [show daysOf ⟨(dateOf t).year, (dateOf t).month, (dateOf t).day⟩ =
      t / nanosPerDay from hdays]
  · cases h

theorem parseTime_rfc3339 (h : rfc3339 t = some b) : parseTime other b = some t := by
  unfold parseTime
  rw [readTime_rfc3339 h, if_pos h]

theorem digitsValue_yearDigits : Json.digitsValue (yearDigits n) = n := by
  unfold yearDigits
  split
  · next hn => rw [digitsValue_pad, Nat.mod_eq_of_lt (by exact hn)]
  · exact digitsValue_natText

theorem yearDigits_no_sign (h : yearDigits n = minus :: b) : False := by
  have hall : AllDigits (yearDigits n) := by
    unfold yearDigits
    split
    · exact allDigits_pad 4 n
    · exact allDigits_natText n
  exact absurd (hall minus (by simp [h])) (by decide)

theorem yearText_inj (h : yearText x = yearText y) : x = y := by
  have hinj : ∀ {n m : Nat}, yearDigits n = yearDigits m → n = m := fun heq => by
    have := congrArg Json.digitsValue heq
    rwa [digitsValue_yearDigits, digitsValue_yearDigits] at this
  unfold yearText at h
  split_ifs at h with hx hy hy
  · have := hinj (List.cons.inj h).2
    omega
  · exact (yearDigits_no_sign h.symm).elim
  · exact (yearDigits_no_sign h).elim
  · have := hinj h
    omega

theorem pad_append_inj
    (h : c :: (pad w n ++ r) = c :: (pad w n' ++ r')) : pad w n = pad w n' ∧ r = r' :=
  List.append_inj (List.cons.inj h).2 (by simp [length_pad])

theorem microsText_inj {t t' : Int} (h : microsText t = microsText t') : t / 1000 = t' / 1000 := by
  obtain ⟨hdays, hm, hd⟩ := dateOf_spec t
  obtain ⟨hdays', hm', hd'⟩ := dateOf_spec t'
  have hs := secondOf_lt t
  have hs' := secondOf_lt t'
  have hn := nanosOf_lt t
  have hn' := nanosOf_lt t'
  simp only [microsText, secondsText, monthDayText, clockText, List.append_assoc,
    List.cons_append] at h
  -- what follows the year has one length
  obtain ⟨hyear, h⟩ := List.append_inj' h (by simp [length_pad])
  obtain ⟨hmonth, h⟩ := pad_append_inj h
  obtain ⟨hday, h⟩ := pad_append_inj h
  obtain ⟨hhour, h⟩ := pad_append_inj h
  obtain ⟨hminute, h⟩ := pad_append_inj h
  obtain ⟨hsecond, h⟩ := pad_append_inj h
  obtain ⟨hmicros, -⟩ := pad_append_inj h
  have hdate : dateOf t = dateOf t' := by
    have h₁ := yearText_inj hyear
    have h₂ := pad_inj (by exact hm) (by exact hm') hmonth
    have h₃ := pad_inj (by exact hd) (by exact hd') hday
    cases hx : dateOf t
    simp_all
  have hclock : secondOf t = secondOf t' := by
    have h₁ := pad_inj (show _ < 100 by omega) (show _ < 100 by omega) hhour
    have h₂ := pad_inj (show _ < 100 by omega) (show _ < 100 by omega) hminute
    have h₃ := pad_inj (show _ < 100 by omega) (show _ < 100 by omega) hsecond
    omega
  have hmicros := pad_inj (show _ < 1000000 by omega) (show _ < 1000000 by omega) hmicros
  rw [hdate, hdays'] at hdays
  have hsplit := time_split t
  have hsplit' := time_split t'
  rw [← hdays] at hsplit
  unfold nanosPerDay at hsplit hsplit'
  omega

end Adro.Go
