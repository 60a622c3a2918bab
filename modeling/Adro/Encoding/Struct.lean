import Adro.Encoding.Laws
import Adro.Go.Calendar

/-!
# Structs as JSON objects

How `encoding/json` writes a struct and reads one back. A field that is omitted
when empty is written as nothing. A member is read into the field of its name,
whatever the case of its letters; `null` leaves a field as it is.
-/

namespace Adro.Encoding

open Adro.Go Adro.Json

/-- Names and values of fields, nothing for a field that is omitted. -/
abbrev Fields := List (Bytes × Option Syntax)

def present {α : Type} (fs : List (Bytes × Option α)) : List (Bytes × α) :=
  fs.filterMap fun p => p.2.map fun v => (p.1, v)

def object (fs : Fields) : Syntax := .obj ((present fs).map fun p => (literal p.1, p.2))

def stringTree (s : Bytes) : Syntax := .str (literal s)

def intTree (n : Int) : Syntax := .num (intText n)

/-- A string with `omitempty`. -/
def nonEmpty (s : Bytes) : Option Syntax := if s.isEmpty then none else some (stringTree s)

/-- A number with `omitempty`. -/
def nonZero (n : Int) : Option Syntax := if n = 0 then none else some (intTree n)

/-- The upper case of a letter that can stand in the name of a field. -/
def foldRune (c : Char) : Char :=
  if 'a' ≤ c ∧ c ≤ 'z' then Char.ofNat (c.toNat - 32)
  else if c.toNat = 0x212A then 'K'
  else if c.toNat = 0x17F then 'S'
  else c

def foldName (b : Bytes) : List Char := (runes b).map foldRune

def named (name : Bytes) (m : Member) : Bool := foldName (unquote m.key) == foldName name

/-- The members of one field, each read over what is there. -/
def readField {α : Type} (name : Bytes) (read : Member → α → Option α) (zero : α)
    (members : List Member) : Option α :=
  (members.filter (named name)).foldlM (fun a m => read m a) zero

def readString (m : Member) (old : Bytes) : Option Bytes :=
  match m.value with
  | .null => some old
  | .str s => some (unquote s)
  | _ => none

def readInt (m : Member) (old : Int) : Option Int :=
  match m.value with
  | .null => some old
  | .num n => atoi n
  | _ => none

def readTimeField (other : Bytes → Option Time) (m : Member) (old : Time) : Option Time :=
  match m.value with
  | .null => some old
  | .str s => parseTime other s
  | _ => none

def readRaw (m : Member) (_ : Bytes) : Option Bytes := some m.raw

def readStruct {α : Type} (read : List Member → α → Option α) (m : Member) (old : α) : Option α :=
  match m.value with
  | .null => some old
  | .obj _ => (parseObject m.raw).bind fun ms => read ms old
  | _ => none

variable {α : Type} {s : Bytes}

/-- The names of a struct are told apart, whatever the case of their letters. -/
structure Distinct (fs : List (Bytes × Option α)) : Prop where
  valid : ∀ p ∈ fs, Valid p.1
  folded : (fs.map fun p => foldName p.1).Nodup

theorem mem_present :
    (k, v) ∈ present fs ↔ (k, some v) ∈ fs := by
  simp only [present, List.mem_filterMap, Option.map_eq_some_iff, Prod.mk.injEq]
  constructor
  · rintro ⟨⟨k', o⟩, hp, w, rfl, rfl, rfl⟩
    exact hp
  · intro h
    exact ⟨(k, some v), h, v, rfl, rfl, rfl⟩

theorem present_filter (h : (fs.map fun p => foldName p.1).Nodup) {o : Option α}
    (hk : (k, o) ∈ fs) :
    (present fs).filter (fun p => foldName p.1 == foldName k) = (o.map fun v => (k, v)).toList := by
  induction fs with
  | nil => cases hk
  | cons p fs ih =>
    obtain ⟨k', o'⟩ := p
    rw [List.map_cons, List.nodup_cons] at h
    rcases List.mem_cons.1 hk with heq | hk
    · cases heq
      have hnone : (present fs).filter (fun p => foldName p.1 == foldName k) = [] := by
        rw [List.filter_eq_nil_iff]
        rintro ⟨k', v⟩ hp heq
        rw [beq_iff_eq] at heq
        exact h.1 (heq ▸ List.mem_map_of_mem (mem_present.1 hp))
      cases o with
      | none => simpa [present] using hnone
      | some v => simpa [present] using hnone
    · have hne : foldName k' ≠ foldName k := fun heq =>
        h.1 (heq ▸ List.mem_map_of_mem hk)
      rw [← ih h.2 hk]
      cases o' with
      | none => simp [present]
      | some v => simp [present, hne]

theorem Distinct.names (h : Distinct fs) : (fs.map Prod.fst).Nodup := by
  have := h.folded
  rw [show (fs.map fun p => foldName p.1) = (fs.map Prod.fst).map foldName by simp] at this
  exact List.Nodup.of_map _ this

theorem wfMembers_iff :
    WfMembers ms ↔ ∀ p ∈ ms, IsString p.1 ∧ p.2.Wf := by
  induction ms with
  | nil => simp [WfMembers]
  | cons p ms ih => simp [WfMembers, ih, and_assoc]

variable {fs : Fields}

theorem wf_object (hw : ∀ p ∈ present fs, p.2.Wf) : (object fs).Wf := by
  simp only [object, Tree.Wf, wfMembers_iff]
  rintro p hp
  obtain ⟨q, hq, rfl⟩ := List.mem_map.1 hp
  exact ⟨isString_literal, hw q hq⟩

theorem wf_stringTree : (stringTree s).Wf := isString_literal

theorem wf_intTree : (intTree n).Wf := isNumber_intText n

theorem wf_nonEmpty : ∀ t ∈ nonEmpty s, t.Wf := by
  unfold nonEmpty
  split <;> simp [wf_stringTree]

theorem wf_nonZero : ∀ t ∈ nonZero n, t.Wf := by
  unfold nonZero
  split <;> simp [wf_intTree]

theorem wf_present (h : ∀ p ∈ fs, ∀ t ∈ p.2, t.Wf) : ∀ p ∈ present fs, p.2.Wf :=
  fun p hp => h (p.1, some p.2) (mem_present.1 hp) p.2 rfl

theorem Distinct.of_names (names : List Bytes) (hfs : fs.map Prod.fst = names)
    (hvalid : ∀ k ∈ names, Valid k) (hnodup : (names.map foldName).Nodup) : Distinct fs := by
  refine ⟨fun p hp => hvalid _ (hfs ▸ List.mem_map_of_mem hp), ?_⟩
  rw [← hfs, List.map_map] at hnodup
  exact hnodup

theorem unquote_name (h : Valid k) : unquote (literal k) = k := by
  rw [unquote_literal]
  exact h

theorem value_stringTree (h : Valid s) : value (decode (stringTree s)) = .str (codes s) := by
  simp only [stringTree, decode, value, unquote_name h]

theorem value_intTree : value (decode (intTree n)) = .num n := by
  have := numberValue_text (wf_intNumber n)
  rw [text_intNumber, value_intNumber] at this
  simp only [intTree, decode, value, this, Option.getD_some]

/-- The value of a field, if it is written. -/
abbrev fieldValue (o : Option Syntax) : Option JsonValue := o.map fun t => value (decode t)

theorem stringTree_inj (h : Valid s) (h' : Valid s')
    (heq : fieldValue (some (stringTree s)) = fieldValue (some (stringTree s'))) : s = s' := by
  simp only [fieldValue, Option.map_some, value_stringTree h, value_stringTree h',
    Option.some.injEq, JsonValue.str.injEq] at heq
  exact codes_injective h h' heq

theorem intTree_inj (h : fieldValue (some (intTree n)) = fieldValue (some (intTree m))) :
    n = m := by
  simp only [fieldValue, Option.map_some, value_intTree, Option.some.injEq,
    JsonValue.num.injEq] at h
  exact_mod_cast h

theorem nonEmpty_inj (h : Valid s) (h' : Valid s')
    (heq : fieldValue (nonEmpty s) = fieldValue (nonEmpty s')) : s = s' := by
  unfold nonEmpty at heq
  split_ifs at heq with h₁ h₂ h₂
  · rw [List.isEmpty_iff] at h₁ h₂
    rw [h₁, h₂]
  · cases heq
  · cases heq
  · exact stringTree_inj h h' heq

theorem nonZero_inj (heq : fieldValue (nonZero n) = fieldValue (nonZero m)) : n = m := by
  unfold nonZero at heq
  split_ifs at heq with h₁ h₂ h₂
  · rw [h₁, h₂]
  · cases heq
  · cases heq
  · exact intTree_inj heq

variable {t : Syntax}

theorem marshal_ok (hw : t.Wf) (h : marshal t = .ok out) :
    ∃ s, Writes (decode t) s ∧ s.Writable ∧ out = s.text := by
  unfold marshal at h
  split at h
  · obtain ⟨s, hs, rfl⟩ := writeValue_ok h
    obtain ⟨hd, hle⟩ := decodes t hw
    obtain ⟨⟨hwf, heq⟩, -⟩ := hs.written hd
    exact ⟨s, hs, ⟨hwf, by omega⟩, rfl⟩
  · cases h

theorem marshal_inj (hw : t.Wf) (hw' : t'.Wf) (h : marshal t = .ok out)
    (h' : marshal t' = .ok out) : value (decode t) = value (decode t') := by
  obtain ⟨s, hs, hwr, rfl⟩ := marshal_ok hw h
  obtain ⟨s', hs', hwr', heq⟩ := marshal_ok hw' h'
  have hden := (hs.written (decodes t hw).1).2.1
  rw [text_injective hwr hwr' heq, (hs'.written (decodes t' hw').1).2.1] at hden
  exact (Option.some.inj hden).symm

theorem insertKey_perm {ps : List (Bytes × Decoded)}
    (h : ∀ p ∈ ps, p.1 ≠ k) : (insertKey k v ps).Perm ((k, v) :: ps) := by
  induction ps with
  | nil => exact .refl _
  | cons p ps ih =>
    rw [insertKey]
    split_ifs with hlt heq
    · exact .refl _
    · exact absurd heq.symm (h p (by simp))
    · exact ((ih fun q hq => h q (by simp [hq])).cons p).trans (.swap _ _ _)

theorem decodeMembers_perm (h : (ms.map fun p => unquote p.1).Nodup) :
    (decodeMembers ms).Perm (ms.map fun p => (unquote p.1, decode p.2)) := by
  induction ms with
  | nil => simp [decodeMembers]
  | cons p ms ih =>
    rw [List.map_cons, List.nodup_cons] at h
    have ih := ih h.2
    refine (insertKey_perm fun p hp heq => h.1 ?_).trans (ih.cons _)
    obtain ⟨q, hq, rfl⟩ := List.mem_map.1 (ih.subset hp)
    exact List.mem_map.2 ⟨q, hq, heq⟩

theorem WritesMembers.filter {f : Bytes → Bool}
    (hv : ∀ p ∈ ds, Valid p.1) (h : WritesMembers ds ss) :
    WritesMembers (ds.filter fun p => f p.1) (ss.filter fun p => f (unquote p.1)) := by
  induction ds generalizing ss with
  | nil =>
    cases h
    exact .nil
  | cons p ds ih =>
    cases h with
    | @cons d s _ ss k h hs =>
      have hrec := ih (fun q hq => hv q (by simp [hq])) hs
      have hk : unquote (literal k) = k := unquote_name (hv (k, d) (by simp))
      by_cases hf : f k = true
      · simpa [hk, hf] using WritesMembers.cons h hrec
      · simpa [hk, hf] using hrec

theorem members_writable (hwr : Tree.Writable (.obj ss)) : ∀ p ∈ ss, p.2.Writable := by
  obtain ⟨hw, hd⟩ := hwr
  simp only [Tree.Wf, wfMembers_iff] at hw
  exact fun p hp => ⟨(hw p hp).2, (depthMembers_le.1 (Nat.le_of_succ_le hd)) p hp⟩

def Written (k : Bytes) (o : Option Syntax) (ms : List Member) : Prop :=
  match o with
  | none => ms.filter (named k) = []
  | some t =>
    ∃ s, Writes (decode t) s ∧ s.Writable ∧ ms.filter (named k) = [Member.of (literal k, s)]

theorem Distinct.present_names (hd : Distinct fs) : ((present fs).map Prod.fst).Nodup := by
  have hsub : ((present fs).map Prod.fst).Sublist (fs.map Prod.fst) := by
    clear hd
    induction fs with
    | nil => exact List.nil_sublist _
    | cons p fs ih =>
      obtain ⟨k, o⟩ := p
      cases o with
      | none => exact ih.cons _
      | some t => exact ih.cons_cons _
  exact hd.names.sublist hsub

/-- The entries of a decoded object are those of its fields, in some order. -/
theorem decode_object_perm (hd : Distinct fs) :
    (decodeMembers ((present fs).map fun p => (literal p.1, p.2))).Perm
      ((present fs).map fun p => (p.1, decode p.2)) := by
  have hname : ∀ p ∈ present fs, unquote (literal p.1) = p.1 := fun p hp =>
    unquote_name (hd.valid (p.1, some p.2) (mem_present.1 hp))
  have hnodup : (((present fs).map fun p => (literal p.1, p.2)).map
    fun p => unquote p.1).Nodup := by
    have hmap : (((present fs).map fun p => (literal p.1, p.2)).map fun p => unquote p.1) =
        (present fs).map Prod.fst := by
      rw [List.map_map]
      exact List.map_congr_left hname
    rw [hmap]
    exact hd.present_names
  have hmap : (((present fs).map fun p => (literal p.1, p.2)).map
    fun p => (unquote p.1, decode p.2)) =
      (present fs).map fun p => (p.1, decode p.2) := by
    rw [List.map_map]
    exact List.map_congr_left fun p hp => by simp [hname p hp]
  rw [← hmap]
  exact decodeMembers_perm hnodup

/-- Objects of one value have the same values in each field. -/
theorem value_object_inj (hd : Distinct fs) (hd' : Distinct fs')
    (hw : ∀ p ∈ present fs, p.2.Wf) (hw' : ∀ p ∈ present fs', p.2.Wf)
    (h : value (decode (object fs)) = value (decode (object fs'))) (i : Nat)
    (hi : fs[i]? = some (k, o)) (hi' : fs'[i]? = some (k, u)) :
    fieldValue o = fieldValue u := by
  have hfield {fs : Fields} (hd : Distinct fs) {o : Option Syntax} (hk : (k, o) ∈ fs) :
      ((valueMembers (decodeMembers ((present fs).map fun p => (literal p.1, p.2)))).filter
        fun p => foldName p.1 == foldName k).Perm (o.map fun t =>
          (k, value (decode t))).toList := by
    rw [valueMembers_eq]
    refine (((decode_object_perm hd).map _).filter _).trans (.of_eq ?_)
    rw [List.map_map, List.filter_map]
    simp only [Function.comp_def]
    rw [present_filter hd.folded hk]
    cases o <;> rfl
  obtain ⟨hs, hv, -⟩ := decodesMembers (wf_object hw)
  obtain ⟨hs', hv', -⟩ := decodesMembers (wf_object hw')
  simp only [object, decode, value, JsonValue.obj.injEq] at h
  have hsame := hfield hd (List.mem_of_getElem? hi)
  rw [valueMembers_inj hs hs' hv hv' h] at hsame
  have hsame := hsame.symm.trans (hfield hd' (List.mem_of_getElem? hi'))
  cases o <;> cases u <;> simp_all

theorem writesMembers_nil (h : WritesMembers [] ss) : ss = [] := by
  cases h
  rfl

theorem writesMembers_singleton (h : WritesMembers [(k, d)] ss) :
    ∃ s, Writes d s ∧ ss = [(literal k, s)] := by
  cases h with
  | cons h hs =>
    rw [writesMembers_nil hs]
    exact ⟨_, h, rfl⟩

theorem read_object {s : Syntax} (hd : Distinct fs) (hw : ∀ p ∈ present fs, p.2.Wf)
    (hs : Writes (decode (object fs)) s) (hwr : s.Writable) :
    (∃ ss, s = .obj ss) ∧ ∃ ms, parseObject s.text = some ms ∧
      ∀ k o, (k, o) ∈ fs → Written k o ms := by
  have hwf := wf_object hw
  obtain ⟨-, hvalid, -⟩ := decodesMembers hwf
  rw [decodesMembers_iff] at hvalid
  cases hs with
  | @obj _ ss hs =>
    refine ⟨⟨ss, rfl⟩, ss.map Member.of, parseObject_text hwr, fun k o hk => ?_⟩
    have hfilter := hs.filter (f := fun b => foldName b == foldName k) fun p hp => (hvalid p hp).1
    have hsel := (decode_object_perm hd).filter fun p => foldName p.1 == foldName k
    rw [List.filter_map] at hsel
    simp only [Function.comp_def] at hsel
    rw [present_filter hd.folded hk] at hsel
    have hmem : (ss.map Member.of).filter (named k) =
        (ss.filter fun p => foldName (unquote p.1) == foldName k).map Member.of := by
      rw [List.filter_map]
      rfl
    rw [Written.eq_def, hmem]
    cases o with
    | none =>
      rw [List.perm_nil.1 hsel] at hfilter
      rw [writesMembers_nil hfilter]
      rfl
    | some t =>
      rw [List.perm_singleton.1 hsel] at hfilter
      obtain ⟨s, hws, heq⟩ := writesMembers_singleton hfilter
      refine ⟨s, hws, ?_, by rw [heq]; rfl⟩
      have : (literal k, s) ∈ ss := List.mem_of_mem_filter (heq ▸ List.mem_singleton_self _)
      exact members_writable hwr _ this

theorem safe_append : Safe (a ++ b) ↔ Safe a ∧ Safe b := List.forall_mem_append

theorem safe_cons : Safe (x :: b) ↔ isSafe x ∧ Safe b := List.forall_mem_cons

theorem safe_nil : Safe [] := fun _ h => nomatch h

theorem digit_safe (h : isDigit c) : isSafe c := by
  have hall : ∀ n < 256, isDigit (UInt8.ofNat n) → isSafe (UInt8.ofNat n) := by decide +kernel
  have hc : UInt8.ofNat c.toNat = c := UInt8.ofNat_toNat
  have := hall c.toNat c.toNat_lt (by rwa [hc])
  rwa [hc] at this

theorem digits_safe (h : AllDigits ds) : Safe ds := fun c hc => digit_safe (h c hc)

theorem fractionText_safe (n : Nat) : Safe (fractionText n) := by
  unfold fractionText
  split
  · exact safe_nil
  · refine safe_cons.2 ⟨rfl, fun c hc => digit_safe (allDigits_pad 9 n c ?_)⟩
    exact List.mem_reverse.1 ((List.dropWhile_sublist _).subset (List.mem_reverse.1 hc))

theorem rfc3339_safe {t : Time} (h : rfc3339 t = some b) : Safe b := by
  unfold rfc3339 at h
  split at h
  · next hy =>
    cases h
    have hpad : ∀ w n, Safe (pad w n) := fun w n => digits_safe (allDigits_pad w n)
    simp only [secondsText, yearText_inRange hy.1 hy.2, monthDayText, clockText, safe_append,
      safe_cons, hpad, fractionText_safe, safe_nil]
    decide
  · cases h

theorem microsText_safe (t : Time) : Safe (microsText t) := by
  have hpad : ∀ w n, Safe (pad w n) := fun w n => digits_safe (allDigits_pad w n)
  have hyear : ∀ n, Safe (yearDigits n) := by
    intro n
    unfold yearDigits
    split
    · exact hpad _ _
    · exact digits_safe (allDigits_natText n)
  have hyears : ∀ y, Safe (yearText y) := by
    intro y
    unfold yearText
    split
    · exact safe_cons.2 ⟨rfl, hyear _⟩
    · exact hyear _
  simp only [microsText, secondsText, monthDayText, clockText, safe_append, safe_cons, hpad, hyears,
    safe_nil]
  decide

theorem hexText_safe : Safe (hexText b) := by
  have hdigit : ∀ n < 16, isSafe (hexDigit n) := by decide
  intro x hx
  simp only [hexText, List.mem_flatMap, List.mem_cons, List.not_mem_nil, or_false] at hx
  obtain ⟨c, -, rfl | rfl⟩ := hx
  · exact hdigit _ (by have := c.toNat_lt; omega)
  · exact hdigit _ (by omega)

theorem hexText_injective (h : hexText a = hexText b) : a = b := by
  induction a generalizing b with
  | nil =>
    cases b with
    | nil => rfl
    | cons y b => cases h
  | cons x a ih =>
    cases b with
    | nil => cases h
    | cons y b =>
      simp only [hexText, List.flatMap_cons, List.cons_append, List.cons.injEq] at h
      obtain ⟨hhigh, hlow, hrest⟩ := h
      have hx := x.toNat_lt
      have hy := y.toNat_lt
      have hdigit : ∀ {n m : Nat}, n < 16 → m < 16 → hexDigit n = hexDigit m → n = m :=
        fun hn hm heq => Option.some.inj (by rw [← hexValue_hexDigit hn, heq, hexValue_hexDigit hm])
      have h₁ := hdigit (by omega) (by omega) hhigh
      have h₂ := hdigit (by omega) (by omega) hlow
      rw [ih hrest, UInt8.toNat_inj.1 (show x.toNat = y.toNat by omega)]

theorem readField_one {read : Member → α → Option α}
    (h : ms.filter (named k) = [m]) : readField k read zero ms = read m zero := by
  simp [readField, h]

theorem readField_absent {read : Member → α → Option α} (h : Written k none ms) :
    readField k read zero ms = some zero := by
  simp [readField, show ms.filter (named k) = [] from h]

theorem readField_string (hb : Valid b) (h : Written k (some (stringTree b)) ms) :
    readField k readString zero ms = some b := by
  obtain ⟨s, hs, -, hm⟩ := h
  rw [readField_one hm]
  cases hs
  simp [readString, Member.of, unquote_name hb]

theorem readField_nonEmpty (hb : Valid b) (h : Written k (nonEmpty b) ms) :
    readField k readString [] ms = some b := by
  unfold nonEmpty at h
  split at h
  · next he =>
    rw [List.isEmpty_iff] at he
    rw [he]
    exact readField_absent h
  · exact readField_string hb h

theorem canonical_intNumber (n : Int) : Canonical (intNumber n) := by
  refine ⟨wf_intNumber n, rfl, by simp [intNumber], fun hneg => ?_⟩
  simp only [intNumber, List.append_nil, digitsValue_natText, decide_eq_true_eq] at hneg ⊢
  omega

theorem readField_int (h₁ : -(2 ^ 63) ≤ n) (h₂ : n ≤ maxInt64)
    (h : Written k (some (intTree n)) ms) : readField k readInt zero ms = some n := by
  obtain ⟨s, hs, -, hm⟩ := h
  rw [readField_one hm]
  have haccept := (canonical_intNumber n).accepted
  rw [text_intNumber] at haccept
  cases hs with
  | num hn =>
    rw [haccept] at hn
    cases hn
    simp [readInt, Member.of, atoi_intText h₁ h₂]

theorem readField_nonZero (h₁ : -(2 ^ 63) ≤ n) (h₂ : n ≤ maxInt64) (h : Written k (nonZero n) ms) :
    readField k readInt 0 ms = some n := by
  unfold nonZero at h
  split at h
  · next hz =>
    rw [hz]
    exact readField_absent h
  · exact readField_int h₁ h₂ h

theorem readField_time {t zero : Time} (ht : rfc3339 t = some b)
    (h : Written k (some (stringTree b)) ms) :
    readField k (readTimeField other) zero ms = some t := by
  obtain ⟨hlit, hvalid⟩ := literal_safe (rfc3339_safe ht)
  obtain ⟨s, hs, -, hm⟩ := h
  rw [readField_one hm]
  rw [stringTree, decode, unquote_name hvalid] at hs
  cases hs
  simp [readTimeField, Member.of, hlit, parseTime_rfc3339 ht]

theorem readField_raw (hp : parse b = some t) (hc : canonicalize b = .ok b)
    (h : Written k (some t) ms) : readField k readRaw zero ms = some b := by
  obtain ⟨s, hs, -, hm⟩ := h
  rw [readField_one hm]
  have htext := hs.text
  simp only [canonicalize, hp, htext, Except.ok.injEq] at hc
  simp [readRaw, Member.of, hc]

theorem readField_struct {read : List Member → α → Option α} (hd : Distinct fs)
    (hw : ∀ p ∈ present fs, p.2.Wf) (h : Written k (some (object fs)) ms)
    (hread : ∀ ms, (∀ k o, (k, o) ∈ fs → Written k o ms) → read ms zero = some a) :
    readField k (readStruct read) zero ms = some a := by
  obtain ⟨s, hs, hwr, hm⟩ := h
  rw [readField_one hm]
  obtain ⟨⟨ss, rfl⟩, ms', hparse, hwritten⟩ := read_object hd hw hs hwr
  simp [readStruct, Member.of, hparse, hread ms' hwritten]

end Adro.Encoding
