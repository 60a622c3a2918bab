import Adro.Orchestration.Provider

/-!
# Extracting an object

`extractJSONObject` counts braces and skips strings. What stands between the
braces of an object is balanced: the scanner comes out of it at the depth it
came in with, so it stops at the brace that closes the object and not before.
-/

namespace Adro.Orchestration

open Adro.Go

def Digits (ds : List Char) : Prop := ds ≠ [] ∧ ∀ c ∈ ds, c.isDigit = true

inductive NumberText : List Char → Prop
  | mk : sign ∈ [[], ['-']] → Digits whole →
    (whole.head? = some '0' → whole = ['0']) →
    (fraction = [] ∨ ∃ ds, Digits ds ∧ fraction = '.' :: ds) →
    (exponent = [] ∨ ∃ mark ∈ ['e', 'E'], ∃ sign ∈ [[], ['+'], ['-']], ∃ ds, Digits ds ∧
      exponent = mark :: sign ++ ds) →
    NumberText (sign ++ whole ++ fraction ++ exponent)

/-- What may stand between the quotes of a string. -/
inductive StringText : List Char → Prop
  | nil : StringText []
  | char : c ≠ '"' → c ≠ '\\' → 0x20 ≤ c.toNat → StringText cs → StringText (c :: cs)
  | escape : c ∈ ['"', '\\', '/', 'b', 'f', 'n', 'r', 't'] →
    StringText cs → StringText ('\\' :: c :: cs)
  | unicode : digits.length = 4 →
    (∀ d ∈ digits, (Decoder.hexDigit d).isSome) → StringText cs →
    StringText ('\\' :: 'u' :: digits ++ cs)

def Space (cs : List Char) : Prop := ∀ c ∈ cs, c ∈ [' ', '\t', '\n', '\r']

inductive Part
  | object
  | members
  | value
  | spaced
  | items

/-- The grammar of values; items and members stand with the space around them. -/
inductive JsonText : Part → List Char → Prop
  | empty : Space cs → JsonText .object ('{' :: cs ++ ['}'])
  | members : JsonText .members cs → JsonText .object ('{' :: cs ++ ['}'])
  | object : JsonText .object cs → JsonText .value cs
  | word : w ∈ ["null", "true", "false"] → JsonText .value w.toList
  | number : NumberText cs → JsonText .value cs
  | string : StringText cs → JsonText .value ('"' :: cs ++ ['"'])
  | emptyArray : Space cs → JsonText .value ('[' :: cs ++ [']'])
  | array : JsonText .items cs → JsonText .value ('[' :: cs ++ [']'])
  | spaced : Space s → JsonText .value cs → Space s' → JsonText .spaced (s ++ cs ++ s')
  | item : JsonText .spaced cs → JsonText .items cs
  | moreItems : JsonText .spaced cs → JsonText .items cs' → JsonText .items (cs ++ ',' :: cs')
  | member : Space s → StringText key → Space s' →
    JsonText .spaced cs → JsonText .members (s ++ ('"' :: key ++ ['"']) ++ s' ++ ':' :: cs)
  | moreMembers : JsonText .members cs → JsonText .members cs' →
    JsonText .members (cs ++ ',' :: cs')

/-- Below the first brace the scanner passes over the text. -/
def Balanced (t : List Char) : Prop :=
  ∀ (depth : Int) (rest : List Char), 0 < depth →
    extractJSONObject depth false false (t ++ rest) =
      (extractJSONObject depth false false rest).map (t ++ ·)

variable {cs w p q r : List Char} {c : Char} {part : Part} {depth : Int} {inString escaped : Bool}

theorem Balanced.append (h : Balanced t) (h' : Balanced u) : Balanced (t ++ u) := by
  intro depth rest hpos
  rw [List.append_assoc, h depth _ hpos, h' depth _ hpos, Option.map_map]
  simp [Function.comp_def]

abbrev Plain (c : Char) : Prop := c ≠ '"' ∧ c ≠ '{' ∧ c ≠ '}'

theorem balanced_plain (h : ∀ c ∈ t, Plain c) : Balanced t := by
  intro depth rest hpos
  induction t with
  | nil => simp
  | cons c t ih =>
    obtain ⟨⟨hquote, hopen, hclose⟩, ht⟩ := List.forall_mem_cons.mp h
    simp [extractJSONObject, hquote, hopen, hclose, ih ht, Function.comp_def]

theorem Balanced.cons (hc : Plain c) (h : Balanced t) : Balanced (c :: t) :=
  (balanced_plain (t := [c]) (by simpa using hc)).append h

theorem Balanced.braces (h : Balanced t) : Balanced ('{' :: t ++ ['}']) := by
  intro depth rest hpos
  have hin := h (depth + 1) ('}' :: rest) (by omega)
  have hdeep : ¬ depth = 0 := by omega
  simp [extractJSONObject] at hin ⊢
  rw [hin]
  simp [hdeep, Function.comp_def]

theorem scan_through (h : ∀ c ∈ t, c ≠ '"' ∧ c ≠ '\\') (depth : Int) (rest : List Char) :
    extractJSONObject depth true false (t ++ rest) =
      (extractJSONObject depth true false rest).map (t ++ ·) := by
  induction t with
  | nil => simp
  | cons c t ih =>
    obtain ⟨⟨hquote, hback⟩, ht⟩ := List.forall_mem_cons.mp h
    simp [extractJSONObject, bne_iff_ne.mpr hquote, beq_false_of_ne hback, ih ht, Function.comp_def]

theorem StringText.scan (h : StringText cs) (rest : List Char) :
    extractJSONObject depth true false (cs ++ '"' :: rest) =
      (extractJSONObject depth false false rest).map (cs ++ '"' :: ·) := by
  induction h with
  | nil => simp [extractJSONObject]
  | @char c cs hquote hback _ _ ih =>
    have hone : ∀ d ∈ [c], d ≠ '"' ∧ d ≠ '\\' := by simp [hquote, hback]
    simpa [ih, Function.comp_def] using scan_through hone depth (cs ++ '"' :: rest)
  | escape _ _ ih => simp [extractJSONObject, ih, Function.comp_def]
  | @unicode digits cs _ hhex _ ih =>
    have hdigits : ∀ d ∈ digits, d ≠ '"' ∧ d ≠ '\\' := fun d hd =>
      ⟨fun h => absurd (hhex d hd) (by subst h; decide),
        fun h => absurd (hhex d hd) (by subst h; decide)⟩
    simp [extractJSONObject, scan_through hdigits, ih, Function.comp_def]

theorem StringText.balanced (h : StringText cs) : Balanced ('"' :: cs ++ ['"']) := by
  intro depth rest _
  simpa [extractJSONObject, Function.comp_def] using congrArg (Option.map ('"' :: ·)) (h.scan rest)

theorem Space.balanced (h : Space cs) : Balanced cs := by
  refine balanced_plain fun c hc => ?_
  have := h c hc
  simp only [List.mem_cons, List.not_mem_nil, or_false] at this
  rcases this with rfl | rfl | rfl | rfl <;> decide

theorem Digits.balanced (h : Digits cs) : Balanced cs := by
  refine balanced_plain fun c hc => ?_
  have := h.2 c hc
  refine ⟨?_, ?_, ?_⟩ <;> (rintro rfl; cases this)

theorem NumberText.balanced (h : NumberText cs) : Balanced cs := by
  have hsign : ∀ s ∈ [[], ['+'], ['-']], Balanced s := by
    simp only [List.forall_mem_cons]
    refine ⟨balanced_plain ?_, balanced_plain ?_, balanced_plain ?_, by simp⟩ <;> simp [Plain]
  obtain ⟨hs, hw, -, hf, he⟩ := h
  refine (((hsign _ (by simp at hs ⊢; tauto)).append hw.balanced).append ?_).append ?_
  · rcases hf with rfl | ⟨ds, hds, rfl⟩
    · exact hsign _ List.mem_cons_self
    · exact hds.balanced.cons (by decide)
  · rcases he with rfl | ⟨mark, hmark, sign, hs, ds, hds, rfl⟩
    · exact hsign _ List.mem_cons_self
    · refine ((hsign _ hs).append hds.balanced).cons ?_
      simp only [List.mem_cons, List.not_mem_nil, or_false] at hmark
      rcases hmark with rfl | rfl <;> decide

theorem JsonText.balanced (h : JsonText part cs) : Balanced cs := by
  have hclose : Balanced [']'] := balanced_plain (by simp [Plain])
  induction h with
  | empty h => exact h.balanced.braces
  | members _ ih => exact ih.braces
  | object _ ih => exact ih
  | @word w h =>
    refine balanced_plain ?_
    simp only [List.mem_cons, List.not_mem_nil, or_false] at h
    rcases h with rfl | rfl | rfl <;> simp [Plain]
  | number h => exact h.balanced
  | string h => exact h.balanced
  | emptyArray h => exact (h.balanced.append hclose).cons (by decide)
  | array _ ih => exact (ih.append hclose).cons (by decide)
  | spaced h _ h' ih => exact (h.balanced.append ih).append h'.balanced
  | item _ ih => exact ih
  | moreItems _ _ ih ih' => exact ih.append (ih'.cons (by decide))
  | member h hkey h' _ ih =>
    exact ((h.balanced.append hkey.balanced).append h'.balanced).append (ih.cons (by decide))
  | moreMembers _ _ ih ih' => exact ih.append (ih'.cons (by decide))

theorem JsonText.inner (h : JsonText .object w) : ∃ t, Balanced t ∧ w = '{' :: t ++ ['}'] := by
  cases h with
  | empty h => exact ⟨_, h.balanced, rfl⟩
  | members h => exact ⟨_, h.balanced, rfl⟩

theorem JsonText.extract (h : JsonText .object w) (s : List Char) :
    extractJSONObject 0 false false (w ++ s) = some w := by
  obtain ⟨t, ht, rfl⟩ := h.inner
  have hin := ht 1 ('}' :: s) (by decide)
  simp [extractJSONObject] at hin ⊢
  rw [hin]

/-- What is extracted is found at the front, whatever follows it, and ends in a brace. -/
structure Found (depth : Int) (inString escaped : Bool) (cs r : List Char) : Prop where
  front : r <+: cs
  last : r.getLast? = some '}'
  alone : ∀ q, extractJSONObject depth inString escaped (r ++ q) = some r

theorem extract_found (h : extractJSONObject depth inString escaped cs = some r) :
    Found depth inString escaped cs r := by
  fun_induction extractJSONObject depth inString escaped cs generalizing r with
  | case1 => cases h
  | case6 depth escaped c cs hquote hopen hclose hdepth =>
    cases h
    obtain rfl := beq_iff_eq.mp hclose
    refine ⟨⟨cs, rfl⟩, rfl, fun q => ?_⟩
    simp [extractJSONObject, beq_iff_eq.mp hdepth]
  | _ =>
    rename_i ih
    obtain ⟨r', hr', rfl⟩ := Option.map_eq_some_iff.mp h
    obtain ⟨⟨q, rfl⟩, hlast, hall⟩ := ih hr'
    refine ⟨⟨q, rfl⟩, by simp [List.getLast?_cons, hlast], fun q' => ?_⟩
    simp_all [extractJSONObject]

/-- The object is found whatever follows it, and nothing is found in a part of it that
lacks its end. A text that ends inside the encoding of a character reads as if it
ended in U+FFFD, once for each byte. -/
theorem extractJSONObject_object (h : JsonText .object w) :
    (∀ s, extractJSONObject 0 false false (w ++ s) = some w) ∧
      ∀ p cut, p <+: w → p ≠ w → (∀ c ∈ cut, c = '\uFFFD') →
        extractJSONObject 0 false false (p ++ cut) = none := by
  refine ⟨h.extract, fun p cut hp hne hcut => ?_⟩
  by_contra hsome
  obtain ⟨r, hr⟩ := Option.ne_none_iff_exists'.mp hsome
  obtain ⟨hfront, hlast, halone⟩ := extract_found hr
  by_cases hrp : r <+: p
  · obtain ⟨q, rfl⟩ := hrp.trans hp
    have hw := h.extract []
    rw [List.append_nil, halone, Option.some.injEq] at hw
    rw [← hw] at hp hne
    exact hne (hp.eq_of_length_le hrp.length_le)
  · obtain ⟨j, rfl⟩ :=
      (List.prefix_or_prefix_of_prefix hfront (List.prefix_append p cut)).resolve_left hrp
    have hj : j ≠ [] := by rintro rfl; exact hrp (by simp)
    rw [List.getLast?_append_of_ne_nil p hj] at hlast
    have hmem := ((List.prefix_append_right_inj p).mp hfront).mem (List.mem_of_getLast? hlast)
    exact absurd (hcut _ hmem) (by decide)

theorem brace_in_string_found :
    extractJSONObject 0 false false "\x7b\"a\":\"\x7d\"\x7d \x7d".toList =
      some "\x7b\"a\":\"\x7d\"\x7d".toList := by
  have hkey : StringText ['a'] := .char (by decide) (by decide) (by decide) .nil
  have hvalue : StringText ['\x7d'] := .char (by decide) (by decide) (by decide) .nil
  have hnone : Space [] := by simp [Space]
  exact (extractJSONObject_object (.members
    (.member hnone hkey hnone (.spaced hnone (.string hvalue) hnone)))).1 " \x7d".toList

end Adro.Orchestration
