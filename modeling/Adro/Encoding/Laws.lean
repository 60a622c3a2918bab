import Adro.Encoding.Decimal

/-!
# Canonical texts and values

`Writes d s` says that `writeValue` writes the decoded value `d` as the text of
the tree `s`. Such a tree is written as itself, it denotes what the decoded value
denotes, and decoded values that denote the same are written alike.
-/

namespace Adro.Encoding

open Adro.Go Adro.Json

mutual
inductive Writes : Decoded → Syntax → Prop
  | null : Writes .null .null
  | bool : Writes (.bool b) (.bool b)
  | str : Writes (.str s) (.str (literal s))
  | num : canonicalNumber n = .ok m → Writes (.num n) (.num m)
  | arr : WritesItems ds ss → Writes (.arr ds) (.arr ss)
  | obj : WritesMembers ds ss → Writes (.obj ds) (.obj ss)
inductive WritesItems : List Decoded → List Syntax → Prop
  | nil : WritesItems [] []
  | cons : Writes d s → WritesItems ds ss → WritesItems (d :: ds) (s :: ss)
inductive WritesMembers : List (Bytes × Decoded) → List (Bytes × Syntax) → Prop
  | nil : WritesMembers [] []
  | cons : Writes d s → WritesMembers ds ss → WritesMembers ((k, d) :: ds) ((literal k, s) :: ss)
end

mutual
theorem writeValue_ok (h : writeValue d = .ok out) : ∃ s, Writes d s ∧ out = s.text := by
  match d with
  | .null =>
    cases h
    exact ⟨.null, .null, by simp [Tree.text]⟩
  | .bool b =>
    refine ⟨.bool b, .bool, ?_⟩
    cases b <;> cases h <;> simp [Tree.text]
  | .str s =>
    rw [writeValue, pure_ok] at h
    exact ⟨.str (literal s), .str, by rw [← h, Tree.text]⟩
  | .num n =>
    exact ⟨.num out, .num h, by rw [Tree.text]⟩
  | .arr items =>
    rw [writeValue, bind_ok] at h
    obtain ⟨o, ho, h⟩ := h
    obtain ⟨ss, hs, rfl⟩ := writeItems_ok ho
    rw [pure_ok] at h
    exact ⟨.arr ss, .arr hs, by rw [← h, Tree.text]⟩
  | .obj members =>
    rw [writeValue, bind_ok] at h
    obtain ⟨o, ho, h⟩ := h
    obtain ⟨ss, hs, rfl⟩ := writeMembers_ok ho
    rw [pure_ok] at h
    exact ⟨.obj ss, .obj hs, by rw [← h, Tree.text]⟩
theorem writeItems_ok (h : writeItems ds = .ok out) :
    ∃ ss, WritesItems ds ss ∧ out = textItems ss := by
  match ds with
  | [] =>
    cases h
    exact ⟨[], .nil, by simp [textItems]⟩
  | [d] =>
    obtain ⟨s, hs, rfl⟩ := writeValue_ok h
    exact ⟨[s], .cons hs .nil, by simp [textItems]⟩
  | d :: d' :: ds =>
    simp only [writeItems, bind_ok, pure_ok] at h
    obtain ⟨o, ho, o', ho', rfl⟩ := h
    obtain ⟨s, hs, rfl⟩ := writeValue_ok ho
    obtain ⟨ss, hss, rfl⟩ := writeItems_ok ho'
    refine ⟨s :: ss, .cons hs hss, ?_⟩
    cases hss
    rw [textItems_next]
theorem writeMembers_ok (h : writeMembers ds = .ok out) :
    ∃ ss, WritesMembers ds ss ∧ out = textMembers ss := by
  match ds with
  | [] =>
    cases h
    exact ⟨[], .nil, by simp [textMembers]⟩
  | [(k, d)] =>
    simp only [writeMembers, bind_ok, pure_ok] at h
    obtain ⟨o, ho, rfl⟩ := h
    obtain ⟨s, hs, rfl⟩ := writeValue_ok ho
    exact ⟨[(literal k, s)], .cons hs .nil, by simp [textMembers]⟩
  | (k, d) :: m :: ds =>
    simp only [writeMembers, bind_ok, pure_ok] at h
    obtain ⟨o, ho, o', ho', rfl⟩ := h
    obtain ⟨s, hs, rfl⟩ := writeValue_ok ho
    obtain ⟨ss, hss, rfl⟩ := writeMembers_ok ho'
    refine ⟨(literal k, s) :: ss, .cons hs hss, ?_⟩
    cases hss
    rw [textMembers_next]
    simp
end

mutual
theorem Writes.text : Writes d s → writeValue d = .ok s.text
  | .null => by simp [writeValue, Tree.text, pure, Except.pure]
  | .bool (b := b) => by cases b <;> simp [writeValue, Tree.text, pure, Except.pure]
  | .str => by simp [writeValue, Tree.text, pure, Except.pure]
  | .num h => by simpa [writeValue, Tree.text] using h
  | .arr h => by
    rw [writeValue, bind_ok]
    exact ⟨_, h.text, by simp [Tree.text, pure, Except.pure]⟩
  | .obj h => by
    rw [writeValue, bind_ok]
    exact ⟨_, h.text, by simp [Tree.text, pure, Except.pure]⟩
theorem WritesItems.text :
    WritesItems ds ss → writeItems ds = .ok (textItems ss)
  | .nil => by simp [writeItems, textItems, pure, Except.pure]
  | .cons h .nil => by
    simp only [writeItems, textItems]
    exact h.text
  | .cons h (.cons h' hs) => by
    have hrec := WritesItems.text (.cons h' hs)
    rw [writeItems, textItems_next]
    · simp only [bind_ok, pure_ok]
      exact ⟨_, h.text, _, hrec, rfl⟩
    · simp
theorem WritesMembers.text :
    WritesMembers ds ss → writeMembers ds = .ok (textMembers ss)
  | .nil => by simp [writeMembers, textMembers, pure, Except.pure]
  | .cons h .nil => by
    simp only [writeMembers, textMembers, bind_ok, pure_ok]
    exact ⟨_, h.text, rfl⟩
  | .cons h (.cons (k := k) h' hs) => by
    have hrec := WritesMembers.text (.cons (k := k) h' hs)
    rw [writeMembers, textMembers_next]
    · simp only [bind_ok, pure_ok]
      exact ⟨_, h.text, _, hrec, by simp⟩
    · simp
end

mutual
/-- A value as it is decoded: numbers are literals, strings are valid, and the entries
of objects are sorted. -/
def Decodes : Decoded → Prop
  | .null => True
  | .bool _ => True
  | .num n => IsNumber n
  | .str s => Valid s
  | .arr items => DecodesItems items
  | .obj members => SortedKeys members ∧ DecodesMembers members
def DecodesItems : List Decoded → Prop
  | [] => True
  | d :: ds => Decodes d ∧ DecodesItems ds
def DecodesMembers : List (Bytes × Decoded) → Prop
  | [] => True
  | (k, d) :: ds => (Valid k ∧ Decodes d) ∧ DecodesMembers ds
end

variable {ds : List (Bytes × Decoded)}

theorem decodesMembers_iff : DecodesMembers ds ↔ ∀ p ∈ ds, Valid p.1 ∧ Decodes p.2 := by
  induction ds with
  | nil => simp [DecodesMembers]
  | cons p ds ih => simp [DecodesMembers, ih]

theorem depthMembers_le : depthMembers ds ≤ n ↔ ∀ p ∈ ds, p.2.depth ≤ n := by
  induction ds with
  | nil => simp [depthMembers]
  | cons p ds ih => simp [depthMembers, ih]

mutual
theorem decodes (t : Syntax) (h : t.Wf) : Decodes (decode t) ∧ (decode t).depth ≤ t.depth := by
  match t with
  | .null | .bool _ => simp [decode, Decodes]
  | .num n => simpa [decode, Decodes, Tree.Wf] using h
  | .str s => simp [decode, Decodes, Tree.depth, valid_unquote]
  | .arr items =>
    have := decodesItems h
    simpa [decode, Decodes, Tree.depth] using this
  | .obj members =>
    obtain ⟨hs, hd, hn⟩ := decodesMembers h
    simpa [decode, Tree.depth] using ⟨⟨hs, hd⟩, hn⟩
theorem decodesItems (h : WfItems ts) :
    DecodesItems (decodeItems ts) ∧ depthItems (decodeItems ts) ≤ depthItems ts := by
  match ts with
  | [] => simp [decodeItems, DecodesItems]
  | t :: ts =>
    have h₁ := decodes t h.1
    have h₂ := decodesItems h.2
    simp only [decodeItems, depthItems]
    exact ⟨⟨h₁.1, h₂.1⟩, by omega⟩
theorem decodesMembers (h : WfMembers ms) :
    SortedKeys (decodeMembers ms) ∧ DecodesMembers (decodeMembers ms) ∧
      depthMembers (decodeMembers ms) ≤ depthMembers ms := by
  match ms with
  | [] => simp [decodeMembers, DecodesMembers, SortedKeys]
  | (k, t) :: ms =>
    have h₁ := decodes t h.2.1
    obtain ⟨hs, hd, hn⟩ := decodesMembers h.2.2
    rw [decodesMembers_iff] at hd
    rw [depthMembers_le] at hn
    simp only [decodesMembers_iff, depthMembers_le]
    refine ⟨sortedKeys_insertKey hs, fun p hp => ?_, fun p hp => ?_⟩
    · rcases mem_insertKey hp with rfl | hp
      · exact ⟨valid_unquote k, h₁.1⟩
      · exact hd p hp
    · rcases mem_insertKey hp with rfl | hp
      · exact h₁.2.trans (le_max_left _ _)
      · exact (hn p hp).trans (le_max_right _ _)
end

variable {n m : Bytes}

theorem canonicalNumber_isNumber (hn : IsNumber n) (h : canonicalNumber n = .ok m) :
    ∃ p q : Number, n = p.text ∧ p.Wf ∧ m = q.text ∧ Canonical q ∧ q.value = p.value := by
  obtain ⟨p, hp, rfl⟩ := hn
  obtain ⟨q, hm, hq, hv⟩ := canonicalNumber_spec hp h
  exact ⟨p, q, rfl, hp, hm, hq, hv⟩

def codes (b : Bytes) : List Nat := (runes b).map Char.toNat

variable {b : Bytes}

theorem codes_injective (h : Valid b) (h' : Valid b') (heq : codes b = codes b') :
    b = b' := by
  refine runes_injective h h' ?_
  have hinj : Function.Injective Char.toNat := Function.LeftInverse.injective ofNat_toNat
  exact List.map_injective_iff.2 hinj heq

mutual
def value : Decoded → JsonValue
  | .null => .null
  | .bool b => .bool b
  | .num n => .num ((numberValue n).getD 0)
  | .str s => .str (codes s)
  | .arr items => .arr (valueItems items)
  | .obj members => .obj (lastOf ((valueMembers members).map fun p => (codes p.1, p.2)))
def valueItems : List Decoded → List JsonValue
  | [] => []
  | d :: ds => value d :: valueItems ds
def valueMembers : List (Bytes × Decoded) → List (Bytes × JsonValue)
  | [] => []
  | (k, d) :: ds => (k, value d) :: valueMembers ds
end

theorem valueMembers_eq (ds : List (Bytes × Decoded)) :
    valueMembers ds = ds.map fun p => (p.1, value p.2) := by
  induction ds with
  | nil => simp [valueMembers]
  | cons p ds ih => simp [valueMembers, ih]

theorem numberValue_text {p : Number} (hp : p.Wf) : numberValue p.text = some p.value := by
  have := readNumber_text hp stop_nil
  rw [List.append_nil] at this
  simp [numberValue, this]

theorem numberValue_some (hn : IsNumber n) : numberValue n = some ((numberValue n).getD 0) := by
  obtain ⟨p, hp, rfl⟩ := hn
  rw [numberValue_text hp]
  rfl

theorem lastOf_decodeMembers (hw : WfMembers ms) :
    lastOf ((valueMembers (decodeMembers ms)).map fun p => (codes p.1, p.2)) x =
      lastOf (ms.map fun p => (codes (unquote p.1), value (decode p.2))) x := by
  induction ms with
  | nil => simp [decodeMembers, valueMembers]
  | cons m ms ih =>
    obtain ⟨k, t⟩ := m
    obtain ⟨-, hd, -⟩ := decodesMembers hw.2.2
    rw [decodesMembers_iff] at hd
    have hins := lastOf_insertKey codes value (decode t)
      (fun p hp heq => codes_injective (hd p hp).1 (valid_unquote k) heq) x
    have ih := ih hw.2.2
    simp only [decodeMembers, valueMembers_eq, List.map_map, Function.comp_def] at ih ⊢
    rw [hins, List.map_cons, List.map_cons, lastOf, lastOf, ih]

mutual
theorem denote_decode (hw : t.Wf) (hc : t.Clean) : t.denote = some (value (decode t)) := by
  match t with
  | .null | .bool _ => simp [Tree.denote, decode, value]
  | .num n =>
    simp only [Tree.denote]
    rw [numberValue_some (by simpa [Tree.Wf] using hw)]
    rfl
  | .str s =>
    simp only [Tree.denote, decode, value, hc.codePoints, Option.map_some, codes]
  | .arr items =>
    simp only [Tree.denote, decode, value, denoteItems_decode hw hc, Option.map_some]
  | .obj members =>
    simp only [Tree.denote, denoteMembers_decode hw hc, Option.map_some]
    congr 2
    exact funext fun x => (lastOf_decodeMembers hw).symm
theorem denoteItems_decode (hw : WfItems ts) (hc : CleanItems ts) :
    denoteItems ts = some (valueItems (decodeItems ts)) := by
  match ts with
  | [] => simp [denoteItems, decodeItems, valueItems]
  | t :: ts =>
    simp [denoteItems, decodeItems, valueItems, denote_decode hw.1 hc.1,
      denoteItems_decode hw.2 hc.2]
theorem denoteMembers_decode (hw : WfMembers ms) (hc : CleanMembers ms) :
    denoteMembers ms = some (ms.map fun p => (codes (unquote p.1), value (decode p.2))) := by
  match ms with
  | [] => simp [denoteMembers]
  | (k, t) :: ms =>
    simp [denoteMembers, hc.1.codePoints, denote_decode hw.2.1 hc.2.1,
      denoteMembers_decode hw.2.2 hc.2.2, codes]
end

theorem codePoints_literal (h : Valid b) : codePoints (literal b) = some (codes b) := by
  rw [clean_literal.codePoints, unquote_literal, h]
  rfl

mutual
/-- What is written is well formed, denotes the value and is written again as it is. -/
theorem Writes.written (hd : Decodes d) :
    Writes d s → (s.Wf ∧ s.depth = d.depth) ∧ s.denote = some (value d) ∧ Writes (decode s) s
  | .null => by simp [Tree.Wf, Tree.depth, Tree.denote, value, decode, Writes.null]
  | .bool => by simp [Tree.Wf, Tree.depth, Tree.denote, value, decode, Writes.bool]
  | .str (s := s) => by
    simp only [Decodes] at hd
    simp [Tree.Wf, Tree.depth, isString_literal, Tree.denote, value, codePoints_literal hd, decode,
      unquote_literal, show toValid s = s from hd, Writes.str]
  | .num h => by
    obtain ⟨p, q, rfl, hp, rfl, hq, hv⟩ := canonicalNumber_isNumber (by simpa [Decodes] using hd) h
    refine ⟨by simpa [Tree.Wf, Tree.depth] using ⟨q, hq.toWf, rfl⟩, ?_, ?_⟩
    · simp [Tree.denote, value, numberValue_text hp, numberValue_text hq.toWf, hv]
    · rw [decode]
      exact .num hq.accepted
  | .arr h => by
    obtain ⟨hw, hn, hr⟩ := h.written (by simpa [Decodes] using hd)
    refine ⟨by simpa [Tree.Wf, Tree.depth] using hw, by simp [Tree.denote, value, hn], ?_⟩
    rw [decode]
    exact .arr hr
  | .obj h => by
    simp only [Decodes] at hd
    obtain ⟨hw, hn, hr, -⟩ := h.written hd.1 hd.2
    refine ⟨by simpa [Tree.Wf, Tree.depth] using hw, by simp [Tree.denote, value, hn], ?_⟩
    rw [decode]
    exact .obj hr
theorem WritesItems.written {ds : List Decoded} (hd : DecodesItems ds) :
    WritesItems ds ss → (WfItems ss ∧ depthItems ss = depthItems ds) ∧
      denoteItems ss = some (valueItems ds) ∧ WritesItems (decodeItems ss) ss
  | .nil => by simp [WfItems, depthItems, denoteItems, valueItems, decodeItems, WritesItems.nil]
  | .cons h hs => by
    simp only [DecodesItems] at hd
    obtain ⟨hw, hn, hr⟩ := h.written hd.1
    obtain ⟨hws, hns, hrs⟩ := hs.written hd.2
    simp only [WfItems, depthItems, hw.2, hws.2, denoteItems, valueItems, hn, hns, decodeItems]
    exact ⟨⟨⟨hw.1, hws.1⟩, trivial⟩, rfl, .cons hr hrs⟩
theorem WritesMembers.written {ds : List (Bytes × Decoded)}
    (hsorted : SortedKeys ds) (hd : DecodesMembers ds) : WritesMembers ds ss →
    (WfMembers ss ∧ depthMembers ss = depthMembers ds) ∧
      denoteMembers ss = some ((valueMembers ds).map fun p => (codes p.1, p.2)) ∧
      WritesMembers (decodeMembers ss) ss ∧ (decodeMembers ss).map Prod.fst = ds.map Prod.fst
  | .nil => by
    simp [WfMembers, depthMembers, denoteMembers, valueMembers, decodeMembers, WritesMembers.nil]
  | .cons (k := k) h hs => by
    simp only [DecodesMembers] at hd
    obtain ⟨hlt, hsorted⟩ := List.pairwise_cons.1 hsorted
    obtain ⟨hw, hn, hr⟩ := h.written hd.1.2
    obtain ⟨hws, hns, hrs, hkeys⟩ := hs.written hsorted hd.2
    simp only [WfMembers, depthMembers, hw.2, hws.2, denoteMembers, valueMembers,
      codePoints_literal hd.1.1, hn, hns]
    refine ⟨⟨⟨isString_literal, hw.1, hws.1⟩, trivial⟩, rfl, ?_⟩
    rw [decodeMembers, unquote_literal, show toValid k = k from hd.1.1, insertKey_front]
    · exact ⟨.cons hr hrs, by simp [hkeys]⟩
    · intro p hp
      have hmem := List.mem_map_of_mem (f := Prod.fst) hp
      rw [hkeys] at hmem
      obtain ⟨q, hq, heq⟩ := List.mem_map.1 hmem
      rw [← heq]
      exact hlt q hq
end

theorem canonicalNumber_eq_iff (hm : IsNumber m) (hn : IsNumber n)
    (hu : canonicalNumber m = .ok u) (hv : canonicalNumber n = .ok v) :
    u = v ↔ numberValue m = numberValue n := by
  obtain ⟨p, q, rfl, hp, rfl, hq, hpq⟩ := canonicalNumber_isNumber hm hu
  obtain ⟨p', q', rfl, hp', rfl, hq', hpq'⟩ := canonicalNumber_isNumber hn hv
  rw [numberValue_text hp, numberValue_text hp', ← hpq, ← hpq', Option.some.injEq]
  constructor
  · intro h
    have := numberValue_text hq.toWf
    rw [h, numberValue_text hq'.toWf] at this
    exact (Option.some.inj this).symm
  · intro h
    rw [hq.ext hq' h]

theorem valueMembers_inj (hs : SortedKeys ds) (hs' : SortedKeys ds')
    (hd : DecodesMembers ds) (hd' : DecodesMembers ds')
    (h : lastOf ((valueMembers ds).map fun p => (codes p.1, p.2)) =
      lastOf ((valueMembers ds').map fun p => (codes p.1, p.2))) :
    valueMembers ds = valueMembers ds' := by
  rw [decodesMembers_iff] at hd hd'
  rw [valueMembers_eq, valueMembers_eq] at h ⊢
  have hvalid : ∀ {l : List (Bytes × Decoded)}, (∀ p ∈ l, Valid p.1 ∧ Decodes p.2) →
      ∀ p ∈ l.map (fun p => (p.1, value p.2)), Valid p.1 := by
    intro l hl p hp
    obtain ⟨q, hq, rfl⟩ := List.mem_map.1 hp
    exact (hl q hq).1
  have hsorted : ∀ {l : List (Bytes × Decoded)}, SortedKeys l →
      SortedKeys (l.map fun p => (p.1, value p.2)) := fun hl =>
    List.pairwise_map.2 hl
  refine (hsorted hs).ext (hsorted hs') fun k => ?_
  -- keys that are not valid are in neither list
  by_cases hk : Valid k
  · rw [← lastOf_map fun p hp heq => codes_injective (hvalid hd p hp) hk heq,
      ← lastOf_map fun p hp heq => codes_injective (hvalid hd' p hp) hk heq, h]
  · have hnone : ∀ {l : List (Bytes × Decoded)}, (∀ p ∈ l, Valid p.1 ∧ Decodes p.2) →
        lastOf (l.map fun p => (p.1, value p.2)) k = none := fun hl =>
      lastOf_eq_none fun p hp heq => hk (heq ▸ hvalid hl p hp)
    rw [hnone hd, hnone hd']

mutual
theorem Writes.unique (hd : Decodes d) (hd' : Decodes d')
    (hv : value d = value d') : Writes d s → Writes d' s' → s = s'
  | .null, h' => by cases h' <;> simp [value] at hv ⊢
  | .bool, h' => by cases h' <;> simp_all [value]
  | .str, h' => by
    cases h' <;> simp only [value, reduceCtorEq, JsonValue.str.injEq] at hv
    simp only [Decodes] at hd hd'
    rw [codes_injective hd hd' hv]
  | .num h, h' => by
    cases h' with
    | num h' =>
      simp only [value, JsonValue.num.injEq] at hv
      simp only [Decodes] at hd hd'
      rw [(canonicalNumber_eq_iff hd hd' h h').2 (by
        rw [numberValue_some hd, numberValue_some hd', hv])]
    | _ => simp [value] at hv
  | .arr h, h' => by
    cases h' with
    | arr h' =>
      simp only [value, JsonValue.arr.injEq] at hv
      simp only [Decodes] at hd hd'
      rw [h.unique hd hd' hv h']
    | _ => simp [value] at hv
  | .obj h, h' => by
    cases h' with
    | obj h' =>
      simp only [value, JsonValue.obj.injEq] at hv
      simp only [Decodes] at hd hd'
      rw [h.unique hd.2 hd'.2 (valueMembers_inj hd.1 hd'.1 hd.2 hd'.2 hv) h']
    | _ => simp [value] at hv
theorem WritesItems.unique {ds ds' : List Decoded} (hd : DecodesItems ds)
    (hd' : DecodesItems ds') (hv : valueItems ds = valueItems ds') :
    WritesItems ds ss → WritesItems ds' ss' → ss = ss'
  | .nil, h' => by cases h' <;> simp [valueItems] at hv ⊢
  | .cons h hs, h' => by
    cases h' with
    | nil => simp [valueItems] at hv
    | cons h' hs' =>
      simp only [valueItems, List.cons.injEq] at hv
      simp only [DecodesItems] at hd hd'
      rw [h.unique hd.1 hd'.1 hv.1 h', hs.unique hd.2 hd'.2 hv.2 hs']
theorem WritesMembers.unique {ds ds' : List (Bytes × Decoded)}
    (hd : DecodesMembers ds) (hd' : DecodesMembers ds') (hv : valueMembers ds = valueMembers ds') :
    WritesMembers ds ss → WritesMembers ds' ss' → ss = ss'
  | .nil, h' => by cases h' <;> simp [valueMembers] at hv ⊢
  | .cons h hs, h' => by
    cases h' with
    | nil => simp [valueMembers] at hv
    | cons h' hs' =>
      simp only [valueMembers, List.cons.injEq, Prod.mk.injEq] at hv
      simp only [DecodesMembers] at hd hd'
      rw [hv.1.1, h.unique hd.1.2 hd'.1.2 hv.1.2 h', hs.unique hd.2 hd'.2 hv.2 hs']
end

structure Canonicalizes (raw : Bytes) (t s : Syntax) : Prop where
  parsed : parse raw = some t
  writable : t.Writable
  decoded : Decodes (decode t)
  writes : Writes (decode t) s

theorem canonicalize_ok (h : canonicalize raw = .ok out) :
    ∃ t s, Canonicalizes raw t s ∧ out = s.text := by
  unfold canonicalize at h
  split at h
  · cases h
  · next t ht =>
    have hw := parse_writable ht
    obtain ⟨s, hs, rfl⟩ := writeValue_ok h
    exact ⟨t, s, ⟨ht, hw, (decodes t hw.wf).1, hs⟩, rfl⟩

variable {raw : Bytes} {t s : Syntax}

section
variable (h : Canonicalizes raw t s)
include h

theorem Canonicalizes.reread : s.Writable ∧ parse s.text = some s := by
  obtain ⟨⟨hw, hd⟩, -⟩ := h.writes.written h.decoded
  have hle := (decodes t h.writable.wf).2
  have hdepth := h.writable.depth
  have hs : s.Writable := ⟨hw, by omega⟩
  exact ⟨hs, parse_text hs⟩

theorem Canonicalizes.again : canonicalize s.text = .ok s.text := by
  unfold canonicalize
  rw [h.reread.2]
  exact (h.writes.written h.decoded).2.2.text

theorem Canonicalizes.denote_out : denote s.text = some (value (decode t)) := by
  unfold denote
  rw [h.reread.2]
  exact (h.writes.written h.decoded).2.1

theorem Canonicalizes.denote_in (hc : CleanText raw) : denote raw = some (value (decode t)) := by
  unfold denote
  rw [h.parsed]
  exact denote_decode h.writable.wf (hc t h.parsed)

end

/-- Texts that are accepted. What is written is written again as it is, and numbers are
written alike exactly when they are equal. If no string has a lone surrogate or a byte
that encodes nothing, a text is written as one that denotes its value, and texts are
written alike exactly when they denote one value. -/
theorem canonicalize_by_value {a b x y : Bytes} (ha : canonicalize a = .ok x)
    (hb : canonicalize b = .ok y) :
    canonicalize x = .ok x ∧
    (∀ m n u v, IsNumber m → IsNumber n → canonicalNumber m = .ok u → canonicalNumber n = .ok v →
      (u = v ↔ numberValue m = numberValue n)) ∧
    (CleanText a → (denote a).isSome ∧ denote x = denote a) ∧
    (CleanText a → CleanText b → (x = y ↔ denote a = denote b)) := by
  obtain ⟨t, s, h, rfl⟩ := canonicalize_ok ha
  obtain ⟨t', s', h', rfl⟩ := canonicalize_ok hb
  refine ⟨h.again, fun _ _ _ _ => canonicalNumber_eq_iff, fun hc => ?_, fun hc hc' => ?_⟩
  · rw [h.denote_in hc, h.denote_out]
    exact ⟨rfl, rfl⟩
  · rw [h.denote_in hc, h'.denote_in hc', Option.some.injEq]
    constructor
    · intro heq
      have := h.denote_out
      rw [heq, h'.denote_out] at this
      exact (Option.some.inj this).symm
    · intro heq
      rw [h.writes.unique h.decoded h'.decoded heq h'.writes]

theorem denote_quoted (h : (scanString (lit ++ [quoteMark])) = some (lit, [])) :
    denote (quoted lit) = (codePoints lit).map .str := by
  have hs : Tree.Writable (.str lit) :=
    ⟨by simpa [Tree.Wf] using (scanString_sound h).2, by simp [Tree.depth]⟩
  have := parse_text hs
  rw [Tree.text] at this
  simp [denote, this, Tree.denote]

/-- Two lone surrogates are different code points and are written alike. -/
theorem surrogates_written_alike :
    canonicalize (quoted (bytesOf "\\ud800")) = .ok (bytesOf "\"�\"") ∧
    canonicalize (quoted (bytesOf "\\ud801")) = .ok (bytesOf "\"�\"") ∧
    denote (quoted (bytesOf "\\ud800")) ≠ denote (quoted (bytesOf "\\ud801")) := by
  have h₀ : codePoints (bytesOf "\\ud800") = some [0xD800] := by decide +kernel
  have h₁ : codePoints (bytesOf "\\ud801") = some [0xD801] := by decide +kernel
  refine ⟨by decide +kernel, by decide +kernel, ?_⟩
  rw [denote_quoted (by decide +kernel), denote_quoted (by decide +kernel), h₀, h₁]
  simp

theorem canonicalize_by_value_reordered :
    denote (bytesOf " \x7b\"b\":1.50,\"a\":\"\\u0041\"\x7d") =
      denote (bytesOf "\x7b\"a\":\"A\",\"b\":15e-1\x7d") :=
  ((canonicalize_by_value (x := bytesOf "\x7b\"a\":\"A\",\"b\":1.5\x7d")
    (y := bytesOf "\x7b\"a\":\"A\",\"b\":1.5\x7d") (by decide +kernel) (by decide +kernel)).2.2.2
    (by decide +kernel) (by decide +kernel)).1 rfl

end Adro.Encoding
