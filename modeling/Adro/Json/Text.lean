import Adro.Json.Literal

/-!
# Reading what is written

The trees that a text can have: their literals are literals and their depth is
bounded. Reading the text of such a tree gives the tree back, so the text of a
tree determines it; and every tree that is read is one of them.
-/

namespace Adro.Json

open Adro.Go

mutual
def Tree.Wf : Syntax → Prop
  | .null => True
  | .bool _ => True
  | .num n => IsNumber n
  | .str s => IsString s
  | .arr items => WfItems items
  | .obj members => WfMembers members
def WfItems : List Syntax → Prop
  | [] => True
  | t :: ts => t.Wf ∧ WfItems ts
def WfMembers : List (Bytes × Syntax) → Prop
  | [] => True
  | (k, t) :: ms => IsString k ∧ t.Wf ∧ WfMembers ms
end

mutual
def Tree.depth : Tree ν σ → Nat
  | .null => 0
  | .bool _ => 0
  | .num _ => 0
  | .str _ => 0
  | .arr items => depthItems items + 1
  | .obj members => depthMembers members + 1
def depthItems : List (Tree ν σ) → Nat
  | [] => 0
  | t :: ts => max t.depth (depthItems ts)
def depthMembers : List (σ × Tree ν σ) → Nat
  | [] => 0
  | (_, t) :: ms => max t.depth (depthMembers ms)
end

variable {b rest : Bytes} {t : Syntax} {c : UInt8}

theorem skipSpace_cons (h : isSpaceByte c = false) : skipSpace (c :: rest) = c :: rest := by
  simp [skipSpace, h]

theorem after_append (word rest : Bytes) : after word (word ++ rest) = some rest := by
  simp [after]

theorem after_ne (h : (d == c) = false) : after [d] (c :: rest) = none := by
  simp [after, List.isPrefixOf, h]

def StartsValue (c : UInt8) : Prop := isSpaceByte c = false ∧ (closeBracket == c) = false

theorem isNumber_start (h : IsNumber n) :
    ∃ c n', n = c :: n' ∧ StartsValue c ∧ (c == openBracket) = false ∧ (c == openBrace) = false ∧
      (c == quoteMark) = false ∧ (c == 0x74) = false ∧ (c == 0x66) = false ∧
      (c == 0x6E) = false := by
  obtain ⟨c, n', rfl, hc⟩ := h.head
  refine ⟨c, n', rfl, ?_⟩
  rcases hc with rfl | hc
  · exact ⟨⟨rfl, rfl⟩, rfl, rfl, rfl, rfl, rfl, rfl⟩
  · refine ⟨⟨?_, ?_⟩, ?_⟩
    · simp [isSpaceByte, isDigit_ne hc (d := 0x20) rfl, isDigit_ne hc (d := 0x09) rfl,
        isDigit_ne hc (d := 0x0D) rfl, isDigit_ne hc (d := 0x0A) rfl]
    · rw [BEq.comm]
      exact isDigit_ne hc rfl
    · exact ⟨isDigit_ne hc rfl, isDigit_ne hc rfl, isDigit_ne hc rfl, isDigit_ne hc rfl,
        isDigit_ne hc rfl, isDigit_ne hc rfl⟩

theorem text_start (h : t.Wf) : ∃ c b, t.text = c :: b ∧ StartsValue c := by
  cases t with
  | null => exact ⟨_, _, rfl, rfl, rfl⟩
  | bool b => cases b <;> exact ⟨_, _, rfl, rfl, rfl⟩
  | num n =>
    obtain ⟨c, n', rfl, hc, -⟩ := isNumber_start (by simpa [Tree.Wf] using h)
    exact ⟨c, n', rfl, hc⟩
  | str s => exact ⟨quoteMark, _, rfl, rfl, rfl⟩
  | arr items => exact ⟨openBracket, _, by simp [Tree.text]; rfl, rfl, rfl⟩
  | obj members => exact ⟨openBrace, _, by simp [Tree.text]; rfl, rfl, rfl⟩

theorem stop_cons (h : isNumberByte c = false) : Stop (c :: rest) := fun d hd => by
  cases hd
  exact h

theorem textItems_start (h : t.Wf) : ∃ c b, textItems (t :: ts) = c :: b ∧ StartsValue c := by
  obtain ⟨c, b, hb, hc⟩ := text_start h
  cases ts with
  | nil => exact ⟨c, b, by simp [textItems, hb], hc⟩
  | cons t' ts => exact ⟨c, b ++ comma :: textItems (t' :: ts), by simp [textItems, hb], hc⟩

theorem textMembers_start (m : Bytes × Syntax) (ms : List (Bytes × Syntax)) :
    ∃ b, textMembers (m :: ms) = quoteMark :: b := by
  cases ms with
  | nil => exact ⟨_, by simp [textMembers]; rfl⟩
  | cons m ms => exact ⟨_, by simp [textMembers]; rfl⟩

theorem StartsValue.not_close (h : StartsValue c) :
    after [closeBracket] (skipSpace (c :: rest)) = none := by
  rw [skipSpace_cons h.1, after_ne h.2]

/-- The member that is read for a key and a value without space. -/
def Member.of (m : Bytes × Syntax) : Member := ⟨m.1, m.2, m.2.text⟩

@[simp] theorem Member.of_pair (ms : List (Bytes × Syntax)) :
    (ms.map Member.of).map (fun m => (m.key, m.value)) = ms := by
  rw [List.map_map]
  exact List.map_id ms

theorem quoted_append (h : IsString k) :
    (after [quoteMark] (skipSpace (quoted k ++ rest))).bind scanString = some (k, rest) := by
  have hs : quoted k ++ rest = quoteMark :: (k ++ quoteMark :: rest) := by simp [quoted]
  rw [hs]
  exact (congrArg (·.bind scanString) (after_append [quoteMark] _)).trans (h rest)

theorem textItems_next : textItems (t :: t' :: ts) = t.text ++ comma :: textItems (t' :: ts) := by
  rw [textItems]
  simp

theorem textMembers_next :
    textMembers ((k, t) :: m :: ms) = quoted k ++
      colon :: (t.text ++ comma :: textMembers (m :: ms)) := by
  rw [textMembers]
  · simp
  · simp

variable {fuel depth : Nat}

theorem parseMembers_member (hk : IsString k) (hskip : skipSpace (v ++ r) = v ++ r)
    (hval : parseValue fuel depth (v ++ r) = some (t, r)) (hr : skipSpace r = c :: rest) :
    parseMembers (fuel + 1) depth (quoted k ++ colon :: (v ++ r)) =
      if c == comma then
        (parseMembers fuel depth rest).map fun (members, rest) => (⟨k, t, v⟩ :: members, rest)
      else if c == closeBrace then some ([⟨k, t, v⟩], rest)
      else none := by
  rw [parseMembers, quoted_append hk]
  simp only [skipSpace_cons (c := colon) rfl]
  rw [show after [colon] (colon :: (v ++ r)) = some (v ++ r) from after_append [colon] _]
  simp only [hskip, hval, hr, List.length_append, Nat.add_sub_cancel, List.take_left]

theorem text_pos (h : t.Wf) : 1 ≤ t.text.length := by
  obtain ⟨c, b, hb, -⟩ := text_start h
  simp [hb]

mutual
theorem parseValue_text (t : Syntax) (fuel depth : Nat) (rest : Bytes) (hw : t.Wf)
    (hd : depth + t.depth ≤ maxNestingDepth) (hf : t.text.length ≤ fuel) (hr : Stop rest) :
    parseValue fuel depth (t.text ++ rest) = some (t, rest) := by
  have hpos := text_pos hw
  obtain ⟨fuel, rfl⟩ : ∃ f, fuel = f + 1 := ⟨fuel - 1, by omega⟩
  cases t with
  | null => rfl
  | bool v => cases v <;> rfl
  | num n =>
    have hn : IsNumber n := by simpa [Tree.Wf] using hw
    have hscan := hn.scan hr
    obtain ⟨c, n', rfl, hc, h₁, h₂, h₃, h₄, h₅, h₆⟩ := isNumber_start hn
    simp only [Tree.text, List.cons_append] at hscan ⊢
    rw [parseValue]
    simp [skipSpace_cons hc.1, h₁, h₂, h₃, h₄, h₅, h₆, hscan]
  | str s =>
    have hs : IsString s := by simpa [Tree.Wf] using hw
    simp only [Tree.text, quoted, List.append_assoc]
    exact congrArg (Option.map _) (hs rest)
  | arr items =>
    simp only [Tree.depth] at hd
    simp only [Tree.text, List.length_append, List.length_cons] at hf
    simp only [Tree.text, List.cons_append, List.append_assoc, List.nil_append]
    rw [parseValue, skipSpace_cons rfl]
    simp only [beq_self_eq_true, if_true, if_neg (show ¬ maxNestingDepth ≤ depth by omega)]
    cases items with
    | nil => rfl
    | cons t ts =>
      have hrec := parseItems_text (t :: ts) fuel (depth + 1) rest (by simp) hw
        (by omega) (by omega)
      obtain ⟨c, b, hb, hc⟩ := textItems_start hw.1
      rw [hb] at hrec ⊢
      simp only [List.cons_append] at hrec ⊢
      rw [hc.not_close]
      simp only [hrec, Option.map_some]
  | obj members =>
    simp only [Tree.depth] at hd
    simp only [Tree.text, List.length_append, List.length_cons] at hf
    simp only [Tree.text, List.cons_append, List.append_assoc, List.nil_append]
    rw [parseValue, skipSpace_cons rfl]
    simp only [if_neg (show ¬ maxNestingDepth ≤ depth by omega)]
    cases members with
    | nil => rfl
    | cons m ms =>
      have hrec := parseMembers_text (m :: ms) fuel (depth + 1) rest (by simp) hw (by omega)
        (by omega)
      obtain ⟨b, hb⟩ := textMembers_start m ms
      rw [hb] at hrec ⊢
      simp only [hrec, Option.map_some, Member.of_pair]
      rfl
theorem parseItems_text (ts : List Syntax) (fuel depth : Nat) (rest : Bytes) (hne : ts ≠ [])
    (hw : WfItems ts) (hd : depth + depthItems ts ≤ maxNestingDepth)
    (hf : (textItems ts).length < fuel) :
    parseItems fuel depth (textItems ts ++ closeBracket :: rest) = some (ts, rest) := by
  cases ts with
  | nil => exact absurd rfl hne
  | cons t ts =>
    simp only [depthItems] at hd
    obtain ⟨fuel, rfl⟩ : ∃ f, fuel = f + 1 := ⟨fuel - 1, by omega⟩
    cases ts with
    | nil =>
      rw [textItems] at hf
      rw [parseItems, textItems, parseValue_text t fuel depth (closeBracket :: rest) hw.1
        (by omega) (by omega) (stop_cons rfl)]
      rfl
    | cons t' ts =>
      rw [textItems_next, List.length_append, List.length_cons] at hf
      have hrec := parseItems_text (t' :: ts) fuel depth rest (by simp) hw.2 (by omega) (by omega)
      have hval := parseValue_text t fuel depth
        (comma :: (textItems (t' :: ts) ++ closeBracket :: rest))
        hw.1 (by omega) (by omega) (stop_cons rfl)
      rw [parseItems, textItems_next, List.append_assoc, List.cons_append]
      simp only [hval, skipSpace_cons (c := comma) rfl, beq_self_eq_true, if_true, hrec,
        Option.map_some]
theorem parseMembers_text (ms : List (Bytes × Syntax)) (fuel depth : Nat) (rest : Bytes)
    (hne : ms ≠ []) (hw : WfMembers ms) (hd : depth + depthMembers ms ≤ maxNestingDepth)
    (hf : (textMembers ms).length < fuel) :
    parseMembers fuel depth (textMembers ms ++ closeBrace :: rest) =
      some (ms.map Member.of, rest) := by
  match ms with
  | [] => exact absurd rfl hne
  | (k, t) :: ms =>
    simp only [depthMembers] at hd
    obtain ⟨fuel, rfl⟩ : ∃ f, fuel = f + 1 := ⟨fuel - 1, by omega⟩
    obtain ⟨c, b, hb, hc⟩ := text_start hw.2.1
    have hskip : ∀ r, skipSpace (t.text ++ r) = t.text ++ r := fun r => by
      rw [hb, List.cons_append, skipSpace_cons hc.1]
    cases ms with
    | nil =>
      simp only [textMembers, List.length_append, List.length_cons] at hf
      have hval := parseValue_text t fuel depth (closeBrace :: rest) hw.2.1 (by omega) (by omega)
        (stop_cons rfl)
      rw [textMembers, List.append_assoc, List.cons_append,
        parseMembers_member hw.1 (hskip _) hval (skipSpace_cons rfl)]
      rfl
    | cons m ms =>
      simp only [textMembers_next, List.length_append, List.length_cons] at hf
      have hrec := parseMembers_text (m :: ms) fuel depth rest (by simp) hw.2.2 (by omega)
        (by omega)
      have hval := parseValue_text t fuel depth
        (comma :: (textMembers (m :: ms) ++ closeBrace :: rest))
        hw.2.1 (by omega) (by omega) (stop_cons rfl)
      have htext : textMembers ((k, t) :: m :: ms) ++ closeBrace :: rest = quoted k ++ colon ::
          (t.text ++ comma :: (textMembers (m :: ms) ++ closeBrace :: rest)) := by
        rw [textMembers_next]
        simp
      rw [htext, parseMembers_member hw.1 (hskip _) hval (skipSpace_cons rfl)]
      simp only [hrec]
      rfl
end

structure Tree.Writable (t : Syntax) : Prop where
  wf : t.Wf
  depth : t.depth ≤ maxNestingDepth

theorem parse_text (h : t.Writable) : parse t.text = some t := by
  have hparse := parseValue_text t (2 * t.text.length + 2) 0 [] h.wf (by have := h.depth; omega)
    (by omega) stop_nil
  rw [List.append_nil] at hparse
  simp [parse, hparse, skipSpace]

theorem text_injective (h : t.Writable) (h' : t'.Writable) (heq : t.text = t'.text) : t = t' := by
  have := parse_text h
  rw [heq, parse_text h'] at this
  exact (Option.some.inj this).symm

/-- Reading the text of an object gives its members with the texts of their values. -/
theorem parseObject_text (h : Tree.Writable (.obj ms)) :
    parseObject (Tree.text (.obj ms)) = some (ms.map Member.of) := by
  obtain ⟨hw, hd⟩ := h
  simp only [Tree.depth] at hd
  have hopen : after [openBrace] (skipSpace (Tree.text (.obj ms))) =
      some (textMembers ms ++ [closeBrace]) := by
    exact after_append [openBrace] _
  simp only [parseObject, hopen]
  cases ms with
  | nil => rfl
  | cons m ms =>
    have hrec := parseMembers_text (m :: ms) (2 * (Tree.text (.obj (m :: ms))).length + 1) 1 []
      (by simp) hw (by omega)
      (by simp only [Tree.text, List.length_append, List.length_cons]; omega)
    obtain ⟨b, hb⟩ := textMembers_start m ms
    rw [hb] at hrec ⊢
    simp only [List.cons_append, skipSpace_cons (c := quoteMark) rfl,
      after_ne (d := closeBrace) (c := quoteMark) rfl] at hrec ⊢
    simp [hrec, skipSpace]

theorem after_some (h : after word b = some r) : b = word ++ r := by
  unfold after at h
  split at h
  · next hp =>
    cases h
    rw [List.isPrefixOf_iff_prefix] at hp
    obtain ⟨r, rfl⟩ := hp
    simp
  · cases h

/-- The functions with this fuel read what the grammar derives. -/
structure FollowsGrammar (fuel : Nat) : Prop where
  value : ∀ {depth b t rest}, parseValue fuel depth b = some (t, rest) → ReadsValue depth b t rest
  items : ∀ {depth b ts rest}, parseItems fuel depth b = some (ts, rest) →
    ReadsItems depth b ts rest
  members : ∀ {depth b ms rest}, parseMembers fuel depth b = some (ms, rest) →
    ReadsMembers depth b ms rest

theorem map_fst_some {f : α → β} {r : γ}
    (h : x.map (fun p => (f p.1, p.2)) = some (y, r)) : ∃ a, x = some (a, r) ∧ y = f a := by
  rw [Option.map_eq_some_iff] at h
  obtain ⟨⟨a, r'⟩, hx, heq⟩ := h
  cases heq
  exact ⟨a, hx, rfl⟩

theorem word_some (hc : (c == d) = true) (hb : skipSpace b = c :: r)
    (h : (after word r).map (fun rest => (v, rest)) = some (t, rest)) :
    v = t ∧ skipSpace b = (d :: word) ++ rest := by
  rw [Option.map_eq_some_iff] at h
  obtain ⟨r', hr, heq⟩ := h
  cases heq
  rw [beq_iff_eq] at hc
  exact ⟨rfl, by rw [hb, hc, after_some hr]; rfl⟩

theorem parseValue_grammar (ih : FollowsGrammar fuel)
    (h : parseValue (fuel + 1) depth b = some (t, rest)) : ReadsValue depth b t rest := by
  rw [parseValue] at h
  split at h
  · cases h
  next c r hc =>
  split at h
  · next hb =>
    rw [beq_iff_eq] at hb
    subst hb
    split at h
    · cases h
    split at h
    · next hclose =>
      cases h
      exact .emptyArr hc (by omega) (after_some hclose)
    · obtain ⟨ts, hts, rfl⟩ := map_fst_some h
      exact .arr hc (by omega) (ih.items hts)
  split at h
  · next hb =>
    rw [beq_iff_eq] at hb
    subst hb
    split at h
    · cases h
    split at h
    · next hclose =>
      cases h
      exact .emptyObj hc (by omega) (after_some hclose)
    · obtain ⟨ms, hms, rfl⟩ := map_fst_some
        (f := fun ms : List Member => Tree.obj (ms.map Member.pair)) h
      exact .obj hc (by omega) (ih.members hms)
  split at h
  · next hb =>
    rw [beq_iff_eq] at hb
    obtain ⟨s, hs, rfl⟩ := map_fst_some h
    exact .str (by rw [hc, hb]) hs
  split at h
  · next hb =>
    obtain ⟨rfl, hword⟩ := word_some hb hc h
    exact .true hword
  split at h
  · next hb =>
    obtain ⟨rfl, hword⟩ := word_some hb hc h
    exact .false hword
  split at h
  · next hb =>
    obtain ⟨rfl, hword⟩ := word_some hb hc h
    exact .null hword
  · obtain ⟨n, hn, rfl⟩ := map_fst_some h
    exact .num (by rw [hc, hn])

theorem parseItems_grammar (ih : FollowsGrammar fuel)
    (h : parseItems (fuel + 1) depth b = some (ts, rest)) : ReadsItems depth b ts rest := by
  rw [parseItems] at h
  split at h
  · cases h
  next t r ht =>
  split at h
  · cases h
  next c r' hc =>
  split at h
  · next hb =>
    rw [beq_iff_eq] at hb
    obtain ⟨ts, hts, rfl⟩ := map_fst_some h
    exact .more (ih.value ht) (by rw [hc, hb]) (ih.items hts)
  split at h
  · next hb =>
    rw [beq_iff_eq] at hb
    cases h
    exact .last (ih.value ht) (by rw [hc, hb])
  · cases h

theorem parseMembers_grammar (ih : FollowsGrammar fuel)
    (h : parseMembers (fuel + 1) depth b = some (ms, rest)) : ReadsMembers depth b ms rest := by
  rw [parseMembers] at h
  split at h
  · cases h
  next k r₂ hk =>
  rw [Option.bind_eq_some_iff] at hk
  obtain ⟨r₁, hq, hk⟩ := hk
  split at h
  · cases h
  next r₃ hcolon =>
  split at h
  · cases h
  next t r₄ ht =>
  split at h
  · cases h
  next c r₅ hc =>
  split at h
  · next hb =>
    rw [beq_iff_eq] at hb
    obtain ⟨ms, hms, rfl⟩ := map_fst_some h
    exact .more (after_some hq) hk (after_some hcolon) (ih.value ht) (by rw [hc, hb])
      (ih.members hms)
  split at h
  · next hb =>
    rw [beq_iff_eq] at hb
    cases h
    exact .last (after_some hq) hk (after_some hcolon) (ih.value ht) (by rw [hc, hb])
  · cases h

theorem followsGrammar : FollowsGrammar fuel := by
  induction fuel with
  | zero => exact ⟨fun h => (nomatch h), fun h => (nomatch h), fun h => (nomatch h)⟩
  | succ fuel ih => exact ⟨parseValue_grammar ih, parseItems_grammar ih, parseMembers_grammar ih⟩

mutual
theorem ReadsValue.wf {depth : Nat} {b rest : Bytes} {t : Syntax} (hd : depth ≤ maxNestingDepth) :
    ReadsValue depth b t rest → t.Wf ∧ depth + t.depth ≤ maxNestingDepth
  | .null _ | .true _ | .false _ => by simpa [Tree.Wf, Tree.depth] using hd
  | .num h => by
    have hn := (scanNumber_sound h).2
    simpa [Tree.Wf, Tree.depth, hn] using hd
  | .str _ h => by
    have hs := (scanString_sound h).2
    simpa [Tree.Wf, Tree.depth, hs] using hd
  | .arr _ hlt h => by
    have := ReadsItems.wf hlt h
    simp only [Tree.Wf, Tree.depth]
    exact ⟨this.1, by omega⟩
  | .obj _ hlt h => by
    have := ReadsMembers.wf hlt h
    simp only [Tree.Wf, Tree.depth]
    exact ⟨this.1, by omega⟩
  | .emptyArr _ hlt _ | .emptyObj _ hlt _ => by
    simpa [Tree.Wf, Tree.depth, depthItems, depthMembers, WfItems, WfMembers] using
      Nat.succ_le_of_lt hlt
theorem ReadsItems.wf {depth : Nat} {b rest : Bytes} (hd : depth ≤ maxNestingDepth) :
    ReadsItems depth b ts rest → WfItems ts ∧ depth + depthItems ts ≤ maxNestingDepth
  | .last h _ => by
    have := ReadsValue.wf hd h
    simpa [WfItems, depthItems] using this
  | .more h _ hs => by
    have h₁ := ReadsValue.wf hd h
    have h₂ := ReadsItems.wf hd hs
    simp only [WfItems, depthItems]
    exact ⟨⟨h₁.1, h₂.1⟩, by omega⟩
theorem ReadsMembers.wf {depth : Nat} {b rest : Bytes} (hd : depth ≤ maxNestingDepth) :
    ReadsMembers depth b ms rest → WfMembers (ms.map Member.pair) ∧
      depth + depthMembers (ms.map Member.pair) ≤ maxNestingDepth
  | .last _ hk _ h _ => by
    have h₁ := ReadsValue.wf hd h
    have hk := (scanString_sound hk).2
    simp only [List.map_cons, List.map_nil, Member.pair, WfMembers, depthMembers]
    exact ⟨⟨hk, h₁.1, trivial⟩, by omega⟩
  | .more _ hk _ h _ hs => by
    have h₁ := ReadsValue.wf hd h
    have h₂ := ReadsMembers.wf hd hs
    have hk := (scanString_sound hk).2
    simp only [List.map_cons, Member.pair, WfMembers, depthMembers] at h₂ ⊢
    exact ⟨⟨hk, h₁.1, h₂.1⟩, by omega⟩
end

theorem parse_writable (h : parse b = some t) : t.Writable := by
  unfold parse at h
  split at h
  · next t' rest hv =>
    split at h
    · cases h
      obtain ⟨hw, hd⟩ := ReadsValue.wf (Nat.zero_le _) (followsGrammar.value hv)
      exact ⟨hw, by simpa using hd⟩
    · cases h
  · cases h

end Adro.Json
