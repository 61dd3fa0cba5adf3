import Mathlib.Data.List.Find
import ScriptTree.Proofs.Scan.Comments

/-! # Words

A text may be written as words, with blanks between those neighbours that would run into each other. Such a text is
scanned word by word. -/

namespace ScriptTree

namespace Source

variable {s : Source} {i n x : Nat} {t : Text}

theorem at?_of_drop (h : s.chars.toList.drop i = x :: t) : s.at? i = some x := by
  have hx : s.chars[i]? = some x := by rw [← Array.getElem?_toList, ← List.head?_drop, h]; rfl
  rw [at?_of_lt (lt_length_of_getElem? hx), hx]

theorem drop_succ_of_drop (h : s.chars.toList.drop i = x :: t) : s.chars.toList.drop (i + 1) = t := by
  rw [← List.tail_drop, h]
  rfl

theorem length_of_drop (h : s.chars.toList.drop i = t) : s.length - i = t.length := by
  rw [← h]
  simp [length]

theorem slice_of_drop (h : s.chars.toList.drop i = t) (hn : n ≤ t.length) : s.slice i (i + n) = t.take n := by
  have hl := length_of_drop h
  unfold slice
  rw [Array.toList_extract, List.extract_eq_take_drop, h, Nat.add_sub_cancel_left]
  by_cases hi : i ≤ s.length
  · simp [show ¬ s.length < i + n by omega]
  · simp [hi]

/-- The end mark is part of no word. -/
theorem hasAt_eq {w : String} (h : s.chars.toList.drop i = t) (hw : 0 ∉ Text.ofString w) :
    s.hasAt i w = (Text.ofString w).isPrefixOf t := by
  have hlen : w.length = (Text.ofString w).length := by simp [Text.ofString, String.length_toList]
  rw [Bool.eq_iff_iff, List.isPrefixOf_iff_prefix, List.prefix_iff_eq_take, hasAt, beq_iff_eq, eq_comm, hlen]
  by_cases hn : (Text.ofString w).length ≤ t.length
  · rw [slice_of_drop h hn]
  · have hl := length_of_drop h
    refine iff_of_false (fun he => ?_) fun he => ?_
    · have := congrArg List.length he
      unfold slice at he
      split at he
      · exact hw (by rw [he]; simp)
      · rw [he, List.append_nil, Array.length_toList, Array.size_extract] at hn
        unfold length at hl
        omega
    · have := congrArg List.length he
      rw [List.length_take] at this
      omega

end Source

namespace Scan

variable {n x : Nat} {p w rest t : Text} {st : Settings} {c : Cursor} {m : String}

def Apart (rest : Text) : Prop := ∀ x ∈ rest.head?, x = 0x20

theorem prefix_append_iff (hr : Apart rest) (hp : 0x20 ∉ p) : p <+: w ++ rest ↔ p <+: w := by
  refine ⟨fun h => ?_, fun h => h.trans (List.prefix_append w rest)⟩
  by_cases hl : p.length ≤ w.length
  · exact List.prefix_of_prefix_length_le h (List.prefix_append w rest) hl
  · obtain ⟨u, rfl⟩ := List.prefix_of_prefix_length_le (List.prefix_append w rest) h (by omega)
    rw [List.prefix_append_right_inj] at h
    cases u with
    | nil => simp
    | cons x u =>
      obtain ⟨v, rfl⟩ := h
      exact absurd (hr x rfl) (by rintro rfl; simp at hp)

/-! ## White space -/

def commentMarks : List String := ["//", "/*", "-->", "<!--"]

/-- A text that starts neither with a blank nor with a comment. -/
def Solid (w : Text) : Prop :=
  w.head?.any (fun x => !Text.isWhiteSpace x && !Text.isLineTerminator x) = true ∧
    ∀ m ∈ commentMarks, ¬ Text.ofString m <+: w

theorem blanks_stop {lineHead : Bool} (h : st.source.chars.toList.drop c.index = t) (ht : Solid t) :
    Returns (blanks n lineHead) st c [] c := by
  obtain ⟨hx, hm⟩ := ht
  simp only [commentMarks, List.forall_mem_cons] at hm
  obtain ⟨x, u, rfl⟩ : ∃ x u, t = x :: u := by cases t <;> simp_all
  obtain ⟨hb, hl⟩ : Text.isWhiteSpace x = false ∧ Text.isLineTerminator x = false := by simpa using hx
  have hx := Source.at?_of_drop h
  have hu := Source.drop_succ_of_drop h
  have hs m : 0 ∉ Text.ofString m → ¬ x :: Text.ofString m <+: x :: u → st.source.hasAt (c.index + 1) m = false := by
    intro h0 hn
    rw [Source.hasAt_eq hu h0, Bool.eq_false_iff, ne_eq, List.isPrefixOf_iff_prefix]
    exact fun h => hn (List.cons_prefix_cons.mpr ⟨rfl, h⟩)
  have hd y : y ≠ 0 → ¬ [x, y] <+: x :: u → st.source.at? (c.index + 1) ≠ some y := by
    intro h0 hn hy
    have hget := Source.getElem?_of_at?_ne hy h0
    rw [← Array.getElem?_toList, ← List.head?_drop, hu] at hget
    exact hn (List.cons_prefix_cons.mpr ⟨rfl, by cases u <;> simp_all⟩)
  refine blanks_settled fun y hy => ?_
  obtain rfl : x = y := Option.some.inj (hx.symm.trans ((Source.at?_of_lt (Source.lt_length_of_getElem? hy)).trans hy))
  refine ⟨by simp [Text.IsGap, hb, hl], ?_, ?_, ?_⟩
  · rintro rfl
    exact ⟨hd _ (by decide) hm.1, hd _ (by decide) hm.2.1⟩
  · rintro - rfl
    exact hs "->" (by decide) hm.2.2.1
  · rintro - rfl
    exact hs "!--" (by decide) hm.2.2.2.1

theorem Solid.append (hw : Solid w) (hr : ∀ m ∈ commentMarks, Text.ofString m <+: w ++ rest → Text.ofString m <+: w) :
    Solid (w ++ rest) := by
  obtain ⟨x, t, rfl⟩ : ∃ x t, w = x :: t := by cases w <;> simp_all [Solid]
  exact ⟨hw.1, fun m hm h => hw.2 m hm (hr m hm h)⟩

theorem head?_of_leads (h : p <+: w) (hp : p ≠ []) : w.head? = p.head? := by
  obtain ⟨u, rfl⟩ := h
  cases p with
  | nil => exact absurd rfl hp
  | cons x p => rfl

theorem solid_cons (hx : Text.isWhiteSpace x = false ∧ Text.isLineTerminator x = false)
    (hm : ∀ m ∈ commentMarks, (Text.ofString m).head? ≠ some x) : Solid (x :: t) := by
  have hne : ∀ m ∈ commentMarks, Text.ofString m ≠ [] := by decide
  exact ⟨by simp [hx], fun m h hp => hm m h (head?_of_leads hp (hne m h)).symm⟩

/-- Blanks before a solid text are passed over. -/
theorem blanks_pass {k : Nat} {b : Bool} (hk : k ≤ n)
    (h : st.source.chars.toList.drop c.index = List.replicate k 0x20 ++ t) (ht : Solid t) :
    Returns (blanks n b) st c [] { c with index := c.index + k } := by
  induction k generalizing c n with
  | zero => exact blanks_stop h ht
  | succ k ih =>
    obtain ⟨n, rfl⟩ : ∃ m, n = m + 1 := ⟨n - 1, by omega⟩
    have hx := Source.at?_of_drop h
    have hl := Source.length_of_drop h
    have hc : ¬ st.source.length ≤ c.index := by simp [List.replicate_succ] at hl; omega
    have := ih (c := { c with index := c.index + 1 }) (n := n) (by omega) (Source.drop_succ_of_drop h)
    have hb : Text.isWhiteSpace 0x20 = true := rfl
    simpa [blanks, hx, hb, hc, and_assoc, Nat.add_assoc, Nat.add_comm 1] using this

theorem comments_pass {k : Nat} (h : st.source.chars.toList.drop c.index = List.replicate k 0x20 ++ t)
    (ht : Solid t) : Returns comments st c [] { c with index := c.index + k } := by
  have hl := Source.length_of_drop h
  have := blanks_pass (n := st.source.length - c.index) (b := c.index == 0) (by simp [hl]) h ht
  simp only [comments, returns_bind, returns_ahead, returns_index, returns_read, returns_pure, and_assoc]
  exact ⟨_, _, rfl, rfl, _, _, rfl, rfl, _, _, this, _, _, rfl, rfl, by simp, rfl⟩

/-! ## Words -/

/-- Wherever what comes after the text fits, it is scanned as the lexeme. -/
def Writes (fits : Text → Prop) (w : Text) (l : Lexeme) : Prop :=
  ∀ {st : Settings} {c : Cursor} {rest : Text}, .substitution ∉ c.openers →
    st.source.chars.toList.drop c.index = w ++ rest → fits rest →
    ∃ os, .substitution ∉ os ∧ Returns next st c ⟨l, c.line, c.lineStart, c.index, c.index + w.length⟩
      { c with index := c.index + w.length, openers := os }

/-- A word with the lexeme that it is scanned as, and what may come after it. -/
structure Word where
  text : Text
  lexeme : Lexeme
  fits : Text → Prop
  apart : ∀ {rest}, Apart rest → fits rest
  solid : ∀ {rest}, fits rest → Solid (text ++ rest)
  writes : Writes fits text lexeme

/-- A name that is written as it is, without escapes. -/
structure Unescaped (w : Text) : Prop where
  start : ∃ x t, w = x :: t ∧ Text.isIdentifierStart x = true
  part : ∀ x ∈ w, Text.isIdentifierPart x = true
  plain : ∀ x ∈ w, x ≠ 0x5C ∧ Text.isSurrogate x = false

theorem isWhiteSpace_of_isIdentifierStart (h : Text.isIdentifierStart x = true) : Text.isWhiteSpace x = false := by
  have hk : ∀ y ∈ [0x9, 0xB, 0xC, 0x20, 0xA0, 0x1680, 0x180E, 0x202F, 0x205F, 0x3000, 0xFEFF] ++
      List.range' 0x2000 11, Text.isIdentifierStart y = false := by decide +kernel
  rw [Bool.eq_false_iff]
  intro hw
  rw [hk x (by simp [Text.isWhiteSpace, Text.inRanges] at hw ⊢; omega)] at h
  cases h

def NameEnds (rest : Text) : Prop :=
  ∀ x ∈ rest.head?, Text.isIdentifierPart x = false ∧ x ≠ 0x5C ∧ Text.isSurrogate x = false

theorem Apart.nameEnds (h : Apart rest) : NameEnds rest := by
  intro x hx
  rw [h x hx]
  decide

theorem Unescaped.solid (h : Unescaped w) : Solid (w ++ rest) := by
  obtain ⟨⟨x, t, rfl, hx⟩, -, -⟩ := h
  have hm : ∀ m ∈ commentMarks, (Text.ofString m).head?.any Text.isIdentifierStart = false := by decide
  refine solid_cons ⟨isWhiteSpace_of_isIdentifierStart hx, (Text.inner_of_isIdentifierStart hx).2⟩ fun m h he => ?_
  have := hm m h
  rw [he, Option.any_some, hx] at this
  cases this

theorem plainNameEnd_passes (ht : ∀ x ∈ t, Text.isIdentifierPart x = true)
    (hp : ∀ x ∈ t, x ≠ 0x5C ∧ Text.isSurrogate x = false) (hn : t.length ≤ n) (hr : NameEnds rest)
    (h : st.source.chars.toList.drop c.index = t ++ rest) :
    Returns (plainNameEnd n) st c false { c with index := c.index + t.length } := by
  have hl := Source.length_of_drop h
  induction t generalizing c n with
  | nil =>
    cases n with
    | zero => exact returns_pure.mpr ⟨rfl, rfl⟩
    | succ n =>
      cases rest with
      | nil => simp [plainNameEnd, show st.source.length ≤ c.index by simp at hl; omega, and_assoc]
      | cons x rest =>
        obtain ⟨hpart, hslash, hs⟩ := hr x rfl
        have hx := Source.at?_of_drop h
        simp only [Text.isSurrogate] at hs
        have hq : ¬ (x = 0x5C ∨ 0xD800 ≤ x ∧ x < 0xDFFF) := by simp_all; omega
        simp [plainNameEnd, show ¬ st.source.length ≤ c.index by simp at hl; omega, hx, hpart, hq, and_assoc]
  | cons x t ih =>
    obtain ⟨n, rfl⟩ : ∃ m, n = m + 1 := ⟨n - 1, by simp at hn; omega⟩
    have hx := Source.at?_of_drop h
    have hd := Source.drop_succ_of_drop h
    simp only [List.forall_mem_cons] at ht hp
    have hs := hp.1.2
    simp only [Text.isSurrogate] at hs
    have := ih (c := { c with index := c.index + 1 }) (n := n) ht.2 hp.2 (by simpa using hn) hd
      (Source.length_of_drop hd)
    have hq : ¬ (x = 0x5C ∨ 0xD800 ≤ x ∧ x < 0xDFFF) := by simp_all; omega
    simpa [plainNameEnd, show ¬ st.source.length ≤ c.index by simp at hl; omega, hx, ht.1, hq, and_assoc,
      Nat.add_assoc, Nat.add_comm 1] using this

theorem writes_name (hw : Unescaped w) : Writes NameEnds w (nameLexeme w) := by
  intro st c rest ho h hr
  obtain ⟨⟨x, t, rfl, hx⟩, ht, hp⟩ := hw
  simp only [List.forall_mem_cons] at ht hp
  have hat := Source.at?_of_drop h
  have hl := Source.length_of_drop h
  have hc : ¬ st.source.length ≤ c.index := by simp at hl; omega
  have hend := plainNameEnd_passes (c := { c with index := c.index + 1 })
    (n := st.source.length - (c.index + 1)) ht.2 hp.2 (by simp at hl; omega) hr (Source.drop_succ_of_drop h)
  rw [show c.index + 1 + t.length = c.index + (t.length + 1) by omega] at hend
  have hsl := Source.slice_of_drop (n := t.length + 1) h (by simp)
  refine ⟨c.openers, ho, ?_⟩
  simp [next, name, plainName, hat, hc, hx, hp.1.1, and_assoc]
  exact .inl ⟨_, hend, by simp [hsl]⟩

/-- Does the code point start a punctuator that is looked up in the lists? -/
def startsListed (x : Nat) : Bool :=
  !Text.isIdentifierStart x && !Text.isDecimalDigit x && !([0x27, 0x22, 0x2E, 0x60, 0x7B, 0x7D].contains x)

/-- Of the punctuators that fit, a longer one comes first. -/
theorem find?_marks : ∀ m ∈ singleMarks ++ longMarks, (Text.ofString m).head?.any startsListed = true ∧
    0 ∉ Text.ofString m ∧ (singleMarks ++ longMarks).find? (fun m' => (Text.ofString m').isPrefixOf (Text.ofString m)) = some m := by
  decide

/-- A punctuator does not become another one or a comment. -/
def MarkEnds (m : String) (rest : Text) : Prop :=
  ∀ m' ∈ singleMarks ++ longMarks ++ commentMarks, Text.ofString m' <+: Text.ofString m ++ rest →
    Text.ofString m' <+: Text.ofString m

theorem Apart.markEnds (h : Apart rest) : MarkEnds m rest := by
  have hb : ∀ m' ∈ singleMarks ++ longMarks ++ commentMarks, 0x20 ∉ Text.ofString m' := by decide
  exact fun m' hm' => (prefix_append_iff h (hb m' hm')).mp

/-- No other punctuator starts like one of these. -/
theorem markEnds_single (h : m ∈ ["(", ")", ","]) : MarkEnds m rest := by
  have hm : ∀ m ∈ ["(", ")", ","], ∀ m' ∈ singleMarks ++ longMarks ++ commentMarks,
      (Text.ofString m').head? = (Text.ofString m).head? → m' = m := by decide
  have hne : ∀ m' ∈ singleMarks ++ longMarks ++ commentMarks, Text.ofString m' ≠ [] := by decide
  have hne' : ∀ m ∈ ["(", ")", ","], Text.ofString m ≠ [] := by decide
  intro m' hm' hp
  have hhead := (head?_of_leads hp (hne m' hm')).symm.trans (head?_of_leads (List.prefix_append ..) (hne' m h))
  obtain rfl := hm m h m' hm' hhead
  exact List.prefix_rfl

theorem writes_mark (hm : m ∈ singleMarks ++ longMarks) : Writes (MarkEnds m) (Text.ofString m) (.punctuator m) := by
  intro st c rest ho h hr
  obtain ⟨hx, -, hfind⟩ := find?_marks m hm
  have hmark : (singleMarks ++ longMarks).find? (fun m' => st.source.hasAt c.index m') = some m := by
    rw [← hfind]
    refine List.find?_congr fun m' hm' => ?_
    obtain ⟨-, h0, -⟩ := find?_marks m' hm'
    rw [Source.hasAt_eq h h0, Bool.eq_iff_iff, List.isPrefixOf_iff_prefix, List.isPrefixOf_iff_prefix]
    exact ⟨hr m' (List.mem_append_left _ hm'), fun h => h.trans (List.prefix_append ..)⟩
  have hlen : m.length = (Text.ofString m).length := by simp [Text.ofString, String.length_toList]
  have hl := Source.length_of_drop h
  cases hw : Text.ofString m with
  | nil => simp [hw] at hx
  | cons x t =>
    rw [hw] at h hl
    have hat := Source.at?_of_drop h
    have hc : ¬ st.source.length ≤ c.index := by simp at hl; omega
    simp [hw, startsListed] at hx
    refine ⟨c.openers, ho, ?_⟩
    simp [next, punctuator, markAt?, hat, hc, hx, hmark, hlen, hw, and_assoc, -List.find?_append]

theorem writes_brace (h : (x, m) ∈ [(0x7B, "\x7b"), (0x7D, "\x7d")]) : Writes (fun _ => True) [x] (.punctuator m) := by
  intro st c rest ho hd _
  have hat := Source.at?_of_drop hd
  have hl := Source.length_of_drop hd
  have hc : ¬ st.source.length ≤ c.index := by simp at hl; omega
  simp only [List.mem_cons, Prod.mk.injEq, List.not_mem_nil, or_false] at h
  rcases h with ⟨rfl, rfl⟩ | ⟨rfl, rfl⟩
  · refine ⟨.brace :: c.openers, by simpa using ho, ?_⟩
    have hx : Text.isIdentifierStart 0x7B = false ∧ Text.isDecimalDigit 0x7B = false := by decide
    simp [next, punctuator, hat, hc, hx, and_assoc]
    rfl
  · refine ⟨c.openers.tail, fun h => ho (List.mem_of_mem_tail h), ?_⟩
    have hx : Text.isIdentifierStart 0x7D = false ∧ Text.isDecimalDigit 0x7D = false := by decide
    have hhead : c.openers.head? ≠ some .substitution := fun h => ho (List.mem_of_head? h)
    simp [next, punctuator, hat, hc, hx, hhead, and_assoc]
    rfl

namespace Word

theorem solid_mark : ∀ m ∈ singleMarks ++ longMarks, Solid (Text.ofString m) := by
  unfold Solid
  decide

def mark (m : String) (h : m ∈ singleMarks ++ longMarks := by decide) : Word where
  text := Text.ofString m
  lexeme := .punctuator m
  fits := MarkEnds m
  apart := Apart.markEnds
  solid hr := (solid_mark m h).append fun m' hm' => hr m' (List.mem_append_right _ hm')
  writes := writes_mark h

def name (w : Text) (h : Unescaped w) : Word := ⟨w, nameLexeme w, NameEnds, Apart.nameEnds, fun _ => h.solid, writes_name h⟩

def brace (x : Nat) (m : String) (h : (x, m) ∈ [(0x7B, "\x7b"), (0x7D, "\x7d")] := by decide) : Word where
  text := [x]
  lexeme := .punctuator m
  fits _ := True
  apart _ := trivial
  solid _ := by
    have hs : ∀ p ∈ [(0x7B, "\x7b"), (0x7D, "\x7d")], (Text.isWhiteSpace p.1 = false ∧ Text.isLineTerminator p.1 = false) ∧
        ∀ m ∈ commentMarks, (Text.ofString m).head? ≠ some p.1 := by decide
    exact solid_cons (hs _ h).1 (hs _ h).2
  writes := writes_brace h

theorem text_ne_nil (w : Word) : w.text ≠ [] := by
  intro h
  have hn : Apart [] := by simp [Apart]
  simpa [h] using (w.solid (w.apart hn)).1

end Word

end Scan

end ScriptTree
