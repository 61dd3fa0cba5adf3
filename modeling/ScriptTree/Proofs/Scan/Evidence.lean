import ScriptTree.Proofs.Scan.Tokens

/-! # What tokens tell about the source

Some tokens can make a parse fail in other ways than by rejecting the program, and each of them comes with
a piece of the source that explains it: a number without a text is written with thousands of digits, and a
piece of a template that goes on after a substitution has the start of one before it. A keyword stands in the
text as it is (`next_keyword`), and a word without a backslash is scanned as what it spells (`next_spelled`). -/

namespace ScriptTree

namespace Source

def quoted (s : Source) (t : Token) : Text := ((s.slice t.start t.stop).drop 1).dropLast

/-- A slice without its first and its last character stands in the source, and its end mark does not. -/
theorem has_quoted (s : Source) (i j : Nat) : s.Has ((s.slice i j).drop 1).dropLast := by
  have hextract : (s.chars.extract i j).toList <:+: s.chars.toList := by
    rw [Array.toList_extract, List.extract_eq_take_drop]
    exact (List.take_prefix _ _).isInfix.trans (List.drop_suffix _ _).isInfix
  unfold Has slice
  generalize (s.chars.extract i j).toList = l at hextract ⊢
  split
  · cases l with
    | nil => exact List.nil_infix
    | cons x l =>
      have hdrop : ((x :: l ++ [0]).drop 1).dropLast = l := by simp
      rw [hdrop]
      exact (List.suffix_cons x l).isInfix.trans hextract
  · rw [List.append_nil]
    exact (List.dropLast_prefix _).isInfix.trans ((List.drop_suffix _ _).isInfix.trans hextract)

def HasBracedEscape (s : Source) (i j : Nat) : Prop :=
  ∃ k, i ≤ k ∧ k + 2 < j ∧ s.chars[k]? = some 0x5C ∧ s.chars[k + 1]? = some 0x75 ∧ s.chars[k + 2]? = some 0x7B

end Source

namespace Scan

variable {w : Text} {st : Settings} {c d : Cursor} {t : Token}

/-- A substitution is only open in a source in which one starts. -/
def Opened (src : Source) (os : List Opener) : Prop :=
  .substitution ∈ os → src.Has (Text.ofString "$\x7b")

/-- What is known of a token: its text, and how it comes to go on with a template. -/
structure Evident (src : Source) (l : Lexeme) : Prop where
  shown : l.Shown src
  resumed : ∀ raw cooked tail, l = .template raw cooked false tail → src.Has (Text.ofString "$\x7b")

/-- Only a piece of a template opens a substitution. -/
theorem substitution_mem_brackets {l : Lexeme} {os : List Opener} (h : .substitution ∈ l.brackets os) :
    .substitution ∈ os ∨ ∃ raw cooked head, l = .template raw cooked head false := by
  unfold Lexeme.brackets at h
  split at h
  · split at h
    · exact .inl (by simpa using h)
    · split at h
      · exact .inl (List.mem_of_mem_tail h)
      · exact .inl h
  · rename_i raw cooked head tail
    cases tail with
    | false => exact .inr ⟨raw, cooked, head, rfl⟩
    | true =>
      dsimp only at h
      split at h
      · exact .inl h
      · exact .inl (List.mem_of_mem_tail h)
  · exact .inl h

theorem next_evident (h : Returns next st c t d) (ho : Opened st.source c.openers) : Evident st.source t.lexeme := by
  rcases next_cases h with ⟨_, rfl, _⟩ | ⟨_, x, hx, h⟩
  · exact ⟨.of_value rfl, nofun⟩
  refine ⟨h.takes.shown, fun raw cooked tail hl => ?_⟩
  cases h with
  | name h => exact absurd hl (h.notPiece _ _ _ _)
  | literal h => exact absurd hl (h.notPiece _ _ _ _)
  | piece hi h =>
    obtain ⟨_, _, _, _, hl', -, hhead⟩ := h.piece
    cases hl.symm.trans hl'
    -- a piece that is not the first stands where a substitution ends
    exact ho (List.mem_of_mem_head? (hi.resolve_left fun he => hhead rfl (he ▸ hx)).2)
  | mark h =>
    obtain ⟨mark, hl'⟩ := h.isMark
    cases hl.symm.trans hl'

theorem next_opened (h : Returns next st c t d) (ho : Opened st.source c.openers) : Opened st.source d.openers := by
  rcases next_cases h with ⟨_, _, rfl⟩ | ⟨_, x, hx, h⟩
  · exact ho
  intro hm
  rw [h.takes.openers] at hm
  rcases substitution_mem_brackets hm with hm | ⟨_, _, _, hl⟩
  · exact ho hm
  cases h with
  | name h => exact absurd hl (h.notPiece _ _ _ _)
  | literal h => exact absurd hl (h.notPiece _ _ _ _)
  | piece _ h =>
    obtain ⟨_, _, _, _, hl', htail, -⟩ := h.piece
    cases hl.symm.trans hl'
    exact htail rfl
  | mark h =>
    obtain ⟨mark, hl'⟩ := h.isMark
    cases hl.symm.trans hl'

/-! ## Words -/

/-- Whatever a name stands for, its value is the name. -/
theorem nameLexeme_value (w : Text) : (nameLexeme w).value = .inr w := by
  have his {s : String} (h : w.is s = true) : (.inr (Text.ofString s) : Number ⊕ Text) = .inr w := by rw [eq_of_beq h]
  unfold nameLexeme
  split
  · rfl
  split
  · exact his (List.find?_some (p := fun s => w.is s) ‹_›)
  repeat' split
  all_goals first | exact his ‹_› | rfl

/-- An escape in braces is the only way to write what a name may not have. -/
theorem Spelled.admitted {src : Source} {admits : Nat → Bool} {i j : Nat} (h : Spelled src admits i w j)
    (hb : ¬ src.HasBracedEscape i j) :
    (∀ x ∈ w.head?, admits x = true) ∧ (∀ x ∈ w.tail, Text.isIdentifierPart x = true) ∧ 0x5C ∉ w := by
  have hcons {admits : Nat → Bool} {x : Nat} {w : Text} (hx : x ≠ 0x5C ∧ admits x = true)
      (hw : (∀ x ∈ w.head?, Text.isIdentifierPart x = true) ∧ (∀ x ∈ w.tail, Text.isIdentifierPart x = true) ∧ 0x5C ∉ w) :
      (∀ y ∈ (x :: w).head?, admits y = true) ∧ (∀ y ∈ w, Text.isIdentifierPart y = true) ∧ 0x5C ∉ x :: w := by
    refine ⟨by simpa using hx.2, ?_, by simpa [hx.1.symm] using hw.2.2⟩
    cases w with
    | nil => simp
    | cons y w => exact List.forall_mem_cons.mpr ⟨hw.1 y rfl, hw.2.1⟩
  induction h with
  | done => simp
  | char _ hx _ ih => exact hcons hx (ih fun ⟨k, hk, hr⟩ => hb ⟨k, by omega, hr⟩)
  | escape he hw ih =>
    have hle := hw.le
    have hlt := he.lt
    refine hcons (he.admitted.resolve_right fun hr => hb ⟨_, Nat.le_refl _, by omega, he.slash, hr.2⟩) (ih ?_)
    exact fun ⟨k, hk, hr⟩ => hb ⟨k, by omega, hr⟩

/-- A name, whatever it stands for, is not empty, and its range spells it. Unless an escape in braces is part of that,
its first code point may start a name, the others may go on with it, and none is a backslash. -/
theorem next_name_admitted (st : Settings) (c d : Cursor) (t : Token) (h : Returns next st c t d)
    (hn : Parse.isNameToken t.lexeme = true) :
    ∃ x w, t.lexeme.value = .inr (x :: w) ∧ Spelled st.source Text.isIdentifierStart t.start (x :: w) t.stop ∧
      (¬ st.source.HasBracedEscape t.start t.stop →
        Text.isIdentifierStart x = true ∧ (∀ y ∈ w, Text.isIdentifierPart y = true) ∧ 0x5C ∉ x :: w) := by
  rcases next_cases h with ⟨_, rfl, _⟩ | ⟨_, x, -, h⟩
  · cases hn
  cases h with
  | name h =>
    obtain ⟨v, hv, hs, -⟩ := h.spelled
    obtain ⟨x, w, rfl⟩ := List.exists_cons_of_ne_nil (hs.ne_nil h.lt)
    rw [← h.start, ← h.stop] at hs
    refine ⟨x, w, by rw [hv, nameLexeme_value], hs, fun hb => ?_⟩
    have := hs.admitted hb
    exact ⟨this.1 x rfl, this.2⟩
  | literal h => cases hn.symm.trans h.notName
  | piece _ h =>
    obtain ⟨_, _, _, _, hl, -⟩ := h.piece
    rw [hl] at hn
    cases hn
  | mark h =>
    obtain ⟨mark, hl⟩ := h.isMark
    rw [hl] at hn
    cases hn

/-- A name with an escape by four digits, and one with an escape in braces, both as they are read. -/
theorem escaped_names_read :
    passes next { source := .ofText (Text.ofString "\\u0061b") } {}
      (fun t _ => t.lexeme == .identifier [0x61, 0x62] && t.start == 0 && t.stop == 7) = true ∧
    passes next { source := .ofText (Text.ofString "\\u\x7b31\x7d") } {}
      (fun t _ => t.lexeme == .identifier [0x31]) = true := by
  decide

theorem next_name_admitted_digits :
    let st : Settings := { source := .ofText (Text.ofString "\\u0061b") }
    ∃ t d, Returns next st {} t d ∧ Parse.isNameToken t.lexeme = true ∧ t.lexeme.value = .inr [0x61, 0x62] ∧
      Text.isIdentifierStart 0x61 = true ∧ Text.isIdentifierPart 0x62 = true := by
  intro st
  obtain ⟨t, d, h, hq⟩ := exists_returns escaped_names_read.1
  simp only [Bool.and_eq_true, beq_iff_eq] at hq
  obtain ⟨⟨hl, h0⟩, h7⟩ := hq
  have hn : Parse.isNameToken t.lexeme = true := by rw [hl]; rfl
  obtain ⟨x, w, hv, -, ha⟩ := next_name_admitted st {} d t h hn
  rw [hl] at hv
  cases hv
  have hb : ¬ st.source.HasBracedEscape t.start t.stop := by
    rintro ⟨k, -, hk, -, -, hbrace⟩
    have hnone : ∀ k < 5, st.source.chars[k + 2]? ≠ some 0x7B := by decide
    exact hnone k (by omega) hbrace
  obtain ⟨hx, hw, -⟩ := ha hb
  exact ⟨t, d, h, hn, by rw [hl]; rfl, hx, hw _ (by simp)⟩

/-- An escape in braces makes a name of a digit. -/
theorem next_name_braced_digit :
    let st : Settings := { source := .ofText (Text.ofString "\\u\x7b31\x7d") }
    ∃ t d, Returns next st {} t d ∧ Parse.isNameToken t.lexeme = true ∧ t.lexeme.value = .inr [0x31] ∧
      Text.isIdentifierStart 0x31 = false := by
  intro st
  obtain ⟨t, d, h, hl⟩ := exists_returns escaped_names_read.2
  rw [beq_iff_eq] at hl
  exact ⟨t, d, h, by rw [hl]; rfl, by rw [hl]; rfl, by decide⟩

end Scan

end ScriptTree
