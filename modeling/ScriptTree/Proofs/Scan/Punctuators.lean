import ScriptTree.Lexeme.Markup
import ScriptTree.Proofs.Scan.Tokens

/-! # Punctuators and the source

A punctuator other than dots and braces stands in the source where its token starts (`next_mark`), and where
an arrow stands an arrow is read (`next_arrow`). So a list in parentheses that ends with a comma can be found
in the source, with what comes after it (`Source.ListEnds`). -/

namespace ScriptTree

namespace Source

/-- There is nothing but white space and comments between the two offsets. -/
def Gap (src : Source) (i j : Nat) : Prop :=
  ∃ (st : Scan.Settings) (c d : Scan.Cursor) (ms : List Comment),
    st.source = src ∧ c.index = i ∧ d.index = j ∧ Returns Scan.comments st c ms d

/-- Somewhere before the offset there are a comma and a closing parenthesis after it, with nothing between
them and nothing up to the offset. -/
def ListEnds (src : Source) (k : Nat) : Prop :=
  ∃ i j, src.hasAt i "," = true ∧ src.Gap (i + 1) j ∧ src.hasAt j ")" = true ∧ src.Gap (j + 1) k

def HasTrailingComma (src : Source) : Prop := ∃ k, src.ListEnds k ∧ src.hasAt k "=>" = true

/-- A list in parentheses ends with a comma, and no arrow comes after it. -/
def HasDanglingComma (src : Source) : Prop := ∃ k, src.ListEnds k ∧ src.hasAt k "=>" = false

theorem HasTrailingComma.comma_mem {t : Text} (h : (ofText t).HasTrailingComma) : 0x2C ∈ t := by
  obtain ⟨_, ⟨i, _, hcomma, -⟩, -⟩ := h
  have hat : (ofText t).at? i = some 0x2C := at?_of_hasAt (k := 0) hcomma (by decide)
  rw [at?] at hat
  split at hat
  · cases hat
  · exact List.mem_of_getElem? (by simpa [ofText] using hat)

end Source

namespace Scan

variable {st : Settings} {c d : Cursor} {t : Token} {x : Nat}

/-- A character with which neither a name, a literal, a dot nor a brace starts. -/
def StartsMark (x : Nat) : Prop :=
  Text.isIdentifierStart x = false ∧ Text.isDecimalDigit x = false ∧
    x ∉ [0, 0x22, 0x27, 0x2E, 0x60, 0x7B, 0x7D]

instance (x : Nat) : Decidable (StartsMark x) := inferInstanceAs (Decidable (_ ∧ _))

theorem startsMark_of_mem : ∀ m ∈ singleMarks ++ longMarks, ∃ x ∈ (Text.ofString m).head?, StartsMark x := by
  decide

/-- From such a character on the first of the marks that fits is read. -/
theorem next_startsMark (hx : st.source.at? c.index = some x) (hm : StartsMark x) (h : Returns next st c t d) :
    ∃ m, (singleMarks ++ longMarks).find? (fun m => st.source.hasAt c.index m) = some m ∧
      t.lexeme = .punctuator m ∧ d.index = c.index + m.length := by
  obtain ⟨hname, hdigit, hother⟩ := hm
  simp only [List.mem_cons, List.not_mem_nil, or_false, not_or] at hother
  obtain ⟨h0, hquote, hquote', hdot, htick, hopen, hclose⟩ := hother
  rcases Returns.atEnd h with ⟨he, -⟩ | ⟨-, h⟩
  · exact absurd (Source.lt_length_of_at? hx h0) (Nat.not_lt.mpr he)
  obtain ⟨y, hy, h⟩ := h.here
  obtain rfl : x = y := Option.some.inj (hx.symm.trans hy)
  rw [if_neg (by simp [hname]), if_neg (by simp [hquote, hquote']), if_neg (by simp [hdot]),
    if_neg (by simp [hdigit])] at h
  replace h := h.get
  rw [if_neg (by simp [htick, hclose])] at h
  obtain ⟨y, hy, h⟩ := (Returns.index h).here
  obtain rfl : x = y := Option.some.inj (hx.symm.trans hy)
  rw [if_neg (by simp [hopen]), if_neg (by simp [hclose]), if_neg (by simp [hdot])] at h
  obtain ⟨mark, e, h₁, h⟩ := h.bind
  obtain ⟨hfind, rfl⟩ := markAt?_returns h₁
  split at h
  · rename_i m
    obtain ⟨rfl, rfl⟩ := returns_token.mp h.pure.advance
    exact ⟨m, hfind.symm, rfl, rfl⟩
  · exact absurd h returns_reject_bind

/-- The offset at which a token starts. -/
theorem next_start (h : Returns next st c t d) : t.start = c.index := by
  rcases next_takes h with ⟨-, rfl, -⟩ | ⟨-, ht⟩
  · rfl
  · exact ht.start

theorem next_mark {m : String} (hm : m ∈ singleMarks ++ longMarks) (h : Returns next st c t d)
    (hl : t.lexeme = .punctuator m) : st.source.hasAt c.index m = true ∧ d.index = c.index + m.length := by
  obtain ⟨x, hx, hs⟩ := startsMark_of_mem m hm
  rcases next_takes h with ⟨-, rfl, -⟩ | ⟨-, ht⟩
  · cases hl
  obtain ⟨m', hfind, hl', hd⟩ := next_startsMark ((ht.mark m hl).trans hx) hs h
  obtain rfl : m = m' := Lexeme.punctuator.inj (hl.symm.trans hl')
  exact ⟨List.find?_some hfind, hd⟩

/-- The marks that are tried before the arrow. -/
theorem marks_before_arrow : ∃ before after, singleMarks ++ longMarks = before ++ "=>" :: after ∧
      ∀ m ∈ before, ∃ k < 2, ∃ x ∈ (Text.ofString m)[k]?, (Text.ofString "=>")[k]? ≠ some x :=
  ⟨singleMarks ++ longMarks.take 25, longMarks.drop 26, by decide, by decide⟩

theorem next_arrow (ha : st.source.hasAt c.index "=>" = true) (h : Returns next st c t d) :
    t.lexeme = .punctuator "=>" := by
  have hx : st.source.at? c.index = some 0x3D := Source.at?_of_hasAt (k := 0) ha (by decide)
  obtain ⟨m, hfind, hl, -⟩ := next_startsMark hx (by decide) h
  obtain ⟨before, after, hmarks, hbefore⟩ := marks_before_arrow
  suffices hm : m = "=>" by rw [hl, hm]
  have hnone : before.find? (fun m => st.source.hasAt c.index m) = none := by
    rw [List.find?_eq_none]
    intro w hw hh
    obtain ⟨k, hk, x, hx, hne⟩ := hbefore w hw
    -- the word and the arrow differ at an offset where both have a character
    have hw := Source.at?_of_hasAt hh hx
    have harrow : ∃ y, (Text.ofString "=>")[k]? = some y := by
      match k, hk with
      | 0, _ => exact ⟨0x3D, by decide⟩
      | 1, _ => exact ⟨0x3E, by decide⟩
    obtain ⟨y, hy⟩ := harrow
    rw [Source.at?_of_hasAt ha hy] at hw
    exact hne (hy.trans hw)
  rw [hmarks, List.find?_append, hnone, Option.none_or, List.find?_cons_of_pos ha] at hfind
  exact (Option.some.inj hfind).symm

/-- Before an equals sign there is nothing to skip. -/
theorem comments_equals {ms : List Comment} (hx : st.source.at? c.index = some 0x3D)
    (h : Returns comments st c ms d) : d = c := by
  obtain ⟨found, e, h₁, h⟩ := (Returns.ahead h).index.bind
  obtain ⟨-, rfl⟩ := returns_pure.mp h.read
  cases hn : st.source.length - c.index with
  | zero =>
    rw [hn] at h₁
    exact (h₁.ended).2
  | succ n =>
    rw [hn] at h₁
    rcases h₁.atEnd with ⟨_, h₁⟩ | ⟨_, h₁⟩
    · exact (h₁.ended).2
    obtain ⟨x, hx', h₁⟩ := h₁.here
    obtain rfl : 0x3D = x := Option.some.inj (hx.symm.trans hx')
    replace h₁ := h₁.index
    rw [if_neg (by decide), if_neg (by decide), if_neg (by decide), if_neg (by simp)] at h₁
    exact (returns_pure.mp h₁.read).2

/-- In a tag an equals sign is a token of its own. -/
theorem markup_equals (hx : st.source.at? c.index = some 0x3D) (h : Returns markup st c t d) :
    t.lexeme = .punctuator "=" := by
  obtain ⟨x, hx', h⟩ := (Returns.index h).here
  obtain rfl : 0x3D = x := Option.some.inj (hx.symm.trans hx')
  exact congrArg Token.lexeme (returns_token.mp (Returns.advance h)).1

/-- A tag ends with its last bracket. -/
theorem markup_closes (h : Returns markup st c t d) (hl : t.lexeme = .punctuator ">") :
    st.source.at? c.index = some 0x3E ∧ d.index = c.index + 1 := by
  obtain ⟨x, hx, h⟩ := (Returns.index h).here
  dsimp only at h
  split at h
  · rename_i mark hm
    obtain ⟨rfl, rfl⟩ := returns_token.mp h.advance
    obtain rfl : mark = ">" := Lexeme.punctuator.inj hl
    have hw := List.find?_some hm
    obtain rfl : 0x3E = x := List.singleton_inj.mp (eq_of_beq hw)
    exact ⟨hx, rfl⟩
  rcases h.ite with ⟨-, h⟩ | ⟨-, h⟩
  · obtain ⟨v, u, -, h⟩ := h.advance.ahead.bind
    obtain ⟨rfl, -⟩ := returns_token.mp h
    cases hl
  rcases h.ite with ⟨-, h⟩ | ⟨-, h⟩
  · replace h := h.sees
    obtain ⟨rfl, -⟩ := returns_token.mp h.advance
    split at hl <;> exact absurd (Lexeme.punctuator.inj hl) (by decide)
  rcases h.ite with ⟨-, h⟩ | ⟨-, h⟩
  · obtain ⟨rfl, -⟩ := returns_token.mp h
    cases hl
  rcases h.ite with ⟨-, h⟩ | ⟨-, h⟩
  · obtain ⟨w, u, -, h⟩ := h.advance.ahead.bind
    obtain ⟨_, v, -, h⟩ := h.bind
    obtain ⟨rfl, -⟩ := returns_token.mp h
    cases hl
  · obtain ⟨hat, hd⟩ := next_mark (by decide) h hl
    exact ⟨Source.at?_of_hasAt (k := 0) hat (by decide), hd⟩

end Scan

end ScriptTree
