import ScriptTree.Parse.Grammar
import ScriptTree.Proofs.Number.Size
import ScriptTree.Proofs.Scan.Walk

/-! # The parts of tokens

How far the cursor moves in escapes, names and numbers, and what the text that it passes becomes. A name
without escapes is its own text, and one with escapes is shorter than that (`Spelled`). A number has a text
unless it is written with thousands of digits (`Lexeme.Shown`). Where these scans fail, they reject the program:
inside it nothing is read behind the end mark, every digit has its entry, and every number of a character is
one. -/

namespace ScriptTree

variable {l : Lexeme}

namespace Source

variable {s : Source} {i x y : Nat}

/-- The piece stands somewhere in the source. -/
def Has (s : Source) (piece : Text) : Prop := piece <:+: s.chars.toList

/-- More digits stand in a row than an integer with a text can have. -/
def HasLongNumber (s : Source) : Prop :=
  ∃ digits : Text, s.Has digits ∧ (∀ c ∈ digits, Text.isHexDigit c = true) ∧ Number.safeDigits < digits.length

theorem drop_eq_cons (h : s.chars[i]? = some x) : s.chars.toList.drop i = x :: s.chars.toList.drop (i + 1) := by
  rw [← Array.getElem?_toList] at h
  obtain ⟨hi, rfl⟩ := List.getElem?_eq_some_iff.mp h
  exact List.drop_eq_getElem_cons hi

theorem Has.of_starts {piece : Text} (h : piece <+: s.chars.toList.drop i) : s.Has piece :=
  h.isInfix.trans (List.drop_suffix i _).isInfix

theorem Has.pair (hx : s.at? i = some x) (hx' : x ≠ 0) (hy : s.at? (i + 1) = some y) (hy' : y ≠ 0) : s.Has [x, y] := by
  refine .of_starts (i := i) ?_
  rw [drop_eq_cons (getElem?_of_at?_ne hx hx'), drop_eq_cons (getElem?_of_at?_ne hy hy')]
  exact ⟨_, rfl⟩

end Source

namespace Lexeme

/-- What a token does to the brackets that are open before it: braces open and close, and pieces of
templates open and close substitutions. -/
def brackets (l : Lexeme) (open' : List Scan.Opener) : List Scan.Opener :=
  match l with
  | .punctuator mark =>
    if mark == "\x7b" then .brace :: open' else if mark == "\x7d" then open'.tail else open'
  | .template _ _ head tail =>
    let inside := if tail then open' else .substitution :: open'
    if head then inside else inside.tail
  | _ => open'

/-- Only a number with many digits has no text. -/
def Shown (src : Source) (l : Lexeme) : Prop := l.text? = none → src.HasLongNumber

theorem Shown.of_value {src : Source} {t : Text} (h : l.value = .inr t) : l.Shown src := by
  intro hl
  unfold Lexeme.text? at hl
  rw [h] at hl
  cases hl

/-- Names and literals other than templates: they neither open nor close a bracket. -/
structure IsWord (src : Source) (l : Lexeme) : Prop where
  plain : ∀ o, l.brackets o = o
  notEnd : l ≠ .endOfInput
  notMark : ∀ mark, l ≠ .punctuator mark
  notPiece : ∀ raw cooked head tail, l ≠ .template raw cooked head tail
  shown : l.Shown src

end Lexeme

namespace Scan

variable {e : Cursor} {letter : Nat}

/-- A token is taken: it ranges over what the cursor has passed, which is not empty, has the line at its end, and
has its effect on the open brackets. A punctuator is one by its first character, and ends on the line it starts
on. -/
structure Takes (st : Settings) (c : Cursor) (t : Token) (d : Cursor) : Prop where
  walk : Walk st.source c.toPlace d.toPlace
  openers : d.openers = t.lexeme.brackets c.openers
  notEnd : t.lexeme ≠ .endOfInput
  mark : ∀ m, t.lexeme = .punctuator m → st.source.at? c.index = (Text.ofString m).head?
  start : t.start = c.index
  stop : t.stop = d.index
  lt : c.index < d.index
  line : t.line = d.line ∧ t.lineStart = d.lineStart
  flat : ∀ m, t.lexeme = .punctuator m → d.line = c.line ∧ d.lineStart = c.lineStart
  shown : t.lexeme.Shown st.source

/-- A token is taken that leaves the open brackets alone. -/
structure TakesPlain (st : Settings) (c : Cursor) (t : Token) (d : Cursor) : Prop
    extends Takes st c t d where
  plain : ∀ o, t.lexeme.brackets o = o
  notPiece : ∀ raw cooked head tail, t.lexeme ≠ .template raw cooked head tail

structure TakesLiteral (st : Settings) (c : Cursor) (t : Token) (d : Cursor) : Prop
    extends TakesPlain st c t d where
  notName : Parse.isNameToken t.lexeme = false

/-- A cursor has passed the first character of a token. -/
structure Starts (st : Settings) (c d : Cursor) : Prop extends Glides st c d where
  lt : c.index < d.index

variable {E : Failure → Prop} {st : Settings} {b c d : Cursor} {n x : Nat}

namespace Starts

theorem inner (hx : st.source.at? c.index = some x) (h : Text.Inner x) : Starts st c { c with index := c.index + 1 } :=
  ⟨(Slides.inner hx h).toGlides, Nat.lt_succ_self _⟩

theorem trans (h : Starts st c d) (h' : Glides st d e) : Starts st c e :=
  ⟨h.toGlides.trans h', Nat.lt_of_lt_of_le h.lt h'.index_le⟩

theorem bound (h : Starts st c d) : d.index ≤ st.source.length := h.walk.bound h.lt

theorem takes (h : Starts st c d) (hl : l.IsWord st.source) :
    Gives E st d (token c.index l) fun t e => TakesPlain st c t e ∧ t.lexeme = l ∧ e = d :=
  .token ⟨⟨⟨h.walk, by rw [h.openers]; exact (hl.plain _).symm, hl.notEnd, fun m hm => absurd hm (hl.notMark m),
    rfl, rfl, h.lt, ⟨rfl, rfl⟩, fun m hm => absurd hm (hl.notMark m), hl.shown⟩, hl.plain,
    hl.notPiece⟩, rfl, rfl⟩

theorem takesLiteral (h : Starts st c d) (hl : l.IsWord st.source)
    (hw : Parse.isNameToken l = false := by rfl) : Gives E st d (token c.index l) (TakesLiteral st c) :=
  (h.takes hl).mono fun ⟨ht, hl, _⟩ => ⟨ht, hl ▸ hw⟩

end Starts

/-! ## Escapes -/

/-- The number that so many digits lead to is that of a character. -/
theorem hexDigits_slides {code : Nat} (hcode : (code + 1) * 16 ^ n ≤ 0x110000) (hb : Slides st b c) :
    Gives E st c (hexDigits n code) fun _ => Slides st b := by
  induction n generalizing code c with
  | zero => exact .map (.character (by omega) hb)
  | succ n ih =>
    refine .atEnd (fun _ => .pure hb) fun hlt => .here (Nat.le_of_lt hlt) fun x hx =>
      .ite (fun hd => .advance <| .digit hd <| ih ?_ (hb.past hx (Text.inner_of_isHexDigit hd))) fun _ => .pure hb
    have hv := Text.digitValue_lt hd
    refine Nat.le_trans ?_ hcode
    rw [Nat.pow_succ', ← Nat.mul_assoc]
    exact Nat.mul_le_mul_right _ (by omega)

theorem hexEscape_slides (hb : Slides st b c) : Gives E st c (hexEscape letter) fun _ => Slides st b :=
  hexDigits_slides (by split <;> decide) hb

/-- The character after the digits is passed over too, so it must not end the line. -/
theorem bracedDigits_slides {code last : Nat} (hb : Slides st b c) :
    Gives E st c (bracedDigits n code last) fun r d => Text.isLineTerminator r.2 = false → Slides st b d := by
  induction n generalizing code last c with
  | zero => exact .pure fun _ => hb
  | succ n ih =>
    refine .atEnd (fun _ => .pure fun _ => hb) fun hlt => .take (Nat.le_of_lt hlt) fun x hx =>
      .ite (fun hd => .digit hd <| ih (hb.past hx (Text.inner_of_isHexDigit hd))) fun _ => .pure fun hr => ?_
    exact hb.trans (.char (Source.getElem?_of_at? hx hlt) hr)

/-- One more digit of an octal escape. -/
theorem octalDigit_slides (hb : Slides st b c) : Gives E st c (do
      if ← atEnd then return none
      let c ← here
      if Text.isOctalDigit c then
        let value ← digit Text.isOctalDigit c
        advance 1
        return some value
      else return none) fun r d => Slides st b d ∧ ∀ v ∈ r, v < 8 := by
  have hnone : Slides st b c ∧ ∀ v ∈ (none : Option Nat), v < 8 := ⟨hb, by simp⟩
  refine .atEnd (fun _ => .pure hnone) fun hlt => .here (Nat.le_of_lt hlt) fun x hx => .ite (fun hd => ?_) fun _ => .pure hnone
  exact .digit hd <| .advance <| .pure
    ⟨hb.past hx (Text.inner_of_isOctalDigit hd), by simpa using Text.octalValue_lt hd⟩

theorem octalEscape_slides {first : Nat} (hf : Text.isOctalDigit first = true) (hb : Slides st b c) :
    Gives E st c (octalEscape first) fun r d => Slides st b d ∧ r.2 < 512 := by
  refine .digit hf <| .bind (octalDigit_slides hb) fun {second d} ⟨hd, hsecond⟩ => ?_
  have hfirst := Text.octalValue_lt hf
  cases second with
  | none => exact .pure ⟨hd, by dsimp only; omega⟩
  | some second =>
    have := hsecond _ rfl
    refine .fork (.bind (octalDigit_slides hd) fun {third e} ⟨he, hthird⟩ => ?_) <| .pure ⟨hd, by dsimp only; omega⟩
    cases third with
    | none => exact .pure ⟨he, by dsimp only; omega⟩
    | some third =>
      have := hthird _ rfl
      exact .pure ⟨he, by dsimp only; omega⟩

variable [Admits E]

theorem bracedEscape_slides (hc : c.index ≤ st.source.length) (hb : Slides st b c) :
    Gives E st c bracedEscape fun _ => Slides st b := by
  refine .here hc fun x _ => .guard fun _ => .ahead <| .bind (bracedDigits_slides hb) fun {r d} hr => ?_
  obtain ⟨code, last⟩ := r
  refine .guard fun hl => ?_
  simp only [Bool.or_eq_true, bne_iff_ne, decide_eq_true_eq, not_or, Decidable.not_not, Nat.not_lt] at hl
  obtain ⟨hcode, rfl⟩ := hl
  exact .character hcode (hr rfl)

/-! ## Names -/

/-- A code point may be written at the place: as itself, or by an escape up to another place. Those in braces are not
checked. -/
structure Escapes (src : Source) (admits : Nat → Bool) (i x l : Nat) : Prop where
  slash : src.chars[i]? = some 0x5C
  lt : i + 1 < l
  admitted : x ≠ 0x5C ∧ admits x = true ∨ i + 2 < l ∧ src.chars[i + 1]? = some 0x75 ∧ src.chars[i + 2]? = some 0x7B

/-- The range spells a name whose first code point is one of those that are admitted there. -/
inductive Spelled (src : Source) : (Nat → Bool) → Nat → Text → Nat → Prop
  | done {admits : Nat → Bool} {i : Nat} : Spelled src admits i [] i
  | char {admits : Nat → Bool} {i j x : Nat} {t : Text} : src.chars[i]? = some x → x ≠ 0x5C ∧ admits x = true →
      Spelled src Text.isIdentifierPart (i + 1) t j → Spelled src admits i (x :: t) j
  | escape {admits : Nat → Bool} {i j x l : Nat} {t : Text} : Escapes src admits i x l →
      Spelled src Text.isIdentifierPart l t j → Spelled src admits i (x :: t) j

namespace Spelled

variable {src : Source} {admits : Nat → Bool} {i j : Nat} {t : Text}

theorem le (h : Spelled src admits i t j) : i ≤ j := by
  induction h with
  | done => exact Nat.le_refl _
  | char _ _ _ ih => exact Nat.le_of_lt ih
  | escape he _ ih => exact Nat.le_trans (by have := he.lt; omega) ih

theorem ne_nil (h : Spelled src admits i t j) (hlt : i < j) : t ≠ [] := by
  cases h with
  | done => exact absurd hlt (Nat.lt_irrefl _)
  | _ => simp

/-- The range is the text as it is, or has a backslash and is longer. -/
theorem slice (h : Spelled src admits i t j) : t = src.slice i j ∨ 0x5C ∈ src.slice i j ∧ t.length < j - i := by
  induction h with
  | done => exact .inl (src.slice_self _).symm
  | char hx _ h ih =>
    have := h.le
    rw [src.slice_eq_cons hx h.le, List.length_cons]
    refine ih.imp (congrArg _) fun hb => ⟨List.mem_cons_of_mem _ hb.1, ?_⟩
    have := hb.2
    omega
  | @escape _ i j x l t he h ih =>
    have hlt := he.lt
    have hle := h.le
    have hlen : t.length ≤ j - l := ih.elim (fun h => h ▸ src.length_slice_le l j) fun h => Nat.le_of_lt h.2
    refine .inr ⟨?_, ?_⟩
    · rw [src.slice_eq_cons he.slash (by omega)]
      exact List.mem_cons_self
    · rw [List.length_cons]
      omega

end Spelled

/-- A name stays in its line. -/
structure Spells (st : Settings) (c d : Cursor) : Prop extends Slides st c d where
  lt : c.index < d.index

theorem Spells.slide (h : Spells st c d) (h' : Slides st d e) : Spells st c e :=
  ⟨h.toSlides.trans h', Nat.lt_of_lt_of_le h.lt h'.index_le⟩

theorem Spells.inner (hx : st.source.at? c.index = some x) (h : Text.Inner x) :
    Spells st c { c with index := c.index + 1 } :=
  ⟨.inner hx h, Nat.lt_succ_self _⟩

theorem nameEscape_spells {admits : Nat → Bool} {i : Nat} (hb : st.source.chars[i]? = some 0x5C) (hc : c.index = i + 1) :
    Gives E st c (nameEscape admits) fun y d => Spells st c d ∧ Escapes st.source admits i y d.index := by
  have hlt := Source.lt_length_of_getElem? hb
  refine .here (by omega) fun x hx => .guard fun hu => ?_
  obtain rfl : x = 0x75 := by simpa using hu
  have hs := Spells.inner hx (by decide)
  refine .advance <| .here (Source.lt_length_of_at? hx (by decide)) fun y hy => .ite (fun hy' => .advance ?_) fun _ => ?_
  · obtain rfl : y = 0x7B := by simpa using hy'
    refine Gives.mono (P := fun _ => Slides st { c with index := c.index + 1 + 1 }) ?_ fun {z d} hd => ?_
    · exact bracedEscape_slides (Source.lt_length_of_at? hy (by decide)) (.refl st _)
    · have hle : c.index + 1 + 1 ≤ d.index := hd.index_le
      refine ⟨(hs.slide (.inner hy (by decide))).slide hd, hb, by omega, .inr ⟨by omega, ?_, ?_⟩⟩
      · exact hc ▸ Source.getElem?_of_at?_ne hx (by decide)
      · have hget := Source.getElem?_of_at?_ne hy (by decide)
        rwa [show i + 2 = c.index + 1 by omega]
  · refine .bind (hexEscape_slides (.refl st _)) fun {code d} hd => ?_
    cases code with
    | none => exact .reject
    | some code =>
      refine .ite (fun _ => .reject) fun hn => .pure ⟨hs.slide hd, hb, ?_, .inl (by simpa using hn)⟩
      have hle : c.index + 1 ≤ d.index := hd.index_le
      omega

theorem escapedNameTail_spells : Gives E st c (escapedNameTail n) fun t d =>
    Slides st c d ∧ Spelled st.source Text.isIdentifierPart c.index t d.index := by
  induction n generalizing c with
  | zero => exact .pure ⟨.refl st c, .done⟩
  | succ n ih =>
    refine .atEnd (fun _ => .pure ⟨.refl st c, .done⟩) fun hlt => .here (Nat.le_of_lt hlt) fun x hx =>
      .ite (fun _ => .pure ⟨.refl st c, .done⟩) fun hp => ?_
    have hget := Source.getElem?_of_at? hx hlt
    have hx' : Text.isIdentifierPart x = true := by simpa using hp
    have hs := Spells.inner hx (Text.inner_of_isIdentifierPart hx')
    refine .advance <| .ite (fun hb => ?_) fun hb => .bind ih fun h => .pure
      ⟨hs.toSlides.trans h.1, .char hget ⟨by simpa using hb, hx'⟩ h.2⟩
    rw [eq_of_beq hb] at hget
    exact .bind (nameEscape_spells hget rfl) fun he => .bind ih fun h => .pure
      ⟨(hs.toSlides.trans he.1.toSlides).trans h.1, .escape he.2 h.2⟩

theorem escapedName_spells (hx : st.source.at? c.index = some x) (hs : Text.isIdentifierStart x = true) :
    Gives E st c escapedName fun t d => Spells st c d ∧ Spelled st.source Text.isIdentifierStart c.index t d.index := by
  have hi := Text.inner_of_isIdentifierStart hs
  have hget := Source.getElem?_of_at?_ne hx hi.1
  have hc := Spells.inner hx hi
  refine .taken hx <| .ite (fun hb => ?_) fun hb => .first rfl <| .ahead <| .bind escapedNameTail_spells fun h => .pure
    ⟨hc.slide h.1, .char hget ⟨by simpa using hb, hs⟩ h.2⟩
  rw [eq_of_beq hb] at hget
  exact .bind (nameEscape_spells hget rfl) fun he => .ahead <| .bind escapedNameTail_spells fun h => .pure
    ⟨(hc.slide he.1.toSlides).slide h.1, .escape he.2 h.2⟩

omit [Admits E] in
/-- Where the short way stops, the long way has taken the same. -/
theorem plainNameEnd_agrees (hc : c.index ≤ st.source.length) : Gives (fun _ => False) st c (plainNameEnd n) fun r d =>
    ∃ i, d = { c with index := i } ∧ c.index ≤ i ∧
      (r = false → Returns (escapedNameTail n) st c (st.source.slice c.index i) d) := by
  have hdone {n : Nat} {c : Cursor} (h : Returns (escapedNameTail n) st c [] c) :
      ∃ i, c = { c with index := i } ∧ c.index ≤ i ∧
        (false = false → Returns (escapedNameTail n) st c (st.source.slice c.index i) c) :=
    ⟨c.index, rfl, Nat.le_refl _, fun _ => by rwa [Source.slice_self]⟩
  induction n generalizing c with
  | zero => exact .pure (hdone rfl)
  | succ n ih =>
    refine .atEnd (fun he => .pure (hdone ?_)) fun hlt => .here hc fun x hx =>
      .ite (fun _ => .pure ⟨c.index, rfl, Nat.le_refl _, by simp⟩) fun hq => .ite (fun hp => .advance ?_) fun hp => .pure (hdone ?_)
    · simp [escapedNameTail, he]
    · refine (ih (c := { c with index := c.index + 1 }) hlt).mono ?_
      rintro r _ ⟨i, rfl, hi, htail⟩
      refine ⟨i, rfl, Nat.le_of_lt hi, fun hr => ?_⟩
      have hb : x ≠ 0x5C := fun h => hq (by simp [h])
      rw [Source.slice_eq_cons (Source.getElem?_of_at? hx hlt) hi]
      simp [escapedNameTail, hx, hp, hb, Nat.not_le.mpr hlt, htail hr, and_assoc]
    · simp [escapedNameTail, hx, hp, Nat.not_le.mpr hlt, and_assoc]

omit [Admits E] in
/-- The two ways to read a name go the same way, whether or not a later character has an escape. -/
theorem plainName_eq_escapedName (hx : st.source.at? c.index = some x) (hs : Text.isIdentifierStart x = true)
    (hb : x ≠ 0x5C) : plainName st c = escapedName st c := by
  have hget := Source.getElem?_of_at?_ne hx (Text.inner_of_isIdentifierStart hs).1
  obtain ⟨r, _, hend, i, rfl, hi, htail⟩ := (plainNameEnd_agrees (n := st.source.length - (c.index + 1))
    (c := { c with index := c.index + 1 }) (Source.lt_length_of_getElem? hget)).total
  unfold plainName
  rw [bind_ok _ (rfl : index st c = .ok _ _), bind_ok _ (rfl : advance 1 st c = .ok _ _),
    bind_ok _ (rfl : ahead st _ = .ok _ _), bind_ok _ hend]
  cases r with
  | true => rfl
  | false =>
    have hlong : Returns escapedName st c (x :: st.source.slice (c.index + 1) i) { c with index := i } := by
      simp [escapedName, hx, hb, htail rfl, and_assoc]
    rw [hlong, ← Source.slice_eq_cons hget hi]
    rfl

theorem plainName_spells (hx : st.source.at? c.index = some x) (hs : Text.isIdentifierStart x = true) (hb : x ≠ 0x5C) :
    Gives E st c plainName fun t d => Spells st c d ∧ Spelled st.source Text.isIdentifierStart c.index t d.index := by
  have hlong := escapedName_spells (E := E) hx hs
  have hsame := plainName_eq_escapedName hx hs hb
  refine ⟨fun h => hlong.returns (hsame.symm.trans h), fun h => ?_⟩
  obtain ⟨d, h⟩ := h
  exact hlong.raises ⟨d, hsame.symm.trans h⟩

/-- A name that starts without an escape is read by the short way as by the long way: both return the same text and
stop at the same place, or both reject the program with the same error. -/
theorem names_agree (st : Settings) (c : Cursor) (hx : st.source.at? c.index = some x)
    (hs : Text.isIdentifierStart x = true) (hb : x ≠ 0x5C) :
    (∃ name d, plainName st c = .ok name d ∧ escapedName st c = .ok name d) ∨
      ∃ e d, plainName st c = .error (.rejected e) d ∧ escapedName st c = .error (.rejected e) d := by
  rw [plainName_eq_escapedName hx hs hb]
  rcases (escapedName_spells (E := Failure.IsRejection) hx hs).ends with ⟨name, d, h, -⟩ | ⟨_, ⟨d, h⟩, e, rfl⟩
  · exact .inl ⟨name, d, h, h⟩
  · exact .inr ⟨e, d, h, h⟩

/-- A name of two letters, the second of which is escaped. -/
theorem names_agree_escape : let st : Settings := { source := .ofText (Text.ofString "a\\u0062") }
    st.source.at? 0 = some 0x61 ∧ ∃ d, plainName st {} = .ok [0x61, 0x62] d ∧ escapedName st {} = .ok [0x61, 0x62] d := by
  intro st
  obtain ⟨name, d, hread, hname⟩ := exists_returns (p := plainName) (r := st) (s := {}) (q := fun name _ => name == [0x61, 0x62])
    (by decide)
  obtain rfl := eq_of_beq hname
  refine ⟨rfl, d, hread, ?_⟩
  rcases names_agree (x := 0x61) st {} rfl (by decide) (by decide) with ⟨_, _, h, h'⟩ | ⟨_, _, h, -⟩
  · cases hread.symm.trans h
    exact h'
  · cases hread.symm.trans h

/-- A name is one token without effect on the open brackets. -/
theorem nameLexeme_isWord (src : Source) (name : Text) : (nameLexeme name).IsWord src := by
  unfold nameLexeme
  repeat' split
  all_goals exact ⟨fun _ => rfl, by simp, by simp, by simp, .of_value rfl⟩

/-- A name is taken. What it stands for is read off its text. One that is read off other text has a backslash, and is
an identifier unless that is passed over. -/
structure TakesName (st : Settings) (c : Cursor) (t : Token) (d : Cursor) : Prop extends TakesPlain st c t d where
  spelled : ∃ w, t.lexeme = nameLexeme w ∧ Spelled st.source Text.isIdentifierStart c.index w d.index ∧ (st.tolerant = false → w = st.source.slice c.index d.index ∨
    0x5C ∈ st.source.slice c.index d.index ∧ t.lexeme = .identifier w)

theorem name_takes (hx : st.source.at? c.index = some x) (hs : Text.isIdentifierStart x = true) :
    Gives E st c name (TakesName st c) := by
  refine .index <| .known hx <| .ite (fun _ => .bind (escapedName_spells hx hs) ?_) fun hb =>
    .bind (plainName_spells hx hs (by simpa using hb)) ?_
  all_goals
    rintro w e ⟨he, hw⟩
    have hst : Starts st c e := ⟨he.toGlides, he.lt⟩
    refine .index <| .ite (fun hl => ?_) fun _ => .seek <| .complain fun err ht => .seek ?_
    · refine (hst.takes (nameLexeme_isWord _ w)).mono fun ⟨ht, hlex, hd⟩ =>
        ⟨ht, w, hlex, hd ▸ hw, fun _ => ?_⟩
      rw [hd, hlex]
      refine hw.slice.imp id fun hb => ⟨hb.1, ?_⟩
      rcases Bool.or_eq_true_iff.mp hl with hl | hl
      · exact beq_iff_eq.mp hl
      · have := beq_iff_eq.mp hl
        have := hb.2
        omega
    · have hsame : Glides st e { e with index := e.index, errors := e.errors ++ [err] } := ⟨.here, rfl⟩
      exact ((hst.trans hsame).takes (nameLexeme_isWord _ w)).mono fun ⟨h, hlex, hd⟩ =>
        ⟨h, w, hlex, hd ▸ hw, fun hf => absurd (hf.symm.trans ht) (by decide)⟩

/-! ## Numbers -/

/-- Characters of a kind are taken, as many as there are but at most so many. -/
structure Runs (kind : Nat → Bool) (n : Nat) (st : Settings) (c : Cursor) (t : Text) (d : Cursor) : Prop
    extends Slides st c d where
  starts : t <+: st.source.chars.toList.drop c.index
  all : ∀ x ∈ t, kind x = true
  nonempty : ∀ x, st.source.at? c.index = some x → kind x = true → 0 < n → t ≠ []

section Numbers

omit [Admits E]

theorem takeWhile_runs {kind : Nat → Bool} (hk : ∀ {x}, kind x = true → Text.Inner x) (hc : c.index ≤ st.source.length) :
    Gives E st c (takeWhile kind n) (Runs kind n st c) := by
  induction n generalizing c with
  | zero => exact .pure ⟨.refl st c, List.nil_prefix, nofun, fun _ _ _ h => absurd h (Nat.lt_irrefl 0)⟩
  | succ n ih =>
    refine .here hc fun x hx => .ite (fun hp => ?_) fun hp => .pure ⟨.refl st c, List.nil_prefix, nofun, fun y hy hk => ?_⟩
    · have hs := Spells.inner hx (hk hp)
      refine .advance <| .bind (ih (Source.lt_length_of_at? hx (hk hp).1)) fun h => .pure
        ⟨hs.toSlides.trans h.toSlides, ?_, List.forall_mem_cons.mpr ⟨hp, h.all⟩, by simp⟩
      rw [Source.drop_eq_cons (Source.getElem?_of_at?_ne hx (hk hp).1)]
      exact List.cons_prefix_cons.mpr ⟨rfl, h.starts⟩
    · rw [Option.some.inj (hx.symm.trans hy)] at hp
      exact absurd hk hp

/-- A number is a token of its own. -/
theorem numeric_takes {v : Number} {o : Option Bool} (hb : Starts st b c) (hd : Slides st c d)
    (hs : (Lexeme.numeric v o).Shown st.source) : Gives E st d (token b.index (.numeric v o)) (TakesLiteral st b) :=
  (hb.trans hd.toGlides).takesLiteral ⟨fun _ => rfl, nofun, nofun, nofun, hs⟩

/-- An integer that is written with digits of a base. -/
theorem shown_of_digits {src : Source} {base i : Nat} {digits : Text} {octal : Option Bool} (hb : base ≤ 16)
    (hp : digits <+: src.chars.toList.drop i) (hd : ∀ x ∈ digits, Text.isHexDigit x = true) :
    (Lexeme.numeric (.integer (Text.positional base digits)) octal).Shown src :=
  fun h => ⟨digits, .of_starts hp, hd, Number.length_of_text?_eq_none hb hd h⟩

theorem isHexDigit_of_isOctalDigit (h : Text.isOctalDigit x = true) : Text.isHexDigit x = true := by
  simp only [Text.isOctalDigit, Text.isHexDigit, Text.isDecimalDigit, Bool.or_eq_true, Bool.and_eq_true,
    decide_eq_true_eq] at h ⊢
  omega

theorem isHexDigit_of_isBinaryDigit (h : (x == 0x30 || x == 0x31) = true) : Text.isHexDigit x = true := by
  simp only [Bool.or_eq_true, beq_iff_eq] at h
  rcases h with rfl | rfl <;> rfl

/-- The test for the old notation of octal numbers does not move the cursor. -/
theorem oldOctal_gives {y : Nat} : Gives E st c (pure (x == 0x30 && Text.isOctalDigit y) <&&> isOldOctal) fun r d =>
    (r = true → Text.isOctalDigit y = true) ∧ d = c := by
  unfold andM
  refine .first rfl ?_
  cases hf : (x == 0x30 && Text.isOctalDigit y) with
  | false => exact .pure ⟨nofun, rfl⟩
  | true =>
    refine .first rfl <| .index <| .first rfl ?_
    dsimp only
    split <;> exact .pure ⟨fun _ => (Bool.and_eq_true_iff.mp hf).2, rfl⟩

end Numbers

theorem endNumber_gives (hc : c.index ≤ st.source.length) : Gives E st c endNumber fun _ d => d = c :=
  .here hc fun _ _ => .fork .reject (.pure rfl)

theorem hexNumber_takes (hb : Starts st b c) : Gives E st c (hexNumber b.index) (TakesLiteral st b) := by
  refine .ahead <| .bind (takeWhile_runs Text.inner_of_isHexDigit hb.bound) fun {digits d} h => .guard fun _ =>
    .bind (endNumber_gives (h.index_le_length hb.bound)) ?_
  rintro _ _ rfl
  exact numeric_takes hb h.toSlides (shown_of_digits (by decide) h.starts h.all)

theorem binaryNumber_takes (hb : Starts st b c) : Gives E st c (binaryNumber b.index) (TakesLiteral st b) := by
  have hk {x} (hx : (x == 0x30 || x == 0x31) = true) := Text.inner_of (fun c => c == 0x30 || c == 0x31) hx
  refine .ahead <| .bind (takeWhile_runs hk hb.bound) fun {digits d} h => .guard fun _ => ?_
  have hend : Gives E st d (token b.index (.numeric (.integer (Text.positional 2 digits)) none)) (TakesLiteral st b) :=
    numeric_takes hb h.toSlides <| shown_of_digits (by decide) h.starts fun x hx => isHexDigit_of_isBinaryDigit (h.all x hx)
  exact .atEnd (fun _ => hend) fun hlt => .here (Nat.le_of_lt hlt) fun _ _ => .guard fun _ => hend

theorem octalNumber_takes (hl : st.source.at? c.index = some letter)
    (hi : Text.Inner letter) (hb : Starts st b c) : Gives E st c (octalNumber letter b.index) (TakesLiteral st b) := by
  unfold octalNumber
  extract_lets old rest
  have hlt := Source.lt_length_of_at? hl hi.1
  have hrest {first : Text} {i : Nat} (hf : ∀ digits : Text, digits <+: st.source.chars.toList.drop (c.index + 1) →
      first ++ digits <+: st.source.chars.toList.drop i) (hd : ∀ x ∈ first, Text.isHexDigit x = true) :
      Gives E st c (rest first) (TakesLiteral st b) := by
    refine .advance <| .ahead <| .bind (takeWhile_runs Text.inner_of_isOctalDigit hlt) fun {digits d} h => .guard fun _ =>
      .here (h.index_le_length hlt) fun _ _ => .guard fun _ => ?_
    refine numeric_takes hb ((Slides.inner hl hi).trans h.toSlides) (shown_of_digits (by decide) (hf _ h.starts) fun x hx => ?_)
    exact (List.mem_append.mp hx).elim (hd x) fun hx => isHexDigit_of_isOctalDigit (h.all x hx)
  refine .ite (fun ho => ?_) fun _ => .first rfl (hrest (fun _ hp => hp) (by simp))
  -- in the old notation the letter is the first digit
  refine .bind (P := fun first e => first = [letter] ∧ e = c) (.known hl (.pure ⟨rfl, rfl⟩)) ?_
  rintro _ e ⟨rfl, rfl⟩
  refine hrest (i := e.index) (fun digits hp => ?_) (by simpa using isHexDigit_of_isOctalDigit ho)
  rw [Source.drop_eq_cons (Source.getElem?_of_at?_ne hl hi.1)]
  exact List.cons_prefix_cons.mpr ⟨rfl, hp⟩

theorem exponent_slides (hc : c.index ≤ st.source.length) (hb : Slides st b c) :
    Gives E st c exponent fun _ => Slides st b := by
  refine .here hc fun sign hx => ?_
  extract_lets rest
  have hrest {e : Cursor} (he : Slides st b e) (hi : e.index ≤ st.source.length) :
      Gives E st e (rest ()) fun _ => Slides st b := by
    refine .ahead <| .bind (takeWhile_runs Text.inner_of_isDecimalDigit hi) fun hd => ?_
    exact .guard fun _ => .pure (he.trans hd.toSlides)
  refine .ite (fun hs => ?_) fun _ => hrest hb hc
  have hi := Text.inner_of (fun x => x == 0x2B || x == 0x2D) hs
  exact .advance <| hrest (hb.past hx hi) (Source.lt_length_of_at? hx hi.1)

/-- The digits after a point, its exponent and the check that no name follows. A number that starts with the point
has a digit after it. -/
theorem decimalNumber_takes {whole : Text} (hc : c.index ≤ st.source.length)
    (hb : ∀ {e}, Slides st c e → (st.source.at? c.index = some 0x2E → c.index < e.index) → Starts st b e)
    (hd : whole = [] → st.source.at? c.index = some 0x2E ∧
      ∃ x, st.source.at? (c.index + 1) = some x ∧ Text.isDecimalDigit x = true) :
    Gives E st c (decimalNumber b.index whole) (TakesLiteral st b) := by
  refine .here hc fun x hx => ?_
  extract_lets rest
  have hrest {fraction : Text} {e : Cursor} (he : Starts st b e) (hf : whole ++ fraction ≠ []) :
      Gives E st e (rest fraction) (TakesLiteral st b) := by
    refine .here he.bound fun y hy => .known hy ?_
    extract_lets digits last
    have hlast {power : Int} {u : Cursor} (hu : Slides st e u) : Gives E st u (last power) (TakesLiteral st b) := by
      refine .bind (endNumber_gives (hu.index_le_length he.bound)) ?_
      rintro _ _ rfl
      exact .ite (fun h => absurd (List.isEmpty_iff.mp h) hf) fun _ =>
        numeric_takes he hu fun hn => absurd hn Number.text?_ofDecimal
    refine .ite (fun hl => ?_) fun _ => .first rfl (hlast (.refl st e))
    have hi := Text.inner_of (fun x => x == 0x65 || x == 0x45) hl
    exact .advance <| .bind (exponent_slides (Source.lt_length_of_at? hy hi.1) (.inner hy hi)) hlast
  refine .ite (fun hp => ?_) fun hp => .first rfl (hrest (hb (.refl st c) fun hc => absurd ?_ hp) fun hnil => hp ?_)
  · obtain rfl : x = 0x2E := by simpa using hp
    have hs := Slides.inner hx (by decide)
    refine .advance <| .ahead <| .bind
      (takeWhile_runs Text.inner_of_isDecimalDigit (Source.lt_length_of_at? hx (by decide))) fun h => ?_
    refine hrest (hb (hs.trans h.toSlides) fun _ => h.index_le) fun hnil => ?_
    obtain ⟨hwhole, hfraction⟩ := List.append_eq_nil_iff.mp hnil
    obtain ⟨-, y, hy, hdigit⟩ := hd hwhole
    exact h.nonempty y hy hdigit (Nat.succ_pos _) hfraction
  · rw [hx] at hc
    simpa using hc
  · have hpoint := (hd (List.append_eq_nil_iff.mp hnil).1).1
    rw [hx] at hpoint
    simpa using hpoint

theorem numeral_takes (hx : st.source.at? b.index = some x) (hs : Text.isDecimalDigit x = true ∨ x = 0x2E ∧
    ∃ y, st.source.at? (b.index + 1) = some y ∧ Text.isDecimalDigit y = true) :
    Gives E st b numeral (TakesLiteral st b) := by
  refine .index <| .known hx <| .ite (fun _ => .ite (fun hp => ?_) fun hp => ?_) fun hn => absurd ?_ hn
  · obtain rfl : x = 0x2E := by simpa using hp
    exact decimalNumber_takes (Nat.le_of_lt (Source.lt_length_of_at? hx (by decide))) (fun he hlt => ⟨he.toGlides, hlt hx⟩)
      fun _ => ⟨hx, (hs.resolve_left (by decide)).2⟩
  · have hdx : Text.isDecimalDigit x = true := hs.resolve_right fun h => hp (by simp [h.1])
    have hb := Starts.inner hx (Text.inner_of_isDecimalDigit hdx)
    refine .advance <| .here hb.bound fun y hy => ?_
    have hletter {p q : Nat} (h : (x == 0x30 && (y == p || y == q)) = true) (hp : Text.Inner p := by decide)
        (hq : Text.Inner q := by decide) : Text.Inner y := by
      simp only [Bool.and_eq_true, Bool.or_eq_true, beq_iff_eq] at h
      rcases h.2 with rfl | rfl <;> assumption
    refine .ite (fun hl => .advance <| hexNumber_takes (hb.trans (Slides.inner hy (hletter hl)).toGlides)) fun _ =>
      .ite (fun hl => .advance <| binaryNumber_takes (hb.trans (Slides.inner hy (hletter hl)).toGlides)) fun _ =>
      .ite (fun hl => octalNumber_takes hy (hletter hl) hb) fun _ => .bind oldOctal_gives ?_
    rintro old _ ⟨ho, rfl⟩
    refine .ite (fun hl => octalNumber_takes hy (Text.inner_of_isOctalDigit (ho hl)) hb) fun _ => .ahead ?_
    refine .bind (takeWhile_runs Text.inner_of_isDecimalDigit hb.bound) fun hm => ?_
    exact decimalNumber_takes (hm.index_le_length hb.bound) (fun he _ => hb.trans (hm.trans he).toGlides) nofun
  · rcases hs with hs | ⟨rfl, -⟩
    · simp [hs]
    · rfl

end Scan

end ScriptTree
