import Mathlib.Algebra.GroupWithZero.Nat
import ScriptTree.Proofs.Scan.Quoted
import ScriptTree.Proofs.Scan.Words

/-! # Literals that are written with escapes

A text can be written between quotes in many ways: each code point as itself or by one of its escapes, and with
the line broken anywhere. `Piece` is one of these ways for one code point. Whatever the pieces are, a string of
them is read back as the text (`string_reads`), and the same pieces between backquotes are read as the same text
(`string_template_agree`). The proofs follow the recursion of the scan: one piece for each round. -/

namespace ScriptTree.Scan

variable {next : Option Nat} {quote : Nat} {α : Type}

/-- The escapes of one letter, with what they stand for. -/
def namedEscapes : List (Nat × Nat) :=
  [(0x6E, 0x0A), (0x72, 0x0D), (0x74, 0x09), (0x62, 0x08), (0x66, 0x0C), (0x76, 0x0B)]

def lineEnds : List Text := [[0x0A], [0x0D], [0x0D, 0x0A], [0x2028], [0x2029]]

/-- A way to write a code point between quotes, or to break the line there. -/
inductive Piece where
  | plain (x : Nat)
  /-- A backslash and a code point. -/
  | escape (x : Nat)
  /-- A backslash, a letter and hexadecimal digits. -/
  | digits (letter : Nat) (ds : Text)
  /-- Hexadecimal digits in braces. -/
  | braced (ds : Text)
  /-- A backslash and a line end. -/
  | lineBreak (t : Text)
deriving DecidableEq, Repr

namespace Piece

def text : Piece → Text
  | plain x => [x]
  | escape x => [0x5C, x]
  | digits letter ds => 0x5C :: letter :: ds
  | braced ds => 0x5C :: 0x75 :: 0x7B :: (ds ++ [0x7D])
  | lineBreak t => 0x5C :: t

/-- What the piece stands for. -/
def value : Piece → Text
  | plain x => [x]
  | escape x => [(namedEscapes.lookup x).getD (if x = 0x30 then 0 else x)]
  | digits _ ds => [Text.positional 16 ds]
  | braced ds => [Text.positional 16 ds]
  | lineBreak _ => []

def breaks : Piece → Nat
  | lineBreak _ => 1
  | _ => 0

/-- The piece may be written before such a code point, if those of a kind stand for themselves. -/
def Fits (kind : Nat → Bool) (next : Option Nat) : Piece → Prop
  | plain x => kind x = true ∧ x ≠ 0x5C ∧ Text.isLineTerminator x = false
  | escape x => (x = 0x30 ∧ ∀ y ∈ next, Text.isDecimalDigit y = false) ∨
      (Text.isDecimalDigit x = false ∧ x ≠ 0x78 ∧ x ≠ 0x75 ∧ Text.isLineTerminator x = false)
  | digits letter ds => (letter = 0x78 ∧ ds.length = 2 ∨ letter = 0x75 ∧ ds.length = 4) ∧
      ∀ x ∈ ds, Text.isHexDigit x = true
  | braced ds => ds ≠ [] ∧ (∀ x ∈ ds, Text.isHexDigit x = true) ∧ Text.positional 16 ds ≤ 0x10FFFF
  | lineBreak t => t ∈ lineEnds

instance (kind : Nat → Bool) (next : Option Nat) (p : Piece) : Decidable (p.Fits kind next) := by
  cases p <;> unfold Fits <;> infer_instance

/-- The cursor moves over the piece. -/
def pass (c : Cursor) (p : Piece) : Cursor :=
  let i := c.index + p.text.length
  match p with
  | lineBreak _ => { c with toPlace := ⟨i, c.line + 1, i⟩ }
  | _ => { c with index := i }

end Piece

def write (ps : List Piece) : Text := ps.flatMap Piece.text

def meaning (ps : List Piece) : Text := ps.flatMap Piece.value

def lineBreaks (ps : List Piece) : Nat := (ps.map Piece.breaks).sum

/-- The pieces may be written one after the other. -/
def Written (kind : Nat → Bool) : List Piece → Prop
  | [] => True
  | p :: ps => p.Fits kind (write ps).head? ∧ Written kind ps

instance decidableWritten (kind : Nat → Bool) : (ps : List Piece) → Decidable (Written kind ps)
  | [] => inferInstanceAs (Decidable True)
  | _ :: ps =>
    have := decidableWritten kind ps
    inferInstanceAs (Decidable (_ ∧ _))

variable {E : Failure → Prop} {st : Settings} {c d : Cursor} {kind : Nat → Bool} {p : Piece} {ps : List Piece}
  {ds t rest : Text} {n x : Nat}

theorem Piece.index_pass (p : Piece) (c : Cursor) : (p.pass c).index = c.index + p.text.length := by
  cases p <;> rfl

/-- Pieces move the cursor behind their text, and down by the lines that they break. -/
theorem foldl_pass (c : Cursor) (ps : List Piece) : ∃ i, ps.foldl Piece.pass c =
    { c with toPlace := ⟨c.index + (write ps).length, c.line + lineBreaks ps, i⟩ } := by
  induction ps generalizing c with
  | nil => exact ⟨c.lineStart, rfl⟩
  | cons p ps ih =>
    obtain ⟨i, hi⟩ := ih (p.pass c)
    have hp : (p.pass c).line = c.line + p.breaks ∧ (p.pass c).openers = c.openers ∧ (p.pass c).errors = c.errors := by
      cases p <;> exact ⟨rfl, rfl, rfl⟩
    exact ⟨i, by simp [hi, p.index_pass, hp, write, lineBreaks, Nat.add_assoc]⟩

/-! ## Escapes -/

theorem letterEscape?_eq (x : Nat) : letterEscape? x = namedEscapes.lookup x := by
  unfold letterEscape?
  split
  case h_7 => exact (List.lookup_eq_none_iff.mpr (by simp_all [namedEscapes])).symm
  all_goals rfl

/-- Before a code point the end is not reached. -/
theorem Gives.ongoing {q r : Scan α} {Q : α → Cursor → Prop}
    (h : st.source.chars.toList.drop c.index = x :: t) (hr : Gives E st c r Q) :
    Gives E st c (Scan.atEnd >>= fun e => if e = true then q else r) Q := by
  have hlt := Source.length_of_drop h
  rw [List.length_cons] at hlt
  exact .atEnd (fun he => by omega) fun _ => hr

theorem hexDigits_reads {code : Nat} (hd : ∀ x ∈ ds, Text.isHexDigit x = true)
    (hcode : (code + 1) * 16 ^ ds.length ≤ 0x110000) (h : st.source.chars.toList.drop c.index = ds ++ t) :
    Gives E st c (hexDigits ds.length code) fun r d =>
      r = some (ds.foldl (fun value x => value * 16 + Text.digitValue x) code) ∧
        d = { c with index := c.index + ds.length } := by
  induction ds generalizing c code with
  | nil =>
    refine .bind (.character (Q := fun r d => r = code ∧ d = c) (by simp at hcode; omega) ⟨rfl, rfl⟩) ?_
    rintro _ _ ⟨rfl, rfl⟩
    exact .pure ⟨rfl, rfl⟩
  | cons x ds ih =>
    obtain ⟨hx, hd⟩ := List.forall_mem_cons.mp hd
    have hv := Text.digitValue_lt hx
    refine .ongoing h <| .known (Source.at?_of_drop h) <| .pos hx <| .advance <| .digit hx <|
      (ih hd ?_ (Source.drop_succ_of_drop h)).mono fun hread => hread.imp_right fun he => ?_
    · refine Nat.le_trans ?_ hcode
      rw [List.length_cons, Nat.pow_succ', ← Nat.mul_assoc]
      exact Nat.mul_le_mul_right _ (by omega)
    · simp [he, Nat.add_assoc, Nat.add_comm 1]

theorem bracedDigits_reads {code last : Nat} (hd : ∀ x ∈ ds, Text.isHexDigit x = true) (hn : ds.length < n)
    (h : st.source.chars.toList.drop c.index = ds ++ 0x7D :: t) : Gives E st c (bracedDigits n code last) fun r d =>
      r = (ds.foldl (fun value x => value * 16 + Text.digitValue x) code, 0x7D) ∧
        d = { c with index := c.index + ds.length + 1 } := by
  induction ds generalizing c code last n with
  | nil =>
    obtain ⟨n, rfl⟩ := Nat.exists_eq_add_one_of_ne_zero (Nat.ne_of_gt hn)
    exact .ongoing h <| .taken (Source.at?_of_drop h) <| .neg (by decide) <| .pure ⟨rfl, rfl⟩
  | cons x ds ih =>
    obtain ⟨n, rfl⟩ := Nat.exists_eq_add_one_of_ne_zero (Nat.ne_of_gt (Nat.zero_lt_of_lt hn))
    obtain ⟨hx, hd⟩ := List.forall_mem_cons.mp hd
    refine .ongoing h <| .taken (Source.at?_of_drop h) <| .pos hx <| .digit hx <|
        (ih hd (Nat.lt_of_succ_lt_succ hn) (Source.drop_succ_of_drop h)).mono fun ⟨hr, hd⟩ => ⟨hr, ?_⟩
    simp [hd, Nat.add_assoc, Nat.add_comm 1]

theorem bracedEscape_reads (hp : (Piece.braced ds).Fits kind next)
    (h : st.source.chars.toList.drop c.index = ds ++ 0x7D :: t) : Gives E st c bracedEscape fun r d =>
      r = Text.positional 16 ds ∧ d = { c with index := c.index + ds.length + 1 } := by
  obtain ⟨hne, hd, hcode⟩ := hp
  obtain ⟨x, ds, rfl⟩ := List.exists_cons_of_ne_nil hne
  have hx : x ≠ 0x7D := by rintro rfl; exact absurd (hd _ List.mem_cons_self) (by decide)
  have hlen := Source.length_of_drop h
  refine .known (Source.at?_of_drop h) <| .neg (by simpa using hx) <| .ahead <|
    .bind (bracedDigits_reads hd (by simp [hlen]) h) ?_
  rintro _ _ ⟨rfl, rfl⟩
  exact .neg (by simpa [Text.positional] using hcode) <| .character hcode ⟨rfl, rfl⟩

theorem hexEscape_reads {letter : Nat} (hp : (Piece.digits letter ds).Fits kind next)
    (h : st.source.chars.toList.drop c.index = ds ++ t) : Gives E st c (hexEscape letter) fun r d =>
      r = some (Text.positional 16 ds) ∧ d = { c with index := c.index + ds.length } := by
  obtain ⟨hl, hd⟩ := hp
  have hcount : ds.length = if letter == 0x75 then 4 else 2 := by
    rcases hl with ⟨rfl, hl⟩ | ⟨rfl, hl⟩ <;> exact hl
  unfold hexEscape
  rw [← hcount]
  refine hexDigits_reads hd ?_ h
  rcases hl with ⟨-, hl⟩ | ⟨-, hl⟩ <;> rw [hl] <;> decide

/-- What comes after a piece does not go on with it. -/
def Parts (p : Piece) (rest : Text) : Prop :=
  ∃ y t, rest = y :: t ∧ y ≠ 0x0A ∧ (p = .escape 0x30 → Text.isDecimalDigit y = false)

theorem newLine_reads (ht : t ∈ lineEnds) (h : st.source.chars.toList.drop c.index = 0x5C :: (t ++ rest))
    (hr : Parts (.lineBreak t) rest) : ∃ x, st.source.at? (c.index + 1) = some x ∧ Text.isLineTerminator x = true ∧
      Gives E st { c with index := c.index + 1 + 1 } (newLine x) fun _ d => d = Piece.pass c (.lineBreak t) := by
  obtain ⟨y, u, rfl, hy, -⟩ := hr
  replace h := Source.drop_succ_of_drop h
  simp only [lineEnds, List.mem_cons, List.not_mem_nil, or_false] at ht
  rcases ht with rfl | rfl | rfl | rfl | rfl
  all_goals
    refine ⟨_, Source.at?_of_drop h, rfl, ?_⟩
    unfold newLine
  · exact .neg (by decide) <| .modify rfl
  · exact .pos rfl <| .known (Source.at?_of_drop (Source.drop_succ_of_drop h)) <| .neg (by simpa using hy) <| .modify rfl
  · exact .pos rfl <| .known (Source.at?_of_drop (Source.drop_succ_of_drop h)) <| .pos rfl <| .advance <| .modify rfl
  · exact .neg (by decide) <| .modify rfl
  · exact .neg (by decide) <| .modify rfl

/-- An escape is read as a whole. The two kinds of literals differ only in what they do without digits, and with
code points that have no escape of their own. -/
theorem escape_reads {g : Text → α} {U N : Nat → Scan α} {X : Option Nat → Scan α}
    (hU : ∀ {c d v}, Returns (hexEscape 0x75) st c (some v) d → Gives E st c (U 0x75) fun r e => r = g [v] ∧ e = d)
    (hX : ∀ v, X (some v) = pure (g [v]))
    (hN : ∀ {c x}, Text.isDecimalDigit x = false → Gives E st c (N x) fun r e => r = g [x] ∧ e = c)
    (hZ : ∀ {c y}, st.source.at? c.index = some y → Text.isDecimalDigit y = false →
      Gives E st c (N 0x30) fun r e => r = g [0] ∧ e = c)
    (hp : p.Fits kind next) (ht : p.text = 0x5C :: t) (hr : Parts p rest)
    (h : st.source.chars.toList.drop c.index = 0x5C :: (t ++ rest)) :
    Gives E st { c with index := c.index + 1 } (do
      let x ← take
      if Text.isLineTerminator x then
        newLine x
        return g []
      else if x == 0x75 then
        if (← here) == 0x7B then
          advance 1
          return g [← bracedEscape]
        else U x
      else if x == 0x78 then X (← hexEscape x)
      else match letterEscape? x with
        | some v => return g [v]
        | none => N x) fun r d => r = g p.value ∧ d = p.pass c := by
  have h' := Source.drop_succ_of_drop h
  cases p with
  | plain x =>
    obtain ⟨rfl, -⟩ := List.cons.inj ht
    exact absurd rfl hp.2.1
  | lineBreak u =>
    obtain rfl : u = t := (List.cons.inj ht).2
    obtain ⟨x, hx, hlt, hnew⟩ := newLine_reads (E := E) hp h hr
    exact .taken hx <| .pos hlt <| .bind hnew fun hd => .pure ⟨rfl, hd⟩
  | escape x =>
    obtain rfl : [x] = t := (List.cons.inj ht).2
    obtain ⟨y, u, rfl, -, hy⟩ := hr
    have hx : x ≠ 0x78 ∧ x ≠ 0x75 ∧ Text.isLineTerminator x = false := by
      rcases hp with ⟨rfl, -⟩ | ⟨-, hx⟩
      · decide
      · exact hx
    refine .taken (Source.at?_of_drop h') <| .neg (by simp [hx.2.2]) <| .neg (by simpa using hx.2.1) <|
      .neg (by simpa using hx.1) ?_
    rw [letterEscape?_eq]
    cases hl : namedEscapes.lookup x with
    | some v => exact .pure ⟨by simp [Piece.value, hl], rfl⟩
    | none =>
      rcases hp with ⟨rfl, -⟩ | ⟨hx, -⟩
      · exact hZ (Source.at?_of_drop (Source.drop_succ_of_drop h')) (hy rfl)
      · have h0 : x ≠ 0x30 := by rintro rfl; exact absurd hx (by decide)
        exact (hN hx).mono fun ⟨hv, hd⟩ => ⟨by simp [hv, Piece.value, hl, h0], hd⟩
  | digits letter ds =>
    obtain rfl : letter :: ds = t := (List.cons.inj ht).2
    have hds : st.source.chars.toList.drop (c.index + 1 + 1) = ds ++ rest := Source.drop_succ_of_drop h'
    rcases hp.1 with ⟨rfl, -⟩ | ⟨rfl, hl⟩
    · refine .taken (Source.at?_of_drop h') <| .neg (by decide) <| .neg (by decide) <| .pos rfl <|
        .bind (hexEscape_reads hp hds) ?_
      rintro _ _ ⟨rfl, rfl⟩
      rw [hX]
      exact .pure ⟨rfl, by simp [Piece.pass, Piece.text, Nat.add_assoc, Nat.add_comm 2]⟩
    · obtain ⟨y, u, rfl⟩ := List.exists_cons_of_ne_nil (List.ne_nil_of_length_eq_add_one hl)
      have hy : y ≠ 0x7B := by rintro rfl; exact absurd (hp.2 _ List.mem_cons_self) (by decide)
      obtain ⟨_, _, hr, rfl, rfl⟩ := (hexEscape_reads (c := { c with index := c.index + 1 + 1 }) hp hds).total
      refine .taken (Source.at?_of_drop h') <| .neg (by decide) <| .pos rfl <| .known (Source.at?_of_drop hds) <|
        .neg (by simpa using hy) <| (hU hr).mono fun ⟨hv, hd⟩ => ⟨hv, ?_⟩
      simp [hd, Piece.pass, Piece.text, Nat.add_assoc, Nat.add_comm 2]
  | braced ds =>
    obtain rfl : 0x75 :: 0x7B :: (ds ++ [0x7D]) = t := (List.cons.inj ht).2
    have hb := Source.drop_succ_of_drop h'
    have hds : st.source.chars.toList.drop (c.index + 1 + 1 + 1) = ds ++ 0x7D :: rest := by
      simpa using Source.drop_succ_of_drop hb
    refine .taken (Source.at?_of_drop h') <| .neg (by decide) <| .pos rfl <| .known (Source.at?_of_drop hb) <| .pos rfl <|
      .advance <| .bind (bracedEscape_reads hp hds) ?_
    rintro _ _ ⟨rfl, rfl⟩
    refine .pure ⟨rfl, ?_⟩
    simp only [Piece.pass, Piece.text, List.length_cons, List.length_append, List.length_nil]
    congr 2
    omega

theorem isOctalDigit_of_isDecimalDigit (h : Text.isDecimalDigit x = false) : ¬ Text.isOctalDigit x = true := by
  simp only [Text.isDecimalDigit, Text.isOctalDigit, Bool.and_eq_false_iff, Bool.and_eq_true, decide_eq_true_eq,
    decide_eq_false_iff_not] at h ⊢
  omega

theorem stringEscape_reads (hp : p.Fits kind next) (ht : p.text = 0x5C :: t) (hr : Parts p rest)
    (h : st.source.chars.toList.drop c.index = 0x5C :: (t ++ rest)) :
    Gives E st { c with index := c.index + 1 } stringEscape fun r d => r = (p.value, false) ∧ d = p.pass c := by
  refine escape_reads (g := fun v => (v, false)) (fun h => .first h <| .pure ⟨rfl, rfl⟩) (fun _ => rfl) (fun {_ x} hx => ?_)
    (fun {c y} hy hd => ?_) hp ht hr h
  · have hx' : ¬ (x == 0x38 || x == 0x39) = true := by
      simp only [Bool.or_eq_true, beq_iff_eq]
      rintro (rfl | rfl) <;> cases hx
    exact .neg hx' <| .neg (isOctalDigit_of_isDecimalDigit hx) <| .pure ⟨rfl, rfl⟩
  · refine .neg (by decide) <| .pos rfl <| .bind (P := fun r d => r = (false, 0) ∧ d = c) (.digit rfl ?_) ?_
    · refine .bind (P := fun r d => r = none ∧ d = c) (.atEnd (fun _ => .pure ⟨rfl, rfl⟩) fun _ => .known hy <|
        .neg (isOctalDigit_of_isDecimalDigit hd) <| .pure ⟨rfl, rfl⟩) ?_
      rintro _ _ ⟨rfl, rfl⟩
      exact .pure ⟨rfl, rfl⟩
    · rintro _ _ ⟨rfl, rfl⟩
      exact .first rfl <| .pure ⟨rfl, rfl⟩

theorem templateEscape_reads (hp : p.Fits kind next) (ht : p.text = 0x5C :: t) (hr : Parts p rest)
    (h : st.source.chars.toList.drop c.index = 0x5C :: (t ++ rest)) :
    Gives E st { c with index := c.index + 1 } templateEscape fun r d => r = p.value ∧ d = p.pass c := by
  refine escape_reads (g := id) (fun h => .index <| .first h <| .pure ⟨rfl, rfl⟩) (fun _ => rfl) (fun {_ x} hx => ?_)
    (fun hy hd => .pos rfl <| .known hy <| .neg (by simp [hd]) <| .pure ⟨rfl, rfl⟩) hp ht hr h
  have hx' : ¬ (x == 0x30) = true := by
    rw [beq_iff_eq]
    rintro rfl
    cases hx
  exact .neg hx' <| .neg (isOctalDigit_of_isDecimalDigit hx) <| .pure ⟨rfl, rfl⟩

/-! ## Literals -/

/-- Either a piece is its code point, or it starts with a backslash. -/
theorem Piece.Fits.text_cons (hp : p.Fits kind next) :
    ∃ x t, p.text = x :: t ∧ x ≠ 0x0A ∧ (x ≠ 0x5C → p = .plain x) := by
  cases p with
  | plain x =>
    refine ⟨x, [], rfl, ?_, fun _ => rfl⟩
    rintro rfl
    cases hp.2.2
  | _ => exact ⟨0x5C, _, rfl, by decide, fun h => absurd rfl h⟩

/-- What a round of reading finds: one piece, then the others. Neither a line feed nor, after a zero, a digit comes
next. -/
theorem Written.round (hw : Written kind (p :: ps)) (hq : quote ≠ 0x0A ∧ Text.isDecimalDigit quote = false)
    (h : st.source.chars.toList.drop c.index = write (p :: ps) ++ quote :: rest) :
    ∃ x t, p.text = x :: t ∧ (x ≠ 0x5C → p = .plain x) ∧ Parts p (write ps ++ quote :: rest) ∧
      st.source.chars.toList.drop c.index = x :: (t ++ (write ps ++ quote :: rest)) ∧
      st.source.chars.toList.drop (p.pass c).index = write ps ++ quote :: rest := by
  obtain ⟨hp, hw⟩ := hw
  obtain ⟨x, t, ht, -, hplain⟩ := hp.text_cons
  have hwrite : write (p :: ps) = p.text ++ write ps := by simp [write]
  rw [hwrite, List.append_assoc] at h
  refine ⟨x, t, ht, hplain, ?_, by rw [h, ht]; rfl, by rw [p.index_pass, ← List.drop_drop, h, List.drop_left]⟩
  cases ps with
  | nil => exact ⟨quote, rest, rfl, hq.1, fun _ => hq.2⟩
  | cons p' ps =>
    obtain ⟨y, u, hu, hy, -⟩ := hw.1.text_cons
    have hwrite : write (p' :: ps) = y :: (u ++ write ps) := by simp [write, hu]
    rw [hwrite] at hp ⊢
    refine ⟨y, u ++ write ps ++ quote :: rest, rfl, hy, ?_⟩
    rintro rfl
    exact hp.elim (fun h => h.2 y rfl) fun h => absurd h.1 (by decide)

/-- The cursor behind pieces and the quote after them. -/
def behind (c : Cursor) (ps : List Piece) : Cursor :=
  let d := ps.foldl Piece.pass c
  { d with index := d.index + 1 }

theorem stringTail_reads (hq : quote = 0x27 ∨ quote = 0x22) (hk : kind quote = false)
    (hw : Written kind ps) (hn : ps.length < n) (h : st.source.chars.toList.drop c.index = write ps ++ quote :: rest) :
    Gives E st c (stringTail quote n) fun r d => r = some (meaning ps, false) ∧ d = behind c ps := by
  have hq' : quote ≠ 0x5C ∧ quote ≠ 0x0A ∧ Text.isDecimalDigit quote = false := by
    rcases hq with rfl | rfl <;> decide
  induction ps generalizing c n with
  | nil =>
    obtain ⟨n, rfl⟩ := Nat.exists_eq_add_one_of_ne_zero (Nat.ne_of_gt hn)
    exact .ongoing h <| .taken (Source.at?_of_drop h) <| .pos (by simp) <| .pure ⟨rfl, rfl⟩
  | cons p ps ih =>
    obtain ⟨n, rfl⟩ := Nat.exists_eq_add_one_of_ne_zero (Nat.ne_of_gt (Nat.zero_lt_of_lt hn))
    obtain ⟨x, t, ht, hplain, hparts, h, hrest⟩ := hw.round hq'.2 h
    replace ih := ih (c := p.pass c) hw.2 (Nat.lt_of_succ_lt_succ hn) hrest
    refine .ongoing h <| .taken (Source.at?_of_drop h) ?_
    by_cases hb : x = 0x5C
    · subst hb
      refine .neg (by simpa using hq'.1.symm) <| .pos rfl <| .bind (stringEscape_reads hw.1 ht hparts h) ?_
      rintro _ _ ⟨rfl, rfl⟩
      refine .bind ih ?_
      rintro _ _ ⟨rfl, rfl⟩
      exact .pure ⟨rfl, rfl⟩
    · obtain rfl := hplain hb
      obtain ⟨hx, -, hl⟩ := hw.1
      have hne : x ≠ quote := by rintro rfl; exact absurd (hk.symm.trans hx) (by decide)
      refine .neg (by simpa using hne) <| .neg (by simpa using hb) <| .neg (by simp [hl]) <| .bind ih ?_
      rintro _ _ ⟨rfl, rfl⟩
      exact .pure ⟨rfl, rfl⟩

theorem templateTail_reads (hk : kind 0x60 = false ∧ kind 0x24 = false) (hw : Written kind ps) (hn : ps.length < n)
    (h : st.source.chars.toList.drop c.index = write ps ++ 0x60 :: rest) :
    Gives E st c (templateTail n) fun r d => r = some (meaning ps, true) ∧ d = behind c ps := by
  induction ps generalizing c n with
  | nil =>
    obtain ⟨n, rfl⟩ := Nat.exists_eq_add_one_of_ne_zero (Nat.ne_of_gt hn)
    exact .ongoing h <| .taken (Source.at?_of_drop h) <| .pos rfl <| .pure ⟨rfl, rfl⟩
  | cons p ps ih =>
    obtain ⟨n, rfl⟩ := Nat.exists_eq_add_one_of_ne_zero (Nat.ne_of_gt (Nat.zero_lt_of_lt hn))
    obtain ⟨x, t, ht, hplain, hparts, h, hrest⟩ := hw.round (by decide) h
    replace ih := ih (c := p.pass c) hw.2 (Nat.lt_of_succ_lt_succ hn) hrest
    refine .ongoing h <| .taken (Source.at?_of_drop h) ?_
    extract_lets more
    have hmore : Gives E st (p.pass c) (more p.value) fun r d =>
        r = some (meaning (p :: ps), true) ∧ d = behind c (p :: ps) := by
      refine .bind ih ?_
      rintro _ _ ⟨rfl, rfl⟩
      exact .pure ⟨rfl, rfl⟩
    by_cases hb : x = 0x5C
    · subst hb
      refine .neg (by decide) <| .neg (by decide) <| .pos rfl <| .bind (templateEscape_reads hw.1 ht hparts h) ?_
      rintro _ _ ⟨rfl, rfl⟩
      exact hmore
    · obtain rfl := hplain hb
      obtain ⟨hx, -, hl⟩ := hw.1
      have hne {y : Nat} (hy : kind y = false) : ¬ (x == y) = true := by
        rw [beq_iff_eq]
        rintro rfl
        exact absurd (hy.symm.trans hx) (by decide)
      exact .neg (hne hk.1) <| .neg (hne hk.2) <| .neg (by simpa using hb) <| .neg (by simp [hl]) hmore

theorem length_le_length_write (hw : Written kind ps) : ps.length ≤ (write ps).length := by
  induction ps with
  | nil => exact Nat.le_refl 0
  | cons p ps ih =>
    obtain ⟨x, t, ht, -⟩ := hw.1.text_cons
    have := ih hw.2
    simp only [write, List.flatMap_cons, List.length_append, List.length_cons, ht] at this ⊢
    omega

theorem string_gives (hq : quote = 0x27 ∨ quote = 0x22) (hk : kind quote = false) (hw : Written kind ps)
    (h : st.source.chars.toList.drop c.index = quote :: (write ps ++ quote :: rest)) :
    Gives E st c string fun t d => t = ⟨.string (meaning ps) false, d.line, d.lineStart, c.index, d.index⟩ ∧
      d = behind { c with index := c.index + 1 } ps := by
  have hfuel : ps.length < st.source.length - (c.index + 1) := by
    have := length_le_length_write hw
    rw [Source.length_of_drop (Source.drop_succ_of_drop h)]
    simp
    omega
  refine .index <| .known (Source.at?_of_drop h) <| .pos (by rcases hq with rfl | rfl <;> decide) <| .advance <| .ahead <|
    .bind (stringTail_reads hq hk hw hfuel (Source.drop_succ_of_drop h)) ?_
  rintro _ _ ⟨rfl, rfl⟩
  exact .token ⟨rfl, rfl⟩

theorem template_gives (hk : kind 0x60 = false ∧ kind 0x24 = false) (hw : Written kind ps)
    (h : st.source.chars.toList.drop c.index = 0x60 :: (write ps ++ 0x60 :: rest)) :
    Gives E st c template fun t d =>
      t = ⟨.template (write ps) (meaning ps) true true, d.line, d.lineStart, c.index, d.index⟩ ∧
        d = behind { c with index := c.index + 1 } ps := by
  have hdrop := Source.drop_succ_of_drop h
  have hfuel : ps.length < st.source.length - (c.index + 1) := by
    have := length_le_length_write hw
    rw [Source.length_of_drop hdrop]
    simp
    omega
  refine .index <| .known (Source.at?_of_drop h) <| .advance <| .ahead <| .bind (templateTail_reads hk hw hfuel hdrop) ?_
  rintro _ _ ⟨rfl, rfl⟩
  refine .pos rfl <| .index <| .first rfl <| .token ⟨?_, rfl⟩
  have hraw : st.source.slice (c.index + 1) ((behind { c with index := c.index + 1 } ps).index - 1) = write ps := by
    obtain ⟨i, hi⟩ := foldl_pass { c with index := c.index + 1 } ps
    simp only [behind, hi, Nat.add_sub_cancel]
    rw [Source.slice_of_drop hdrop (by simp), List.take_left]
  simpa using hraw

/-- However a text is written as a string, the string is read back as the text, and nothing of it is octal. The scan
ends behind the closing quote, and counts the lines that the string breaks. -/
theorem string_reads (st : Settings) (c : Cursor) (quote : Nat) (ps : List Piece) (rest : Text)
    (hq : quote = 0x27 ∨ quote = 0x22) (hw : Written (· != quote) ps)
    (h : st.source.chars.toList.drop c.index = quote :: (write ps ++ quote :: rest)) :
    ∃ d, Returns string st c ⟨.string (meaning ps) false, d.line, d.lineStart, c.index, d.index⟩ d ∧
      d = { c with toPlace := ⟨c.index + (write ps).length + 2, c.line + lineBreaks ps, d.lineStart⟩ } := by
  obtain ⟨_, d, hr, rfl, rfl⟩ := (string_gives hq (by simp) hw h).total
  obtain ⟨i, hi⟩ := foldl_pass { c with index := c.index + 1 } ps
  refine ⟨_, hr, ?_⟩
  simp [behind, hi, Nat.add_assoc, Nat.add_comm 1]

/-- A letter, the same letter by three kinds of digits, a line break in two characters, an escape of one letter and a
line break before the closing quote. -/
theorem string_reads_mixed :
    let ps : List Piece := [.plain 0x41, .digits 0x78 [0x34, 0x31], .digits 0x75 [0x30, 0x30, 0x34, 0x31],
      .braced [0x30, 0x30, 0x30, 0x34, 0x31], .lineBreak [0x0D, 0x0A], .escape 0x6E, .lineBreak [0x2028]]
    let st : Settings := { source := .ofText (0x27 :: (write ps ++ [0x27, 0x3B])) }
    let c : Cursor := { line := 1 }
    ∃ d, Returns string st c ⟨.string [0x41, 0x41, 0x41, 0x41, 0x0A] false, d.line, d.lineStart, 0, d.index⟩ d ∧
      d = { c with toPlace := ⟨29, 3, d.lineStart⟩ } := by
  intro ps st c
  exact string_reads st c 0x27 ps [0x3B] (.inl rfl) (by decide +zetaReduce) rfl

/-- Code points that stand for themselves both between quotes and between backquotes. -/
def isCommon (x : Nat) : Bool := x != 0x27 && x != 0x22 && x != 0x60 && x != 0x24

/-- What is written in the same way as a string and as a template is read as the same text, and both scans end at the
same place. The template keeps what is written, too. -/
theorem string_template_agree (st st' : Settings) (c : Cursor) (quote : Nat) (ps : List Piece) (rest rest' : Text)
    (hq : quote = 0x27 ∨ quote = 0x22) (hw : Written isCommon ps)
    (h : st.source.chars.toList.drop c.index = quote :: (write ps ++ quote :: rest))
    (h' : st'.source.chars.toList.drop c.index = 0x60 :: (write ps ++ 0x60 :: rest')) :
    ∃ d, Returns string st c ⟨.string (meaning ps) false, d.line, d.lineStart, c.index, d.index⟩ d ∧
      Returns template st' c ⟨.template (write ps) (meaning ps) true true, d.line, d.lineStart, c.index, d.index⟩ d ∧
      d = { c with toPlace := ⟨c.index + (write ps).length + 2, c.line + lineBreaks ps, d.lineStart⟩ } := by
  have hk : isCommon quote = false := by rcases hq with rfl | rfl <;> rfl
  obtain ⟨_, d, hs, rfl, rfl⟩ := (string_gives hq hk hw h).total
  obtain ⟨_, d, ht, rfl, rfl⟩ := (template_gives (by decide) hw h').total
  obtain ⟨i, hi⟩ := foldl_pass { c with index := c.index + 1 } ps
  refine ⟨_, hs, ht, ?_⟩
  simp [behind, hi, Nat.add_assoc, Nat.add_comm 1]

/-- A zero before a letter, an escaped dollar sign before a brace, and a broken line. -/
theorem string_template_agree_dollar :
    let ps : List Piece := [.escape 0x30, .plain 0x61, .escape 0x24, .plain 0x7B, .lineBreak [0x0D], .escape 0x60]
    let st : Settings := { source := .ofText (0x22 :: (write ps ++ [0x22])) }
    let st' : Settings := { source := .ofText (0x60 :: (write ps ++ [0x60])) }
    let c : Cursor := { line := 1 }
    ∃ d, Returns string st c ⟨.string [0, 0x61, 0x24, 0x7B, 0x60] false, d.line, d.lineStart, 0, d.index⟩ d ∧
      Returns template st' c ⟨.template (write ps) [0, 0x61, 0x24, 0x7B, 0x60] true true, d.line, d.lineStart, 0, d.index⟩ d ∧
      d = { c with toPlace := ⟨12, 2, d.lineStart⟩ } := by
  intro ps st st' c
  exact string_template_agree st st' c 0x22 ps [] [] (.inr rfl) (by decide +zetaReduce) rfl rfl

end ScriptTree.Scan
