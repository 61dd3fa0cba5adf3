import ScriptTree.Proofs.Parse.Binary

/-! # Shorthand properties

An object of names alone is read as it is written down, but for one that ends with `async`: after this word a closing
brace is taken for the key of a method. -/

namespace ScriptTree.Parse

open Scan (Word)

variable {src : Source} {ws rest : List Word} {g : Grammar} {n : Node} {t : Text}

/-- A name that is neither a keyword nor reserved. -/
structure PlainName where
  text : Text
  unescaped : Scan.Unescaped text
  isName : Scan.nameLexeme text = .identifier text

def openBrace : Word := .brace 0x7B "\x7b"
def closeBrace : Word := .brace 0x7D "\x7d"

namespace PlainName

def word (x : PlainName) : Word := .name x.text x.unescaped

/-- The property that a name alone stands for. -/
def property (x : PlainName) : Node :=
  .bare (.property .init (.bare (.identifier x.text)) false (.bare (.identifier x.text)) false true)

def object (l : List PlainName) : Node := .bare (.objectExpression (l.map property))

/-- The names with commas between them, up to the brace. -/
def words (rest : List Word) : List PlainName → List Word
  | [] => closeBrace :: rest
  | [x] => x.word :: closeBrace :: rest
  | x :: y :: l => x.word :: .mark "," :: words rest (y :: l)

/-- The text of an object of names. -/
def print (l : List PlainName) : Text :=
  Text.ofString "(\x7b" ++ (Text.join (Text.ofString ", ") (l.map text) ++ Text.ofString "\x7d)")

/-- The last of the names is not `async`. -/
def Ordinary (l : List PlainName) : Prop := ∀ x ∈ l.getLast?, x.text.is "async" = false

theorem lays_words (l : List PlainName) (h : Lays rest t) :
    Lays (words rest l) (Text.join (Text.ofString ", ") (l.map text) ++ (0x7D :: t)) := by
  have hclose : Lays (closeBrace :: rest) (0x7D :: t) := .cons 0 trivial h
  have hname (x : PlainName) {y : Nat} {ws : List Word} {t : Text} (hy : Text.isIdentifierPart y = false ∧ y ≠ 0x5C ∧
      Text.isSurrogate y = false) (h : Lays ws (y :: t)) : Lays (x.word :: ws) (x.text ++ y :: t) :=
    .cons (w := x.word) 0 (by rintro _ ⟨⟩; exact hy) h
  induction l with
  | nil => exact hclose
  | cons x l ih =>
    cases l with
    | nil => simpa [Text.join, List.intercalate, words] using hname x (by decide) hclose
    | cons y l =>
      have htext : Text.join (Text.ofString ", ") ((x :: y :: l).map text) =
          x.text ++ (0x2C :: 0x20 :: Text.join (Text.ofString ", ") ((y :: l).map text)) := rfl
      obtain ⟨w, ws, hw⟩ : ∃ w ws, words rest (y :: l) = w :: ws := by cases l <;> exact ⟨_, _, rfl⟩
      rw [hw] at ih
      have hcomma := Lays.cons (w := .mark ",") 0 (Scan.markEnds_single (by decide)) ih.blank
      rw [htext, words, hw, List.append_assoc]
      exact hname x (by decide) hcomma

end PlainName

open PlainName (words Ordinary object)

variable {l : List PlainName}

/-- After a name alone a comma comes or the brace, which may not come after `async`. -/
def Closes (x : Text) (l : Lexeme) : Prop := l = .punctuator "," ∨ l = .punctuator "\x7d" ∧ x.is "async" = false

theorem property_delivers {x : PlainName} {b : Bool} (h : Closes x.text (headLexeme rest)) :
    Delivers src (property g b) (x.property, b) (x.word :: rest) rest := by
  rintro c ⟨t, b, d, rfl⟩
  have hw : x.word.lexeme = .identifier x.text := x.isName
  refine .mark fun m => .lookahead fun t ht => ?_
  rw [headLexeme, hw] at ht
  simp only [propertyHead, ht, bind_assoc]
  refine .skip rfl ?_
  simp only [reaches_sees]
  refine .get fun s hs => ?_
  rcases h with h | ⟨h, hx⟩
  · simp [h, hs, Lexeme.isMark, startsPropertyName, propertyValue, ht, Lexeme.isName, -bind_pure_comp]
    exact .pure ⟨rfl, ⟨_, _, _, rfl⟩, rfl⟩
  · simp [h, hx, hs, Lexeme.isMark, startsPropertyName, propertyValue, ht, Lexeme.isName, -bind_pure_comp]
    exact .pure ⟨rfl, ⟨_, _, _, rfl⟩, rfl⟩

def objectRound (g : Grammar) : List Node × Bool → Parse (Round (List Node × Bool) (List Node)) :=
  fun (found, hasProto) => do
    if ← sees "\x7d" then return .done found
    let (n, hasProto) ← if ← sees "..." then do pure (← spread g, hasProto) else property g hasProto
    unless ← sees "\x7d" do expectComma
    return .again (n :: found, hasProto)

theorem objectRound_delivers (hl : Ordinary l) {found : List Node} {k : Nat} (hk : (words rest l).length < k) :
    Delivers src (loopFor (objectRound g) k (found, false)) ((l.map PlainName.property).reverseAux found)
      (words rest l) (closeBrace :: rest) := by
  have hb : closeBrace.lexeme = .punctuator "\x7d" := rfl
  induction l generalizing found k with
  | nil =>
    obtain ⟨k, rfl⟩ := Nat.exists_eq_add_of_le' (Nat.one_le_of_lt hk)
    intro c hc
    simp [loopFor, objectRound, words, headLexeme, hb, Lexeme.isMark]
    exact .pure ⟨rfl, hc, rfl⟩
  | cons x l ih =>
    obtain ⟨k, rfl⟩ := Nat.exists_eq_add_of_le' (Nat.one_le_of_lt hk)
    have hw : x.word.lexeme = .identifier x.text := x.isName
    have hp {ms : List Word} (h : Closes x.text (headLexeme ms)) :
        Delivers src (property g false) (x.property, false) (x.word :: ms) ms := property_delivers h
    intro c hc
    cases l with
    | nil =>
      simp [loopFor, objectRound, words, headLexeme, hw, Lexeme.isMark, -bind_pure_comp]
      refine (hp (.inr ⟨rfl, hl x rfl⟩)).seq hc fun c' hc' => ?_
      simp [headLexeme, hb, Lexeme.isMark, -bind_pure_comp]
      exact ih (by simp [Ordinary]) (by simpa [words] using hk) c' hc'
    | cons y l =>
      simp [loopFor, objectRound, words, headLexeme, hw, Lexeme.isMark, -bind_pure_comp]
      refine (hp (.inl rfl)).seq hc ?_
      rintro c' ⟨t, b, d, rfl⟩
      simp [headLexeme, Word.mark, Lexeme.isMark, expectComma, -bind_pure_comp]
      refine .expect rfl rfl ?_
      have hk' : (words rest (y :: l)).length < k := by simp [words] at hk; omega
      simpa using ih hl hk' _ ⟨_, _, _, rfl⟩

theorem operand_object (hl : Ordinary l) : Delivers src (operand g) (object l) (openBrace :: words rest l) rest := by
  have hloop : Delivers src (loop ([], false) (objectRound g)) (l.map PlainName.property).reverse (words rest l)
      (closeBrace :: rest) := fun c hc => .loop fun k hk => objectRound_delivers hl hk c hc
  have ho : Delivers src (objectLiteral g) (object l) (openBrace :: words rest l) rest := by
    rintro c ⟨t, b, d, rfl⟩
    refine .mark fun m => .expect rfl rfl <| hloop.seq ⟨_, _, _, rfl⟩ ?_
    rintro c ⟨t, b, d, rfl⟩
    refine .expect rfl rfl ?_
    simp
    exact .pure ⟨rfl, ⟨_, _, _, rfl⟩, rfl⟩
  rintro c ⟨t, b, d, rfl⟩
  simp only [operand, plainOperand, reaches_options, Bool.false_and]
  simp
  refine .mark fun m => .lookahead fun t ht => ?_
  rw [ht]
  exact ho.inherit _ ⟨_, _, _, rfl⟩

/-- After the lexeme an operand is a whole expression. -/
def Lone (l : Lexeme) : Prop :=
  Stops l ∧ (∀ m ∈ "**" :: "?" :: "=>" :: assignmentOperators, l.isMark m = false) ∧ precedence true l = 0

instance (l : Lexeme) : Decidable (Lone l) := by unfold Lone; infer_instance

theorem Lone.assignment {k : Nat} (hr : Lone (headLexeme rest)) (hs : Opens (headLexeme ws))
    (hn : ∀ a ps, n.shape ≠ .arrowParameters a ps) (hlt : rest.length < ws.length)
    (h : Delivers src (operand (grammar k)) n ws rest) : Delivers src (assignment (grammar (k + 3))) n ws rest := by
  obtain ⟨hstops, hmarks, hprec⟩ := hr
  refine assignment_delivers hs hn (fun m hm => hmarks m (List.mem_cons_of_mem _ hm)) (Shifts.binary ?_)
  exact ⟨n, rest, power_delivers hs hstops (hmarks "**" (List.mem_cons_self ..)) h, hlt, fun t => .done hprec rfl⟩

theorem lays_print (l : List PlainName) : Lays (.mark "(" :: openBrace :: words [.mark ")"] l) (PlainName.print l) := by
  have hleft : Text.ofString "(\x7b" = Text.ofString "(" ++ [0x7B] := by decide
  have hright : Text.ofString "\x7d)" = 0x7D :: Text.ofString ")" := by decide
  have hend : Lays [.mark ")"] (Text.ofString ")") := by
    have := Lays.cons (w := .mark ")") 0 (Scan.markEnds_single (by decide)) .nil
    rwa [List.append_nil] at this
  rw [PlainName.print, hleft, hright, List.append_assoc]
  exact .cons (w := .mark "(") 0 (Scan.markEnds_single (by decide)) <|
    .cons (w := openBrace) 0 trivial <| PlainName.lays_words l hend

theorem object_delivers {k : Nat} (hl : Ordinary l) :
    Delivers src (assignment (grammar (k + 3))) (object l) (openBrace :: words [.mark ")"] l) [.mark ")"] := by
  refine Lone.assignment (by decide) (.inr (.inl rfl)) (by rintro a ps ⟨⟩) ?_ (operand_object hl)
  rcases l with _ | ⟨x, _ | ⟨y, l⟩⟩ <;> simp [words]

/-- Names in braces are the shorthand properties of an object, if the last of them is not `async`. -/
theorem parse_shorthand (l : List PlainName) (hl : ∀ x ∈ l.getLast?, x.text.is "async" = false) :
    ∃ p, parse (PlainName.print l) = .ok p ∧ p.root = .bare (.program false [.bare (.expressionStatement
      (.bare (.objectExpression (l.map PlainName.property))))]) := by
  refine parse_expression (N := 7) (lays_print l) ⟨.inl rfl, by simp [headLexeme, Word.mark]⟩ fun src k hk => ?_
  obtain ⟨k, rfl⟩ := Nat.exists_eq_add_of_le' hk
  refine Lone.assignment (by decide) (.inl rfl) (by rintro a ps ⟨⟩) (by simp) ?_
  exact operand_group (g := grammar (k + 4)) (e := .mark ")") rfl rfl (.inr (.inl rfl)) rfl (object_delivers hl)

/-- A word as a name. -/
def PlainName.ofString (w : String) (h : Scan.nameLexeme (Text.ofString w) = .identifier (Text.ofString w))
    (hs : (Text.ofString w).head?.any Text.isIdentifierStart = true)
    (hp : ∀ x ∈ Text.ofString w, Text.isIdentifierPart x = true ∧ x ≠ 0x5C ∧ Text.isSurrogate x = false) : PlainName where
  text := Text.ofString w
  unescaped := by
    refine ⟨?_, fun x hx => (hp x hx).1, fun x hx => (hp x hx).2⟩
    cases hw : Text.ofString w <;> simp_all
  isName := h

/-- The names `async` and `get`, the first of them before a comma. -/
theorem parse_shorthand_async :
    let l : List PlainName := [.ofString "async" (by decide) (by decide +kernel) (by decide +kernel),
      .ofString "get" (by decide) (by decide +kernel) (by decide +kernel)]
    PlainName.print l = Text.ofString "(\x7basync, get\x7d)" ∧ ∃ p, parse (PlainName.print l) = .ok p ∧ p.root =
      .bare (.program false [.bare (.expressionStatement (.bare (.objectExpression (l.map PlainName.property))))]) :=
  ⟨rfl, parse_shorthand _ (by decide)⟩

/-- Before the closing brace the name is not read as one. -/
theorem parse_shorthand_last :
    let x : PlainName := .ofString "async" (by decide) (by decide +kernel) (by decide +kernel)
    failure? (parse (PlainName.print [x])) = some (.rejected ⟨7, 1, 8, Text.ofString "Unexpected token \x7d"⟩) := by
  decide +kernel

end ScriptTree.Parse
