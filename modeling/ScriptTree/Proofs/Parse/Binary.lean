import ScriptTree.Proofs.Parse.Ends.Program
import ScriptTree.Proofs.Parse.Reaches

/-! # Operators in a row

A formula of names and binary operators is read as it is written down: an induction over the formula shows what
the stack of operands comes to. -/

namespace ScriptTree.Parse

variable {m : String} {t : Text}

open Scan (Word)

variable {α β : Type} {src : Source} {c : Context} {ws ms rest : List Word} {w : Word} {g : Grammar} {n : Node}

/-- The context of an expression in a script. Only what was read before matters. -/
def Fresh (c : Context) : Prop := ∃ t b d, c = { isTarget := t, isBinding := b, allowStrictDirective := d }

/-- From the words the rule reads a result and leaves the rest. -/
def Delivers (src : Source) (p : Parse α) (a : α) (ws rest : List Word) : Prop :=
  ∀ c, Fresh c → Reaches src p (fun b c' ws' => b = a ∧ Fresh c' ∧ ws' = rest) c ws

theorem Reaches.semicolon {f : Unit → Parse β} {R : β → Context → List Word → Prop} (h : Reaches src (f ()) R c []) :
    Reaches src (semicolon >>= f) R c [] := by
  intro s hs
  have hp : Returns Parse.semicolon ⟨src, {}⟩ s () { s with lastMark := s.startMark } := by
    simp [Parse.semicolon, sees, peek, seesEnd, hs.ahead, hs.sameLine, headLexeme, Lexeme.isMark, and_assoc]
  obtain ⟨b, c', ws', u, h₂, h⟩ := h { s with lastMark := s.startMark } ⟨hs.1, hs.2, hs.3, hs.4, hs.5, hs.6⟩
  exact ⟨b, c', ws', u, hp.seq h₂, h⟩

namespace Delivers

variable {p : Parse α} {f : α → Parse β} {a : α} {R : β → Context → List Word → Prop}

theorem seq (hp : Delivers src p a ws ms) (hc : Fresh c) (h : ∀ c', Fresh c' → Reaches src (f a) R c' ms) :
    Reaches src (p >>= f) R c ws := by
  refine .bind ((hp c hc).imp ?_)
  rintro _ c' _ ⟨rfl, hc', rfl⟩
  exact h c' hc'

theorem inherit (hp : Delivers src p a ws rest) : Delivers src (inherit p) a ws rest := by
  rintro c ⟨t, b, d, rfl⟩
  simp only [Parse.inherit, freshCover, reaches_context, reaches_setContext]
  refine hp.seq ⟨_, _, _, rfl⟩ ?_
  rintro c' ⟨t', b', d', rfl⟩
  simp only [reaches_setContext]
  exact .pure ⟨rfl, ⟨_, _, _, rfl⟩, rfl⟩

theorem isolate (hp : Delivers src p a ws rest) : Delivers src (isolate p) a ws rest := by
  rintro c ⟨t, b, d, rfl⟩
  simp only [Parse.isolate, freshCover, reaches_context, reaches_setContext]
  refine hp.seq ⟨_, _, _, rfl⟩ ?_
  rintro c' ⟨t', b', d', rfl⟩
  simp only [reaches_context, reaches_setContext]
  exact .pure ⟨rfl, ⟨_, _, _, rfl⟩, rfl⟩

end Delivers

/-! ## Operands -/

/-- The lexeme starts an operand: it is a name or opens a group or an object. -/
def Opens (l : Lexeme) : Prop :=
  l = .punctuator "(" ∨ l = .punctuator "\x7b" ∨ ∃ x : Text, l = .identifier x ∧ x.is "async" = false

/-- After the lexeme an operand does not go on. -/
def Stops (l : Lexeme) : Prop :=
  (∀ m ∈ [".", "(", "[", "++", "--"], l.isMark m = false) ∧ l.kindName ≠ "Template"

instance (l : Lexeme) : Decidable (Stops l) := by unfold Stops; infer_instance

theorem Opens.isMark {l : Lexeme} (h : Opens l) (hm : m ≠ "(") (hb : m ≠ "\x7b") : l.isMark m = false := by
  rcases h with rfl | rfl | ⟨x, rfl, -⟩ <;> simp [Lexeme.isMark, hm.symm, hb.symm]

theorem Opens.isWord {l : Lexeme} (h : Opens l) : l.isWord m = false := by
  rcases h with rfl | rfl | ⟨x, rfl, -⟩ <;> simp [Lexeme.isWord]

theorem Opens.isName {l : Lexeme} (h : Opens l) : l.isName "async" = false := by
  rcases h with rfl | rfl | ⟨x, rfl, h⟩
  · rfl
  · rfl
  · exact h

theorem operand_name {x : Text} (hw : w.lexeme = .identifier x) (hx : x.is "async" = false) :
    Delivers src (operand g) (.bare (.identifier x)) (w :: rest) rest := by
  rintro c ⟨t, b, d, rfl⟩
  simp only [operand, plainOperand, reaches_options, Bool.false_and]
  simp
  refine .mark fun m => .lookahead fun t ht => ?_
  rw [ht]
  simp [headLexeme, hw, seesAsyncFunction, Lexeme.isName, hx]
  refine .skip rfl ?_
  simp
  exact .pure ⟨rfl, ⟨_, _, _, rfl⟩, rfl⟩

theorem operand_group (hw : w.lexeme = .punctuator "(") {e : Word} (he : e.lexeme = .punctuator ")")
    (hs : Opens (headLexeme ws)) (hr : (headLexeme rest).isMark "=>" = false)
    (h : Delivers src g.assignment n ws (e :: rest)) : Delivers src (operand g) n (w :: ws) rest := by
  have hg : Delivers src (group g) n (w :: ws) rest := by
    rintro c ⟨t, b, d, rfl⟩
    refine .expect rfl hw ?_
    simp only [reaches_sees, hs.isMark (m := ")") (by decide) (by decide), Bool.false_eq_true, if_false]
    refine .lookahead fun t ht => ?_
    simp only [reaches_sees, hs.isMark (m := "...") (by decide) (by decide), Bool.false_eq_true, if_false, reaches_setContext]
    refine h.inherit.seq ⟨_, _, _, rfl⟩ ?_
    rintro c' ⟨t', b', d', rfl⟩
    simp only [reaches_sees, headLexeme, he, Lexeme.isMark, groupEnd]
    refine .expect rfl he ?_
    simp [hr, -bind_pure_comp]
    exact .pure ⟨rfl, ⟨_, _, _, rfl⟩, rfl⟩
  rintro c ⟨t, b, d, rfl⟩
  simp only [operand, plainOperand, reaches_options, Bool.false_and]
  simp
  refine .mark fun m => .lookahead fun t ht => ?_
  rw [ht]
  simp [headLexeme, hw]
  refine Delivers.inherit hg _ ⟨_, _, _, rfl⟩

theorem call_delivers (hs : Opens (headLexeme ws)) (hr : Stops (headLexeme rest))
    (h : Delivers src (operand g) n ws rest) : Delivers src (call g) n ws rest := by
  have hb : Delivers src (newOrOperand g) n ws rest := by
    intro c hc
    simp only [newOrOperand, reaches_seesWord, hs.isWord]
    exact h.inherit c hc
  rintro c ⟨t, b, d, rfl⟩
  refine .lookahead fun t ht => ?_
  simp only [reaches_seesName, reaches_context, reaches_setContext, callBase, reaches_seesWord, hs.isWord, hs.isName,
    bind_assoc, Bool.false_and, Bool.false_eq_true, if_false]
  refine hb.seq ⟨_, _, _, rfl⟩ ?_
  rintro c' ⟨t', b', d', rfl⟩
  refine .bind (.loop fun k hk => ?_)
  obtain ⟨k, rfl⟩ : ∃ m, k = m + 1 := ⟨k - 1, by omega⟩
  have h₁ := hr.1 "." (by decide)
  have h₂ := hr.1 "(" (by decide)
  have h₃ := hr.1 "[" (by decide)
  simp [loopFor, h₁, h₂, h₃, seesTemplate, -bind_pure_comp]
  split
  · rename_i raw cooked head tail hl
    exact absurd (by rw [hl]; rfl) hr.2
  · simp [-bind_pure_comp]
    refine .pure ?_
    simp [-bind_pure_comp]
    exact .pure ⟨rfl, ⟨_, _, _, rfl⟩, rfl⟩

theorem unary_delivers {g' : Grammar} (hg : g.call = call g') (hs : Opens (headLexeme ws))
    (hr : Stops (headLexeme rest)) (h : Delivers src (operand g') n ws rest) : Delivers src (unary g) n ws rest := by
  have hu : Delivers src (update g) n ws rest := by
    intro c hc
    unfold update
    refine .lookahead fun t ht => ?_
    simp [hs.isMark]
    rw [hg]
    refine (call_delivers hs hr h).inherit.seq hc fun c' hc' => .get fun s hs => ?_
    simp [hs, hr.1]
    exact .pure ⟨rfl, hc', rfl⟩
  rintro c ⟨t, b, d, rfl⟩
  unfold unary
  simp [hs.isMark, hs.isWord]
  exact hu _ ⟨_, _, _, rfl⟩

/-! ## The stack of operands -/

/-- A round over the operators in a row. -/
def binaryRound (g : Grammar) : Operand × List Pending → Parse (Round (Operand × List Pending) Node) :=
  fun (right, pending) => do
    let least := precedence (← context).allowIn (← peek)
    if least == 0 then return .done (← reduceAll right pending)
    let (left, pending) ← reduce least right pending
    let t ← next
    let token ← lookahead
    let n ← isolate g.power
    return .again (⟨token, n⟩, ⟨left, operatorText t.lexeme, least⟩ :: pending)

/-- What an operand and the one that waits before it come to. -/
def joined (p : Pending) (r : Operand) : Operand :=
  ⟨p.left.token, .bare (.binaryExpression p.operator p.left.node r.node)⟩

/-- From an operand and those that wait, the operators in a row lead to a node. -/
inductive Reduces (src : Source) (g : Grammar) (n : Node) (rest : List Word) :
    Operand → List Pending → List Word → Prop
  | done {r : Operand} (h : precedence true (headLexeme rest) = 0) (hn : r.node = n) : Reduces src g n rest r [] rest
  | join {r : Operand} {p : Pending} {st : List Pending} {ws : List Word}
      (h : precedence true (headLexeme ws) ≤ p.precedence) : Reduces src g n rest (joined p r) st ws →
      Reduces src g n rest r (p :: st) ws
  | shift {r : Operand} {st : List Pending} {w : Word} {ws ms : List Word} {e : Node}
      (h0 : precedence true w.lexeme ≠ 0) (hst : ∀ p ∈ st.head?, p.precedence < precedence true w.lexeme)
      (he : Delivers src g.power e ws ms) (hl : ms.length < ws.length) :
      (∀ t, Reduces src g n rest ⟨t, e⟩ (⟨r, operatorText w.lexeme, precedence true w.lexeme⟩ :: st) ms) →
      Reduces src g n rest r st (w :: ws)

variable {r : Operand} {st : List Pending} {e : Node}

theorem Reduces.loop (h : Reduces src g n rest r st ws) {k : Nat} (hk : ws.length < k) :
    Delivers src (loopFor (binaryRound g) k (r, st)) n ws rest := by
  obtain ⟨k, rfl⟩ : ∃ m, k = m + 1 := ⟨k - 1, by omega⟩
  induction h generalizing k with
  | done h0 hn =>
    rintro c ⟨t, b, d, rfl⟩
    simp [loopFor, binaryRound, h0, reduceAll]
    exact .pure ⟨hn, ⟨_, _, _, rfl⟩, rfl⟩
  | @join r p st ws hp _ ih =>
    -- the next round joins the two operands first
    rintro c ⟨t, b, d, rfl⟩
    have := ih k hk _ ⟨t, b, d, rfl⟩
    simp only [loopFor, binaryRound, bind_assoc, reaches_context, reaches_peek] at this ⊢
    split at this
    · rename_i h0
      simp only [h0, if_true, reduceAll, bind_assoc, reaches_finish]
      simpa [joined] using this
    · rename_i h0
      simp only [h0, Bool.false_eq_true, if_false, reduce, hp, if_true, bind_assoc, reaches_finish]
      simpa [joined] using this
  | @shift r st w ws ms e h0 hst he hl _ ih =>
    rintro c ⟨t, b, d, rfl⟩
    have hr : reduce (precedence true w.lexeme) r st = pure (r, st) := by
      cases st with
      | nil => rfl
      | cons p st => simp [reduce, Nat.not_le.mpr (hst p rfl)]
    simp [loopFor, binaryRound, headLexeme, h0, hr, -bind_pure_comp]
    refine .next rfl fun t ht => .lookahead fun t' _ => he.isolate.seq ⟨_, _, _, rfl⟩ fun c' hc' => ?_
    obtain ⟨k, rfl⟩ : ∃ m, k = m + 1 := ⟨k - 1, by simp at hk; omega⟩
    simp only [ht]
    exact ih t' k (by simp at hk; omega) c' hc'

/-- Before an operand, the operators in a row lead to a node. -/
def Shifts (src : Source) (g : Grammar) (n : Node) (rest : List Word) (st : List Pending) (ws : List Word) : Prop :=
  ∃ e ms, Delivers src g.power e ws ms ∧ ms.length < ws.length ∧ ∀ t, Reduces src g n rest ⟨t, e⟩ st ms

/-- The first operand is read before the loop, and so is the second if there is one. -/
theorem Shifts.binary (h : Shifts src g n rest [] ws) : Delivers src (binary g) n ws rest := by
  obtain ⟨e, ms, he, -, hr⟩ := h
  intro c hc
  refine .lookahead fun t _ => he.inherit.seq hc ?_
  rintro c' ⟨t', b', d', rfl⟩
  cases hr t with
  | done h0 hn =>
    simp [h0]
    exact .pure ⟨hn, ⟨_, _, _, rfl⟩, rfl⟩
  | @shift _ _ w ws ms e' h0 _ he' _ h =>
    simp only [reaches_context, reaches_peek]
    rw [if_neg (by simpa [headLexeme] using h0)]
    refine .next rfl fun t ht => ?_
    simp only [onlyValue, reaches_setContext]
    refine .lookahead fun t' _ => he'.isolate.seq ⟨_, _, _, rfl⟩ fun c' hc' => .loop fun k hk => ?_
    rw [ht]
    exact (h t').loop hk c' hc'

/-- The rules between operators in a row and an expression with commas. -/
theorem assignment_delivers (hs : Opens (headLexeme ws)) (hn : ∀ a ps, n.shape ≠ .arrowParameters a ps)
    (hr : ∀ m ∈ "?" :: "=>" :: assignmentOperators, (headLexeme rest).isMark m = false)
    (h : Delivers src (binary g) n ws rest) : Delivers src (assignment g) n ws rest := by
  have hc : Delivers src (conditional g) n ws rest := by
    intro c hc
    refine .lookahead fun t _ => h.inherit.seq hc fun c' hc' => ?_
    simp [hr]
    exact .pure ⟨rfl, hc', rfl⟩
  have ha : arrowKind? n = none := by
    unfold arrowKind?
    split
    · rename_i a ps h
      exact absurd h (hn a ps)
    · rfl
  have he : assignmentOperators.any (headLexeme rest).isMark = false := by
    rw [List.any_eq_false]
    intro m hm
    simp [hr m (by simp [hm])]
  rintro c ⟨t, b, d, rfl⟩
  simp only [assignment, reaches_context, reaches_seesWord, Bool.not_true, Bool.false_and]
  refine .lookahead fun t ht => hc.seq ⟨_, _, _, rfl⟩ fun c' hc' => ?_
  simp only [asyncParameter, seesIdentifier, ht, hs.isName, bind_assoc, Bool.false_and, Bool.false_eq_true, if_false]
  refine .lookahead fun t' _ => ?_
  simp [ha, hr, he]
  exact .pure ⟨rfl, hc', rfl⟩

theorem power_delivers {k : Nat} (hs : Opens (headLexeme ws)) (hr : Stops (headLexeme rest))
    (hp : (headLexeme rest).isMark "**" = false) (h : Delivers src (operand (grammar k)) n ws rest) :
    Delivers src (power (grammar (k + 2))) n ws rest := by
  intro c hc
  refine .lookahead fun t _ => ?_
  refine (unary_delivers (g := grammar (k + 1)) rfl hs hr h).inherit.seq hc fun c' hc' => ?_
  simp [hp]
  exact .pure ⟨rfl, hc', rfl⟩

theorem power_joins {k : Nat} {l r : Node} (hs : Opens (headLexeme ws)) (hw : w.lexeme = .punctuator "**")
    (hl : isUnary l = false) (h : Delivers src (operand (grammar k)) l ws (w :: ms))
    (h' : Delivers src (power (grammar (k + 1))) r ms rest) :
    Delivers src (power (grammar (k + 2))) (.bare (.binaryExpression "**" l r)) ws rest := by
  intro c hc
  refine .lookahead fun t _ => ?_
  refine (unary_delivers (g := grammar (k + 1)) rfl hs (by rw [headLexeme, hw]; decide) h).inherit.seq hc ?_
  rintro c' ⟨t', b', d', rfl⟩
  simp [hl, headLexeme, hw, Lexeme.isMark, -bind_pure_comp]
  refine .skip rfl ?_
  simp only [onlyValue, reaches_setContext]
  refine h'.isolate.seq ⟨_, _, _, rfl⟩ fun c' hc' => ?_
  simp
  exact .pure ⟨rfl, hc', rfl⟩

/-! ## Programs -/

/-- A program of one statement. -/
theorem parse_words {N : Nat} (ht : Lays ws t) (hl : headLexeme ws ≠ .endOfInput)
    (hd : (headLexeme ws).kindName ≠ "String") (h : ∀ src k, N ≤ k → Delivers src (item (grammar k)) n ws []) :
    ∃ p, parse t = .ok p ∧ p.root = .bare (.program false [n]) := by
  obtain ⟨w, ws, rfl⟩ : ∃ w ws', ws = w :: ws' := by
    cases ws with
    | nil => exact absurd rfl hl
    | cons w ws => exact ⟨w, ws, rfl⟩
  let src := Source.ofText t
  obtain ⟨M, hM, hM'⟩ : ∃ M, N ≤ M ∧ 8 * t.length + 8 ≤ M := ⟨N + (8 * t.length + 8), by omega, by omega⟩
  have hrest : Reaches src (do
      let isModule := (← options).isModule
      if isModule then setContext fun c => { c with strict := true, isModule := true }
      let start ← startMark
      let directives ← prologue (grammar (M + 1))
      let items ← until' seesEnd (grammar (M + 1)).item
      finish start (.program isModule (directives ++ items))) (fun a _ _ => a = .bare (.program false [n])) {}
      (w :: ws) := by
    simp only [reaches_options, Bool.false_eq_true, if_false]
    refine .mark fun m => .bind ?_
    -- no directive
    refine .bind (.loop fun k hk => ?_)
    obtain ⟨k, rfl⟩ := Nat.exists_eq_add_of_le' (show 1 ≤ k by omega)
    simp only [loopFor, bind_assoc]
    refine .lookahead fun t ht => ?_
    rw [ht]
    split
    · rename_i value octal hv
      exact absurd (by rw [hv]; rfl) hd
    simp only [pure_bind]
    refine .pure (.pure (.bind (.bind (.loop fun k hk => ?_))))
    -- one statement, and then the end
    obtain ⟨k, rfl⟩ := Nat.exists_eq_add_of_le' (show 2 ≤ k by simp at hk; omega)
    have hl' : (headLexeme (w :: ws) == .endOfInput) = false := by simpa using hl
    simp only [loopFor, bind_assoc, reaches_seesEnd, hl', Bool.false_eq_true, if_false]
    refine (h src M hM).seq ⟨_, _, _, rfl⟩ fun c' hc' => ?_
    simp [headLexeme]
    exact .pure (.pure (by simpa using .pure rfl))
  have hrun : ∃ s, outcomeTo (M + 1) t {} = .ok (.bare (.program false [n])) s := by
    obtain ⟨s₁, h₁, hs₁⟩ := next_lays src (.start src) (w :: ws) ht rfl (by simp [State.start, Scan.start]) rfl
    obtain ⟨a, _, _, s, h₂, rfl, -⟩ := hrest { s₁ with lastMark := ⟨s₁.cursor.index, s₁.cursor.line,
      s₁.cursor.index - s₁.cursor.lineStart⟩ } ⟨hs₁.1, hs₁.2, hs₁.3, hs₁.4, hs₁.5, hs₁.6⟩
    exact ⟨s, Returns.seq (h₁.seq rfl) (.seq rfl (.seq rfl h₂))⟩
  obtain ⟨s, hs⟩ := hrun
  rw [outcomeTo_eq (by omega)] at hs
  exact ⟨_, parse_eq_ok_iff.mpr ⟨_, s, hs, rfl⟩, rfl⟩

/-- The lexeme starts a statement that is an expression. -/
def Leading (l : Lexeme) : Prop := Opens l ∧ l ≠ .punctuator "\x7b"

theorem statement_delivers {k : Nat} (hs : Leading (headLexeme ws))
    (h : Delivers src (assignment (grammar k)) n ws []) :
    Delivers src (statement (grammar (k + 1))) (.bare (.expressionStatement n)) ws [] := by
  have he : Delivers src (expression (grammar (k + 1))) n ws [] := by
    intro c hc
    unfold expression
    refine .lookahead fun t _ => h.isolate.seq hc fun c' hc' => ?_
    simp [headLexeme, Lexeme.isMark]
    exact .pure ⟨rfl, hc', rfl⟩
  have hend {c : Context} (hc : Fresh c) (m : Mark) : Reaches src (do
      semicolon
      finish m (.expressionStatement n)) (fun b c' ws' => b = .bare (.expressionStatement n) ∧ Fresh c' ∧ ws' = [])
      c [] := by
    refine .semicolon ?_
    simp only [reaches_finish_last]
    exact .pure ⟨rfl, hc, rfl⟩
  intro c hc
  unfold statement
  rw [reaches_peek]
  obtain ⟨h | h | ⟨x, h, hx⟩, hb⟩ := hs
  · rw [h]
    exact .mark fun m => he.seq hc fun c' hc' => hend hc' m
  · exact absurd h hb
  · rw [h]
    simp only [seesAsyncFunction, bind_assoc, reaches_seesName, h, Lexeme.isName, hx, Bool.not_false, if_true, pure_bind,
      Bool.false_eq_true, if_false]
    refine .mark fun m => he.seq hc fun c' hc' => ?_
    split
    · simp only [headLexeme, Lexeme.isMark, reaches_sees, Bool.false_eq_true, if_false]
      exact hend hc' m
    · exact hend hc' m

/-- A program of one expression. -/
theorem parse_expression {N : Nat} (ht : Lays ws t) (hs : Leading (headLexeme ws))
    (h : ∀ src k, N ≤ k → Delivers src (assignment (grammar k)) n ws []) :
    ∃ p, parse t = .ok p ∧ p.root = .bare (.program false [.bare (.expressionStatement n)]) := by
  refine parse_words (N := N + 2) ht ?_ ?_ fun src k hk => ?_
  · obtain ⟨h | h | ⟨x, h, -⟩, -⟩ := hs <;> rw [h] <;> simp
  · obtain ⟨h | h | ⟨x, h, -⟩, -⟩ := hs <;> rw [h] <;> simp [Lexeme.kindName]
  · obtain ⟨k, rfl⟩ := Nat.exists_eq_add_of_le' (show 2 ≤ k by omega)
    rintro c ⟨t, b, d, rfl⟩
    unfold item
    rw [reaches_setContext]
    refine .lookahead fun t ht => ?_
    have hd := statement_delivers hs (h src k (by omega)) _ ⟨true, true, d, rfl⟩
    obtain ⟨he | he | ⟨x, he, -⟩, hb⟩ := hs
    · rw [ht, he]; exact hd
    · exact absurd he hb
    · rw [ht, he]; exact hd

/-! ## Formulas -/

/-- The binary operators by how tightly they bind, the loosest first. -/
def levels : List (List String) :=
  [["||"], ["&&"], ["|"], ["^"], ["&"], ["==", "!=", "===", "!=="], ["<", ">", "<=", ">=", "instanceof", "in"],
   ["<<", ">>", ">>>"], ["+", "-"], ["*", "/", "%"], ["**"]]

namespace Operator

def level (op : String) : Nat := levels.findIdx fun l => l.contains op

def toRight (op : String) : Bool := op == "**"

def lexeme (op : String) : Lexeme := if op ∈ ["in", "instanceof"] then .keyword op else .punctuator op

/-- How tightly an operator binds in a row, by its level. -/
def rank (level : Nat) : Nat := if level < 9 then level + 1 else level + 2

theorem facts : ∀ op ∈ levels.flatten, Stops (lexeme op) ∧ (lexeme op).isMark "=>" = false ∧
    operatorText (lexeme op) = op ∧
    if toRight op then level op = 10 ∧ lexeme op = .punctuator "**"
    else (lexeme op).isMark "**" = false ∧ level op < 10 ∧ precedence true (lexeme op) = rank (level op) := by
  decide

theorem solid_writes {op : String} (h : op ∈ levels.flatten) :
    (∀ {rest}, Scan.Apart rest → Scan.Solid (Text.ofString op ++ rest)) ∧
      Scan.Writes Scan.Apart (Text.ofString op) (lexeme op) := by
  have hm : ∀ op ∈ levels.flatten, op ∈ Scan.singleMarks ++ Scan.longMarks ∨ op ∈ ["in", "instanceof"] := by decide
  have hn : ∀ op ∈ Scan.singleMarks ++ Scan.longMarks, op ∉ ["in", "instanceof"] := by decide
  have hw : ∀ op ∈ ["in", "instanceof"], Scan.nameLexeme (Text.ofString op) = .keyword op := by decide
  have hu : ∀ op ∈ ["in", "instanceof"], Scan.Unescaped (Text.ofString op) := by
    intro op h
    simp only [List.mem_cons, List.not_mem_nil, or_false] at h
    rcases h with rfl | rfl <;> exact ⟨⟨_, _, rfl, by decide⟩, by decide, by decide⟩
  unfold lexeme
  rcases hm op h with h | h
  · rw [if_neg (hn _ h)]
    exact ⟨fun hr => (Word.mark op h).solid hr.markEnds, fun ho hd hr => Scan.writes_mark h ho hd hr.markEnds⟩
  · rw [if_pos h, ← hw _ h]
    exact ⟨fun _ => (hu _ h).solid, fun ho hd hr => Scan.writes_name (hu _ h) ho hd hr.nameEnds⟩

def word (op : String) (h : op ∈ levels.flatten) : Word :=
  ⟨Text.ofString op, lexeme op, Scan.Apart, id, (solid_writes h).1, (solid_writes h).2⟩

end Operator

open Operator (level rank)

/-- A name that stands for a variable everywhere. -/
structure FreeName where
  text : Text
  unescaped : Scan.Unescaped text
  isName : Scan.nameLexeme text = .identifier text
  notAsync : text.is "async" = false

/-- Names with binary operators between them. -/
inductive Formula where
  | name (x : FreeName)
  | apply (op : String) (h : op ∈ levels.flatten) (left right : Formula)

namespace Formula

/-- The words of a formula, in parentheses if its operator binds less tightly than is asked for. -/
def words (least : Nat) : Formula → List Word
  | .name x => [.name x.text x.unescaped]
  | .apply op h l r =>
    let n := level op
    let ws :=
      if Operator.toRight op then l.words (n + 1) ++ Operator.word op h :: r.words n
      else l.words n ++ Operator.word op h :: r.words (n + 1)
    if n < least then .mark "(" :: (ws ++ [.mark ")"]) else ws

/-- The formula as a text, with one blank between words. -/
def print (f : Formula) : Text := Text.join [0x20] ((f.words 0).map Word.text)

def tree : Formula → Node
  | .name x => .bare (.identifier x.text)
  | .apply op _ l r => .bare (.binaryExpression op l.tree r.tree)

/-- The number of operators. -/
def size : Formula → Nat
  | .name _ => 0
  | .apply _ _ l r => l.size + r.size + 1

theorem leading_words (f : Formula) (k : Nat) (rest : List Word) : Leading (headLexeme (f.words k ++ rest)) := by
  induction f generalizing k rest with
  | name x => exact ⟨.inr (.inr ⟨x.text, x.isName, x.notAsync⟩), by simp [words, headLexeme, Word.name, x.isName]⟩
  | apply op _ l r ihl _ =>
    unfold words
    dsimp only
    split
    · exact ⟨.inl rfl, by simp [headLexeme, Word.mark]⟩
    · split <;> simpa using ihl _ _

theorem opens_words (f : Formula) (k : Nat) (rest : List Word) : Opens (headLexeme (f.words k ++ rest)) :=
  (leading_words f k rest).1

def Follows (l : Lexeme) : Prop := Stops l ∧ l.isMark "=>" = false

instance (l : Lexeme) : Decidable (Follows l) := by unfold Follows; infer_instance

/-- What is known about reading a formula, of a rule for operands up to a row of operators. -/
structure Reads (src : Source) (f : Formula) : Prop where
  operand {k : Nat} {rest : List Word} : 8 * f.size ≤ k → Follows (headLexeme rest) →
    Delivers src (operand (grammar k)) f.tree (f.words 11 ++ rest) rest
  power {k : Nat} (least : Nat) {rest : List Word} : 8 * f.size + 2 ≤ k → 10 ≤ least → Follows (headLexeme rest) →
    (headLexeme rest).isMark "**" = false → Delivers src (power (grammar k)) f.tree (f.words least ++ rest) rest
  shifts {k : Nat} (least : Nat) {n : Node} {st : List Pending} {rest rest' : List Word} : 8 * f.size + 3 ≤ k →
    (∀ p ∈ st.head?, p.precedence < rank least) → Follows (headLexeme rest) →
    (headLexeme rest).isMark "**" = false → precedence true (headLexeme rest) ≤ rank least →
    (∀ t, Reduces src (grammar k) n rest' ⟨t, f.tree⟩ st rest) →
    Shifts src (grammar k) n rest' st (f.words least ++ rest)

/-- In parentheses a formula is an operand. -/
theorem words_eq {op : String} {h : op ∈ levels.flatten} {l r : Formula} {least : Nat} (hl : level op < least) :
    (apply op h l r).words least = .mark "(" :: ((apply op h l r).words 0 ++ [.mark ")"]) := by
  simp [words, hl]

theorem lt_words (f : Formula) (k : Nat) (rest : List Word) : rest.length < (f.words k ++ rest).length := by
  cases f with
  | name x => simp [words]
  | apply op h l r =>
    unfold words
    dsimp only
    split <;> split <;> simp <;> omega

theorem isUnary_tree (f : Formula) : isUnary f.tree = false := by cases f <;> rfl

section

variable {op : String} {h : op ∈ levels.flatten} {l r : Formula} {k least : Nat}

theorem follows_operator (ws : List Word) : Follows (headLexeme (Operator.word op h :: ws)) :=
  ⟨(Operator.facts op h).1, (Operator.facts op h).2.1⟩

theorem level_lt (h : op ∈ levels.flatten) : level op < 11 := by
  obtain ⟨-, -, -, hop⟩ := Operator.facts op h
  split at hop <;> omega

/-- A power without parentheses. -/
theorem Reads.apply_power (hl : Reads src l) (hr : Reads src r) (hto : Operator.toRight op = true)
    (hle : least ≤ level op) (hk : 8 * (apply op h l r).size ≤ k + 4) (hf : Follows (headLexeme rest))
    (hp : (headLexeme rest).isMark "**" = false) :
    Delivers src (Parse.power (grammar k)) (apply op h l r).tree ((apply op h l r).words least ++ rest) rest := by
  obtain rfl : op = "**" := eq_of_beq hto
  simp only [size] at hk
  obtain ⟨k, rfl⟩ := Nat.exists_eq_add_of_le' (show 2 ≤ k by omega)
  simp only [words, if_neg (Nat.not_lt.mpr hle), if_pos hto, List.append_assoc]
  exact power_joins (opens_words l _ _) rfl (isUnary_tree l) (hl.operand (by omega) (follows_operator _))
    (hr.power _ (by omega) (Nat.le_refl 10) hf hp)

/-- A row without parentheses, as it stands in a looser one. -/
theorem Reads.apply_shifts (hl : Reads src l) (hr : Reads src r) {st : List Pending} {n : Node} {rest' : List Word}
    (hle : least ≤ level op) (hk : 8 * (apply op h l r).size ≤ k + 3)
    (hst : ∀ p ∈ st.head?, p.precedence < rank least) (hf : Follows (headLexeme rest))
    (hp : (headLexeme rest).isMark "**" = false) (hprec : precedence true (headLexeme rest) ≤ rank least)
    (hred : ∀ t, Reduces src (grammar k) n rest' ⟨t, (apply op h l r).tree⟩ st rest) :
    Shifts src (grammar k) n rest' st ((apply op h l r).words least ++ rest) := by
  obtain ⟨-, -, ht, hop⟩ := Operator.facts op h
  have hmono : rank least ≤ rank (level op) ∧ rank (level op) < rank (level op + 1) := by
    unfold rank; constructor <;> split <;> split <;> omega
  split at hop
  · rename_i hto
    obtain ⟨k, rfl⟩ := Nat.exists_eq_add_of_le' (show 1 ≤ k by simp only [size] at hk; omega)
    exact ⟨_, rest, hl.apply_power hr hto hle (by omega) hf hp, lt_words _ _ _, hred⟩
  · rename_i hto
    obtain ⟨hop₁, -, hop₂⟩ := hop
    simp only [words, if_neg (Nat.not_lt.mpr hle), if_neg hto, List.append_assoc]
    simp only [size] at hk
    refine hl.shifts _ (by omega) (fun p hm => Nat.lt_of_lt_of_le (hst p hm) hmono.1) (follows_operator _) hop₁
      (Nat.le_of_eq hop₂) fun t => ?_
    -- the operator waits for the right operand, which binds more tightly
    have hpend : ∀ p ∈ (⟨⟨t, l.tree⟩, op, rank (level op)⟩ :: st : List Pending).head?,
        p.precedence < rank (level op + 1) := by
      rintro p ⟨⟩
      exact hmono.2
    obtain ⟨e, ms, he, hlt, hms⟩ := hr.shifts (level op + 1) (k := k) (by omega) hpend hf hp (by omega)
      fun t' => .join (Nat.le_trans hprec hmono.1) (hred t)
    have hw : precedence true (Operator.word op h).lexeme = rank (level op) := hop₂
    have hx : operatorText (Operator.word op h).lexeme = op := ht
    refine .shift (by rw [hw]; unfold rank; split <;> omega) (fun p hm => ?_) he hlt fun t => ?_
    · rw [hw]
      exact Nat.lt_of_lt_of_le (hst p hm) hmono.1
    · rw [hw, hx]
      exact hms t

/-- In parentheses. -/
theorem Reads.apply_operand (hl : Reads src l) (hr : Reads src r) (hk : 8 * (apply op h l r).size ≤ k)
    (hf : Follows (headLexeme rest)) :
    Delivers src (Parse.operand (grammar k)) (apply op h l r).tree ((apply op h l r).words 11 ++ rest) rest := by
  obtain ⟨k, rfl⟩ := Nat.exists_eq_add_of_le' (show 1 ≤ k by simp [size] at hk; omega)
  rw [words_eq (level_lt h), List.cons_append, List.append_assoc]
  refine operand_group (e := .mark ")") rfl rfl (opens_words _ 0 _) hf.2 ?_
  have hclose : (∀ m ∈ "?" :: "=>" :: assignmentOperators, (Lexeme.punctuator ")").isMark m = false) ∧
      Follows (.punctuator ")") := by decide
  refine assignment_delivers (opens_words _ 0 _) (by rintro a ps ⟨⟩) hclose.1 (Shifts.binary ?_)
  exact hl.apply_shifts hr (Nat.zero_le _) (by omega) (by simp) hclose.2 rfl (Nat.zero_le _) fun t => .done rfl rfl

theorem Reads.apply (hl : Reads src l) (hr : Reads src r) : Reads src (apply op h l r) := by
  have hatom {k : Nat} {rest : List Word} (hk : 8 * (Formula.apply op h l r).size + 2 ≤ k)
      (hf : Follows (headLexeme rest)) (hp : (headLexeme rest).isMark "**" = false) :
      Delivers src (Parse.power (grammar k)) (Formula.apply op h l r).tree
        ((Formula.apply op h l r).words 11 ++ rest) rest := by
    obtain ⟨k, rfl⟩ := Nat.exists_eq_add_of_le' (show 2 ≤ k by omega)
    exact power_delivers (opens_words _ 11 _) hf.1 hp (hl.apply_operand hr (by omega) hf)
  refine ⟨hl.apply_operand hr, ?_, ?_⟩
  · intro k least rest hk hle hf hp
    by_cases hlt : level op < least
    · rw [words_eq hlt, ← words_eq (level_lt h)]
      exact hatom hk hf hp
    · obtain ⟨-, -, -, hop⟩ := Operator.facts op h
      split at hop
      · rename_i hto
        exact hl.apply_power hr hto (Nat.not_lt.mp hlt) (by omega) hf hp
      · omega
  · intro k least n st rest rest' hk hst hf hp hprec hred
    by_cases hlt : level op < least
    · obtain ⟨k, rfl⟩ := Nat.exists_eq_add_of_le' (show 1 ≤ k by omega)
      rw [words_eq hlt, ← words_eq (level_lt h)]
      exact ⟨_, rest, hatom (by omega) hf hp, lt_words _ _ _, hred⟩
    · exact hl.apply_shifts hr (Nat.not_lt.mp hlt) (by omega) hst hf hp hprec hred

end

theorem reads (src : Source) (f : Formula) : Reads src f := by
  induction f with
  | name x =>
    have ho {k : Nat} {rest : List Word} :
        Delivers src (Parse.operand (grammar k)) (name x).tree ((name x).words 11 ++ rest) rest :=
      operand_name x.isName x.notAsync
    refine ⟨fun _ _ => ho, ?_, ?_⟩
    · rintro (_ | _ | k) least rest hk - hr hp
      any_goals omega
      exact power_delivers (opens_words (name x) 11 _) hr.1 hp ho
    · rintro (_ | _ | _ | k) least n st rest rest' hk - hr hp - h
      any_goals omega
      exact ⟨_, _, power_delivers (opens_words (name x) 11 _) hr.1 hp ho, lt_words _ least _, h⟩
  | apply op h l r hl hr => exact hl.apply hr

theorem assignment_reads {f : Formula} {k : Nat} (hk : 8 * f.size + 3 ≤ k) :
    Delivers src (assignment (grammar k)) f.tree (f.words 0) [] := by
  have hend : (∀ m ∈ "?" :: "=>" :: assignmentOperators, Lexeme.endOfInput.isMark m = false) ∧
      Follows .endOfInput := by decide
  have : Shifts src (grammar k) f.tree [] [] (f.words 0 ++ []) :=
    (f.reads src).shifts 0 hk (by simp) hend.2 rfl (Nat.zero_le _) fun t => .done rfl rfl
  have hs := opens_words f 0 []
  rw [List.append_nil] at this hs
  exact assignment_delivers hs (by cases f <;> rintro a ps ⟨⟩) hend.1 this.binary

/-- A formula is read as it is written down. -/
theorem parse_print (f : Formula) :
    (∃ p, parse f.print = .ok p ∧ p.root = .bare (.program false [.bare (.expressionStatement f.tree)])) ∧
      ∀ op h l r, (apply op h l r).tree.shape.typeName =
        if op ∈ ["||", "&&"] then "LogicalExpression" else "BinaryExpression" := by
  have hs := leading_words f 0 []
  rw [List.append_nil] at hs
  refine ⟨parse_expression (lays_join _) hs fun _ k hk => assignment_reads hk, fun op h l r => ?_⟩
  simp [tree, Node.bare, Shape.typeName]

end Formula

end ScriptTree.Parse
