import ScriptTree.Program
import ScriptTree.Proofs.Parse.Returns
import ScriptTree.Proofs.Scan.Words

/-! # Runs over words

A parse without options over a text of words. `Reaches` is the weakest condition under which a rule comes to a result: it is found by going through the rule step by step. -/

namespace ScriptTree.Parse

variable {m : String} {shape : Shape Node} {t : Text}

open Scan (Word)

variable {α β : Type} {src : Source} {c : Context} {ws rest : List Word} {w : Word}

/-- The text is made of the words, with blanks before each. -/
inductive Lays : List Word → Text → Prop
  | nil : Lays [] []
  | cons {w : Word} {ws : List Word} {t : Text} (k : Nat) : w.fits t → Lays ws t →
      Lays (w :: ws) (List.replicate k 0x20 ++ (w.text ++ t))

def headLexeme : List Word → Lexeme
  | [] => .endOfInput
  | w :: _ => w.lexeme

/-- The words, of which the first is ahead, are what a parse still has to read. -/
structure Fed (src : Source) (c : Context) (ws : List Word) (s : State) : Prop where
  ahead : s.lookahead.lexeme = headLexeme ws
  remains : Lays ws.tail (src.chars.toList.drop s.cursor.index)
  line : s.lookahead.line = s.cursor.line
  sameLine : s.afterNewLine = false
  openers : .substitution ∉ s.cursor.openers
  context : s.context = c

/-- The rule ends, with a fitting result, context and rest of the words. -/
def Reaches (src : Source) (p : Parse α) (Q : α → Context → List Word → Prop) (c : Context) (ws : List Word) :
    Prop :=
  ∀ s, Fed src c ws s → ∃ a c' ws' s', Returns p ⟨src, {}⟩ s a s' ∧ Q a c' ws' ∧ Fed src c' ws' s'

variable {p q : Parse α} {f : α → Parse β} {Q : α → Context → List Word → Prop}
  {R : β → Context → List Word → Prop}

theorem Lays.length_le (h : Lays ws t) : ws.length ≤ t.length := by
  induction h with
  | nil => simp
  | @cons w ws t k _ _ ih =>
    have := List.length_pos_iff.mpr w.text_ne_nil
    simp
    omega

/-- One more blank before the first word. -/
theorem Lays.blank (h : Lays (w :: ws) t) : Lays (w :: ws) (0x20 :: t) := by
  cases h with
  | cons k hf h => exact .cons (k + 1) hf h

/-- The words with a blank between neighbours. -/
theorem lays_join (ws : List Word) : Lays ws (Text.join [0x20] (ws.map Word.text)) := by
  induction ws with
  | nil => exact .nil
  | cons w ws ih =>
    cases ws with
    | nil => simpa [Text.join, List.intercalate] using Lays.cons (w := w) 0 (w.apart (by simp [Scan.Apart])) .nil
    | cons v ws => exact .cons 0 (w.apart (by simp [Scan.Apart])) ih.blank

namespace Reaches

theorem pure {a : α} (h : Q a c ws) : Reaches src (pure a) Q c ws :=
  fun s hs => ⟨a, c, ws, s, returns_pure.mpr ⟨rfl, rfl⟩, h, hs⟩

theorem bind (h : Reaches src p (fun a => Reaches src (f a) R) c ws) : Reaches src (p >>= f) R c ws := by
  intro s hs
  obtain ⟨a, c₁, ws₁, s₁, h₁, h, hs₁⟩ := h s hs
  obtain ⟨b, c₂, ws₂, s₂, h₂, h, hs₂⟩ := h s₁ hs₁
  exact ⟨b, c₂, ws₂, s₂, returns_bind.mpr ⟨a, s₁, h₁, h₂⟩, h, hs₂⟩

theorem imp {Q' : α → Context → List Word → Prop} (h : Reaches src p Q c ws)
    (hQ : ∀ a c ws, Q a c ws → Q' a c ws) : Reaches src p Q' c ws := by
  intro s hs
  obtain ⟨a, c', ws', s', h₁, h, hs'⟩ := h s hs
  exact ⟨a, c', ws', s', h₁, hQ a c' ws' h, hs'⟩

/-- Only the runs on the words matter. -/
theorem congr (hpq : ∀ s, Fed src c ws s → p ⟨src, {}⟩ s = q ⟨src, {}⟩ s) :
    Reaches src p Q c ws ↔ Reaches src q Q c ws := by
  unfold Reaches Returns
  refine forall_congr' fun s => forall_congr' fun hs => ?_
  rw [hpq s hs]

end Reaches

/-! ## Questions -/

@[simp] theorem reaches_peek {f : Lexeme → Parse β} :
    Reaches src (peek >>= f) R c ws ↔ Reaches src (f (headLexeme ws)) R c ws :=
  Reaches.congr fun _ hs => hs.ahead ▸ rfl

@[simp] theorem reaches_context {f : Context → Parse β} :
    Reaches src (context >>= f) R c ws ↔ Reaches src (f c) R c ws :=
  Reaches.congr fun _ hs => hs.context ▸ rfl

@[simp] theorem reaches_options {f : Options → Parse β} :
    Reaches src (options >>= f) R c ws ↔ Reaches src (f {}) R c ws :=
  Reaches.congr fun _ _ => rfl

variable {f : Bool → Parse β}

@[simp] theorem reaches_sees : Reaches src (sees m >>= f) R c ws ↔ Reaches src (f ((headLexeme ws).isMark m)) R c ws :=
  Reaches.congr fun _ hs => hs.ahead ▸ rfl

@[simp] theorem reaches_seesAny {ms : List String} :
    Reaches src (seesAny ms >>= f) R c ws ↔ Reaches src (f (ms.any (headLexeme ws).isMark)) R c ws :=
  Reaches.congr fun _ hs => hs.ahead ▸ rfl

@[simp] theorem reaches_seesWord {w : String} :
    Reaches src (seesWord w >>= f) R c ws ↔ Reaches src (f ((headLexeme ws).isWord w)) R c ws :=
  Reaches.congr fun _ hs => hs.ahead ▸ rfl

@[simp] theorem reaches_seesAnyWord {l : List String} :
    Reaches src (seesAnyWord l >>= f) R c ws ↔ Reaches src (f (l.any (headLexeme ws).isWord)) R c ws :=
  Reaches.congr fun _ hs => hs.ahead ▸ rfl

@[simp] theorem reaches_seesName {w : String} :
    Reaches src (seesName w >>= f) R c ws ↔ Reaches src (f ((headLexeme ws).isName w)) R c ws :=
  Reaches.congr fun _ hs => hs.ahead ▸ rfl

@[simp] theorem reaches_seesEnd :
    Reaches src (seesEnd >>= f) R c ws ↔ Reaches src (f (headLexeme ws == .endOfInput)) R c ws :=
  Reaches.congr fun _ hs => hs.ahead ▸ rfl

@[simp] theorem reaches_finish {m : Mark} {f : Node → Parse β} :
    Reaches src (finish m shape >>= f) R c ws ↔ Reaches src (f (.bare shape)) R c ws :=
  Reaches.congr fun _ _ => rfl

@[simp] theorem reaches_finish_last {m : Mark} {R : Node → Context → List Word → Prop} :
    Reaches src (finish m shape) R c ws ↔ Reaches src (Pure.pure (.bare shape)) R c ws :=
  Reaches.congr fun _ _ => rfl

variable {f : Unit → Parse β}

@[simp] theorem reaches_setContext {g : Context → Context} :
    Reaches src (setContext g >>= f) R c ws ↔ Reaches src (f ()) R (g c) ws := by
  constructor
  · intro h s hs
    obtain ⟨a, c', ws', s', h₁, h⟩ :=
      h { s with context := c } ⟨hs.ahead, hs.remains, hs.line, hs.sameLine, hs.openers, rfl⟩
    have he : { s with context := g c } = s := by rw [← hs.context]
    exact ⟨a, c', ws', s', he ▸ h₁.first (u := { s with context := g c }) rfl, h⟩
  · rintro h s ⟨ha, hr, hl, hn, ho, rfl⟩
    exact h { s with context := g s.context } ⟨ha, hr, hl, hn, ho, rfl⟩

theorem Reaches.lookahead {f : Token → Parse β} (h : ∀ t : Token, t.lexeme = headLexeme ws → Reaches src (f t) R c ws) :
    Reaches src (lookahead >>= f) R c ws :=
  fun s hs => h s.lookahead hs.ahead s hs

theorem Reaches.mark {f : Mark → Parse β} (h : ∀ m, Reaches src (f m) R c ws) : Reaches src (startMark >>= f) R c ws :=
  fun s hs => h s.startMark s hs

theorem Reaches.get {f : State → Parse β} (h : ∀ s : State, s.afterNewLine = false → Reaches src (f s) R c ws) :
    Reaches src (get >>= f) R c ws :=
  fun s hs => h s hs.sameLine s hs

/-- There are fewer words than rounds of a loop. -/
theorem Reaches.loop {σ : Type} {x : σ} {round : σ → Parse (Round σ β)}
    (h : ∀ n, ws.length < n → Reaches src (loopFor round n x) R c ws) : Reaches src (loop x round) R c ws := by
  intro s hs
  refine h (src.length + 2) ?_ s hs
  have hle := hs.remains.length_le
  rw [← Source.length_of_drop rfl, List.length_tail] at hle
  omega

/-! ## Taking words -/

theorem scan_lays (st : Scan.Settings) {d : Scan.Cursor} (ho : .substitution ∉ d.openers)
    (h : Lays ws (st.source.chars.toList.drop d.index)) :
    ∃ i j os, .substitution ∉ os ∧ Returns Scan.comments st d [] { d with index := i } ∧
      Returns Scan.next st { d with index := i } ⟨headLexeme ws, d.line, d.lineStart, i, j⟩
        { d with index := j, openers := os } ∧ Lays ws.tail (st.source.chars.toList.drop j) := by
  generalize hd : st.source.chars.toList.drop d.index = t at h
  cases h with
  | nil =>
    have hl := Source.length_of_drop hd
    have hc : st.source.length ≤ d.index := by simp at hl; omega
    refine ⟨d.index, d.index, d.openers, ho, ?_, ?_, hd ▸ .nil⟩
    · simp [Scan.comments, Scan.blanks, show st.source.length - d.index = 0 by omega, and_assoc]
    · simp [Scan.next, hc, and_assoc, headLexeme]
  | @cons w ws t k hf h =>
    have hs := Scan.comments_pass hd (w.solid hf)
    have hw : st.source.chars.toList.drop (d.index + k) = w.text ++ t := by
      rw [← List.drop_drop, hd]; simp
    obtain ⟨os, ho', hn⟩ := w.writes (c := { d with index := d.index + k }) ho hw hf
    refine ⟨d.index + k, _, os, ho', hs, hn, ?_⟩
    show Lays ws (st.source.chars.toList.drop (d.index + k + w.text.length))
    rw [← List.drop_drop, hw]
    simpa using h

theorem next_lays (src : Source) (s : State) (ws : List Word) (h : Lays ws (src.chars.toList.drop s.cursor.index))
    (hc : s.context.strict = false) (ho : .substitution ∉ s.cursor.openers) (hl : s.lookahead.line = s.cursor.line) :
    ∃ s', Returns next ⟨src, {}⟩ s s.lookahead s' ∧ Fed src s.context ws s' := by
  obtain ⟨i, j, os, ho', h₁, h₂, hd⟩ := scan_lays (settings ⟨src, {}⟩ s) ho h
  let s₁ : State := { s with lastMark := ⟨s.cursor.index, s.cursor.line, s.cursor.index - s.cursor.lineStart⟩ }
  let s₂ : State := { s₁ with cursor := { s.cursor with index := i } }
  have hcom : Returns takeComments ⟨src, {}⟩ s₁ () s₂ := .seq (returns_scan.mpr ⟨_, h₁, rfl⟩) rfl
  -- the start of the token is noted where it is new
  have hmark : ∀ (m : Mark) (u : State), (if m.index == u.startMark.index then u else { u with startMark := m })
      = { u with startMark := if m.index == u.startMark.index then u.startMark else m } := by
    intro m u; split <;> rfl
  have hlex (ws : List Word) : reserve s.context.strict (headLexeme ws) = headLexeme ws := by
    rw [hc]
    cases headLexeme ws <;> rfl
  have hlist (t : Token) (u : State) : Returns (do
      unless t.lexeme == .endOfInput do listToken t
      return s.lookahead) ⟨src, {}⟩ u s.lookahead u := by
    cases t.lexeme == .endOfInput <;> rfl
  refine ⟨_, .seq rfl (.seq rfl (.seq rfl (.seq hcom (.seq rfl (.seq (a := ()) (returns_modify.mpr (hmark _ _).symm)
    (.seq (returns_scan.mpr ⟨_, h₂, rfl⟩) (.seq rfl (.seq rfl (hlist _ _))))))))), ?_⟩
  exact ⟨hlex ws, hd, rfl, by simp [hl], ho', rfl⟩

theorem Reaches.next {f : Token → Parse β} (hc : c.strict = false)
    (h : ∀ t : Token, t.lexeme = w.lexeme → Reaches src (f t) R c ws) :
    Reaches src (next >>= f) R c (w :: ws) := by
  rintro s ⟨ha, hr, hl, -, ho, rfl⟩
  obtain ⟨s', h₁, hs'⟩ := next_lays src s ws hr hc ho hl
  obtain ⟨b, c', ws', u, h₂, h⟩ := h s.lookahead ha s' hs'
  exact ⟨b, c', ws', u, h₁.seq h₂, h⟩

theorem Reaches.skip (hc : c.strict = false) (h : Reaches src (f ()) R c ws) :
    Reaches src (skip >>= f) R c (w :: ws) := by
  unfold Parse.skip
  rw [bind_assoc]
  exact .next hc fun _ _ => h

theorem Reaches.expect (hc : c.strict = false) (hw : w.lexeme = .punctuator m)
    (h : Reaches src (f ()) R c ws) : Reaches src (expect m >>= f) R c (w :: ws) := by
  unfold Parse.expect
  rw [bind_assoc]
  refine .next hc fun t ht => ?_
  rw [ht, hw]
  simpa [Lexeme.isMark] using h

end ScriptTree.Parse
