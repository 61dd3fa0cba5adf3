import ScriptTree.Proofs.Parse.Context.Basic

/-! # Expressions in braces

The braces around an expression in markup belong to the tags, so they are not counted among the open brackets. But
behind the expression the closing brace is first the token ahead, and as such it closes a bracket that was open
before the braces. `braces_neutral_iff` says when none is lost. -/

namespace ScriptTree.Parse

variable {o : List Scan.Opener} {α β : Type} {env : Env} {g : Grammar} {s s' u : State} {n : Node}

/-- A step that takes no token of the program: the open brackets and the token ahead stay as they are. -/
class Aside (p : Parse α) : Prop where
  same : ∀ {env s a s'}, Returns p env s a s' → s'.cursor.openers = s.cursor.openers ∧ s'.lookahead = s.lookahead

namespace Aside

instance {p : Parse α} [hp : Inspects p] : Aside p := ⟨fun h => by rw [hp.eq h]; exact ⟨rfl, rfl⟩⟩

instance (p : Parse α) (f : α → Parse β) [hp : Aside p] [hf : ∀ a, Aside (f a)] : Aside (p >>= f) where
  same h := by
    obtain ⟨a, u, h₁, h₂⟩ := h.bind
    rw [((hf a).same h₂).1, ((hf a).same h₂).2]
    exact hp.same h₁

instance (b : Prop) [Decidable b] (p q : Parse α) [Aside p] [Aside q] : Aside (if b then p else q) := by
  split <;> assumption

theorem of_modify {f : State → State} (hf : ∀ s, (f s).cursor.openers = s.cursor.openers ∧ (f s).lookahead = s.lookahead) :
    Aside (modify f : Parse Unit) where
  same h := returns_modify.mp h ▸ hf _

theorem of_scan {p : Scan α} (hp : ∀ {st c a d}, Returns p st c a d → d.openers = c.openers) : Aside (scan p) where
  same h := by
    obtain ⟨d, hd, rfl⟩ := returns_scan.mp h
    exact ⟨hp hd, rfl⟩

instance (m : Mark) : Aside (modify fun s => { s with startMark := m } : Parse Unit) := of_modify fun _ => ⟨rfl, rfl⟩
instance (m : Mark) : Aside (modify fun s => { s with lastMark := m } : Parse Unit) := of_modify fun _ => ⟨rfl, rfl⟩
instance : Aside enterMarkup := of_modify fun _ => ⟨rfl, rfl⟩
instance : Aside unlistToken := of_modify fun _ => ⟨rfl, rfl⟩
instance : Aside (scan Scan.markup) := of_scan fun h => (Scan.markup_tags h).openers
instance (m : Message) (parts : List Text) : Aside (complain m parts) := by
  have htolerate (e : SyntaxError) : Aside (scan do Scan.tolerate { e with line := (← get).line }) :=
    of_scan fun h => by rw [(Scan.returns_tolerate.mp (h.first rfl)).2]
  unfold complain
  infer_instance
instance (t : Token) : Aside (listToken t) := ⟨fun h => by rw [listToken_returns h]; exact ⟨rfl, rfl⟩⟩
instance : Aside peekMarkup := ⟨fun h => by rw [peekMarkup_returns h]; exact ⟨rfl, rfl⟩⟩
instance (start : Mark) (shape : Shape Node) : Aside (finish start shape) :=
  ⟨fun h => by rw [(finish_returns h).1]; exact ⟨rfl, rfl⟩⟩
instance : Aside takeComments where
  same h := by
    obtain ⟨ms, hc, hs, -⟩ := takeComments_returns h
    exact ⟨Scan.comments_openers hc, by rw [hs]⟩
instance : Aside nextMarkup := by unfold nextMarkup; infer_instance
instance (t : Token) (m : Option Message) : Aside (rejectToken t m : Parse α) := by unfold rejectToken; infer_instance
instance (mark : String) : Aside (expectMarkup mark) := by unfold expectMarkup; infer_instance
instance (mark : String) : Aside (seesMarkup mark) := by unfold seesMarkup; infer_instance
instance : Aside leaveExpression := by unfold leaveExpression; infer_instance
instance : Aside markupMark := by unfold markupMark; infer_instance
instance : Aside emptyExpression := by unfold emptyExpression; infer_instance

end Aside

def Before (open' : List Scan.Opener) (s : State) : Prop := s.cursor.openers = s.lookahead.lexeme.brackets open'

/-- A closing brace, read as one or as the start of a piece of a template. -/
def ClosesBrace (l : Lexeme) : Prop := l = .punctuator "\x7d" ∨ ∃ raw cooked tail, l = .template raw cooked false tail

theorem brackets_reserve (strict : Bool) (l : Lexeme) : (reserve strict l).brackets = l.brackets := by
  rcases reserve_cases strict l with h | ⟨name, rfl, word, -, h⟩ <;> rw [h]
  rfl

theorem skip_before (h : Returns skip env s () u) : Before s.cursor.openers u := by
  obtain ⟨_, u', h, hu⟩ := Returns.bind h
  obtain ⟨-, rfl⟩ := hu.ended
  obtain ⟨-, ms, c, k, hm⟩ := next_moves h
  rw [Before, hm.lookahead, brackets_reserve, ← Scan.comments_openers hm.skipped]
  exact Scan.next_openers hm.scanned

theorem Aside.before {p : Parse α} [hp : Aside p] {a : α} (hs : Before o s)
    (h : Returns p env s a s') : Before o s' := by
  rw [Before, (hp.same h).1, (hp.same h).2]
  exact hs

theorem brackets_eq_iff {l : Lexeme} (hl : ClosesBrace l) (o : List Scan.Opener) :
    l.brackets o = o ↔ o = [] ∨ ∃ raw cooked, l = .template raw cooked false false := by
  have htail : o.tail = o ↔ o = [] := by cases o <;> simp
  rcases hl with rfl | ⟨raw, cooked, tail, rfl⟩
  · simpa [Lexeme.brackets] using htail
  · cases tail <;> simp [Lexeme.brackets, htail]

/-- After the expression nothing but the brackets of the token ahead can have changed. -/
theorem inside_braces {start : Mark} {shape : Node → Shape Node} (hs : Before o s)
    (h : Returns (g.assignment >>= fun e => leaveExpression >>= fun _ => finish start (shape e)) env s n s') :
    ∃ u e v, Before o u ∧ Returns g.assignment env u e v ∧ s'.cursor.openers = v.cursor.openers ∧
      (Before o v → ClosesBrace v.lookahead.lexeme →
        (s'.cursor.openers = o ↔ o = [] ∨ ∃ raw cooked, v.lookahead.lexeme = .template raw cooked false false)) := by
  obtain ⟨e, v, h₁, h⟩ := h.bind
  have hsame : s'.cursor.openers = v.cursor.openers := (Aside.same h).1
  refine ⟨s, e, v, hs, h₁, hsame, fun hv hl => ?_⟩
  rw [hsame, hv]
  exact brackets_eq_iff hl o

/-- Braces without an expression leave the open brackets as they were. With an expression they leave them as the
expression and the token behind it do. If the expression itself keeps the brackets, they are as before the braces if
and only if none was open, or the closing brace was read as the start of a piece that opens the next substitution of a
template. -/
theorem braces_neutral_iff (env : Env) (g : Grammar) (s s' : State) (n : Node) (rule : Parse Node)
    (hrule : rule ∈ [expressionContainer g, expressionAttribute g, spreadAttribute g]) (h : Returns rule env s n s') :
    ((∃ e, n.shape = .jsxExpressionContainer e ∧ e.shape = .jsxEmptyExpression) ∧
      s'.cursor.openers = s.cursor.openers) ∨
    ∃ u e v, Before s.cursor.openers u ∧ Returns g.assignment env u e v ∧ s'.cursor.openers = v.cursor.openers ∧
      (Before s.cursor.openers v → ClosesBrace v.lookahead.lexeme →
        (s'.cursor.openers = s.cursor.openers ↔
          s.cursor.openers = [] ∨ ∃ raw cooked, v.lookahead.lexeme = .template raw cooked false false)) := by
  simp only [List.mem_cons, List.not_mem_nil, or_false] at hrule
  rcases hrule with rfl | rfl | rfl
  · obtain ⟨start, u₁, h₁, h⟩ := Returns.bind h
    obtain ⟨_, u₂, h₂, h⟩ := h.bind
    obtain ⟨b, u₃, h₃, h⟩ := h.bind
    have hu : u₃.cursor.openers = s.cursor.openers :=
      (Aside.same h₃).1.trans ((Aside.same h₂).1.trans (Aside.same h₁).1)
    rcases h.ite with ⟨_, h⟩ | ⟨_, h⟩
    · have hsame := (Aside.same h).1
      obtain ⟨e, u₄, h₄, h⟩ := h.bind
      obtain ⟨_, u₅, h₅, h⟩ := h.bind
      refine .inl ⟨⟨e, shape_of_finish h, ?_⟩, hsame.trans hu⟩
      obtain ⟨_, _, -, h₄⟩ := (h₄.first rfl).bind
      exact shape_of_finish (h₄.first rfl).modify
    · obtain ⟨_, u₄, h₄, h⟩ := h.bind
      rw [← hu]
      exact .inr (inside_braces (skip_before h₄) h)
  · obtain ⟨start, u₁, h₁, h⟩ := Returns.bind h
    obtain ⟨_, u₂, h₂, h⟩ := h.bind
    obtain ⟨_, u₃, h₃, h⟩ := h.bind
    have hu : u₂.cursor.openers = s.cursor.openers := (Aside.same h₂).1.trans (Aside.same h₁).1
    rw [← hu]
    obtain ⟨b, u₄, h₄, h⟩ := h.bind
    have hb := Aside.before (skip_before h₃) h₄
    rcases h.ite with ⟨_, h⟩ | ⟨_, h⟩
    · obtain ⟨_, u₅, h₅, h⟩ := h.bind
      exact .inr (inside_braces (Aside.before hb h₅) h)
    · exact .inr (inside_braces hb h)
  · obtain ⟨start, u₁, h₁, h⟩ := Returns.bind h
    obtain ⟨_, u₂, h₂, h⟩ := h.bind
    obtain ⟨_, u₃, h₃, h⟩ := h.bind
    obtain ⟨_, u₄, h₄, h⟩ := h.bind
    have hu : u₃.cursor.openers = s.cursor.openers :=
      (Aside.same h₃).1.trans ((Aside.same h₂).1.trans (Aside.same h₁).1)
    rw [← hu]
    exact .inr (inside_braces (skip_before h₄) h)

/-- The brackets that a rule leaves open. -/
def opened? (p : Parse Node) (env : Env) (s : State) : Option (List Scan.Opener) :=
  match p env s with
  | .ok _ s' => some s'.cursor.openers
  | .error .. => none

/-- A name in braces, and the end of the template around them. -/
def nameInBraces : Env := ⟨.ofText (Text.ofString "\x7bb\x7d`"), { jsx := true }⟩

def inSubstitution : State :=
  { cursor := { line := 1, openers := [.substitution] }, lookahead := default, startMark := {}, lastMark := {} }

theorem container_closes : ∃ n s', Returns (expressionContainer (grammar 4)) nameInBraces inSubstitution n s' ∧
    s'.cursor.openers = [] := by
  have h : opened? (expressionContainer (grammar 4)) nameInBraces inSubstitution = some [] := by decide +kernel
  unfold opened? at h
  split at h
  · rename_i n s' hp
    exact ⟨n, s', hp, Option.some.inj h⟩
  · cases h

theorem braces_neutral_iff_name : ∃ n s' u e v,
    Returns (expressionContainer (grammar 4)) nameInBraces inSubstitution n s' ∧ s'.cursor.openers = [] ∧
      Before [.substitution] u ∧ Returns (grammar 4).assignment nameInBraces u e v ∧ v.cursor.openers = [] := by
  obtain ⟨n, s', h, ho⟩ := container_closes
  rcases braces_neutral_iff _ _ _ _ _ _ (List.mem_cons_self ..) h with ⟨-, hs⟩ | ⟨u, e, v, hu, hv, hsame, -⟩
  · cases ho.symm.trans hs
  · exact ⟨n, s', u, e, v, h, ho, hu, hv, hsame ▸ ho⟩

/-- The substitution around markup with an expression is lost, so the brace behind the markup does not end it. Without
an expression, or with another substitution to come, the template is read. -/
theorem braces_not_neutral : (∃ n s', Returns (expressionContainer (grammar 4)) nameInBraces inSubstitution n s' ∧
      s'.cursor.openers ≠ inSubstitution.cursor.openers) ∧
    (parse (Text.ofString "`$\x7b<a>\x7bb\x7d</a>\x7d`") { jsx := true }).isOk = false ∧
    (parse (Text.ofString "`$\x7b<a>b</a>\x7d`") { jsx := true }).isOk = true ∧
    (parse (Text.ofString "`$\x7b<a>\x7bb\x7d</a>\x7d-$\x7bc\x7d`") { jsx := true }).isOk = true := by
  obtain ⟨n, s', h, ho⟩ := container_closes
  exact ⟨⟨n, s', h, by rw [ho]; decide⟩, by decide +kernel⟩

end ScriptTree.Parse
