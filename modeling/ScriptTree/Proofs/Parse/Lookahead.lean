import ScriptTree.Program
import ScriptTree.Proofs.Parse.Returns
import ScriptTree.Proofs.Scan.Brackets
import ScriptTree.Proofs.Scan.Markup

/-! # Looking ahead

A look ahead reads tokens and then returns to the place where it started. The place comes back, but the
open brackets do not: they stay as the tokens have left them. `lookahead_restores_iff` says exactly when
nothing is left of a look ahead, for the scan and for each question that the grammar asks about the token
after the next. -/

namespace ScriptTree

namespace Scan

variable {st : Settings} {c d e : Cursor}

/-- After the return to its place a cursor is as it was if its brackets and complaints are. -/
theorem restored_eq_iff (he : d.errors = c.errors) :
    ({ d with toPlace := c.toPlace } : Cursor) = c ↔ d.openers = c.openers := by
  constructor
  · intro h
    rw [← h]
  · intro h
    rw [h, he]

end Scan

namespace Parse

variable {t : Token} {env : Env} {s s' : State}

/-- Looking at the token after the next changes the open brackets only, besides complaints. -/
theorem peekNext_returns (h : Returns peekNext env s t s') : s' = { s with cursor := { s.cursor with
      openers := t.lexeme.brackets s.cursor.openers, errors := s'.cursor.errors } } := by
  obtain ⟨d, hd, rfl⟩ := returns_scan.mp h
  obtain ⟨ms, c, h₁, h⟩ := (Returns.first hd rfl).bind
  obtain ⟨t', e, h₂, h⟩ := h.bind
  obtain ⟨rfl, rfl⟩ := returns_pure.mp (h.first rfl)
  simp only [Scan.next_openers h₂, Scan.comments_openers h₁]

/-- Looking at the next token of a tag changes nothing, besides complaints. -/
theorem peekMarkup_returns {l : Lexeme} (h : Returns peekMarkup env s l s') :
    s' = { s with cursor := { s.cursor with errors := s'.cursor.errors } } := by
  obtain ⟨d, hd, rfl⟩ := returns_scan.mp h
  obtain ⟨ms, c, h₁, h⟩ := (Returns.first hd rfl).bind
  obtain ⟨t', e, h₂, h⟩ := h.bind
  obtain ⟨rfl, rfl⟩ := returns_pure.mp (h.first rfl)
  simp only [(Scan.markup_tags h₂).openers, Scan.comments_openers h₁]

/-- The questions about the token after the next, and what they look at. -/
theorem question_returns {question : Parse Bool}
    (hq : question ∈ [seesLexicalDeclaration, seesImportCall, seesAsyncFunction]) {b : Bool}
    (h : Returns question env s b s') : s' = s ∨ ∃ t, Returns peekNext env s t s' := by
  simp only [List.mem_cons, List.not_mem_nil, or_false] at hq
  rcases hq with rfl | rfl | rfl
  · obtain ⟨t, u, h₁, h⟩ := Returns.bind h
    split at h <;> obtain ⟨-, rfl⟩ := h.ended <;> exact .inr ⟨t, h₁⟩
  · replace h := Returns.first h rfl
    rcases h.ite with ⟨_, h⟩ | ⟨_, h⟩
    · exact .inl (h.ended).2
    · obtain ⟨t, u, h₁, h⟩ := h.bind
      obtain ⟨-, rfl⟩ := h.ended
      exact .inr ⟨t, h₁⟩
  · replace h := Returns.first h rfl
    rcases h.ite with ⟨_, h⟩ | ⟨_, h⟩
    · exact .inl (h.ended).2
    · obtain ⟨t, u, h₁, h⟩ := (h.first rfl).bind
      obtain ⟨-, rfl⟩ := h.ended
      exact .inr ⟨t, h₁⟩

theorem peekNext_eq_iff (h : Returns peekNext env s t s') (he : s'.cursor.errors = s.cursor.errors) :
    s' = s ↔ t.lexeme.brackets s.cursor.openers = s.cursor.openers := by
  rw [peekNext_returns h, he]
  constructor
  · intro hs
    exact congrArg (fun s => s.cursor.openers) hs
  · intro ho
    rw [ho]

/-- Without complaints, a look ahead leaves the scan as it was exactly if the tokens that it has read leave
the open brackets as they were. Tokens of tags always do. -/
theorem lookahead_restores_iff (st : Scan.Settings) (c : Scan.Cursor) (env : Env) (s : State) :
    (∀ {d e : Scan.Cursor} {ls : List Lexeme}, Scan.Looks st c ls d → d.errors = c.errors →
      Returns (Scan.restore c.toPlace) st d () e →
        e.toPlace = c.toPlace ∧ (e = c ↔ Scan.bracketsAfter ls c.openers = c.openers)) ∧
    (∀ question ∈ [seesLexicalDeclaration, seesImportCall, seesAsyncFunction],
      ∀ {s' : State} {b : Bool}, Returns question env s b s' → s'.cursor.errors = s.cursor.errors →
        s' = s ∨ ∃ t, Returns peekNext env s t s' ∧
          (s' = s ↔ t.lexeme.brackets s.cursor.openers = s.cursor.openers)) ∧
    ∀ {s' : State} {l : Lexeme}, Returns peekMarkup env s l s' →
      s'.cursor.errors = s.cursor.errors → s' = s := by
  refine ⟨?_, ?_, ?_⟩
  · intro d e ls h he hr
    obtain rfl := Scan.returns_restore.mp hr
    refine ⟨rfl, ?_⟩
    rw [Scan.restored_eq_iff he, h.openers]
  · intro question hq s' b h he
    rcases question_returns hq h with hs | ⟨t, ht⟩
    · exact .inl hs
    · exact .inr ⟨t, ht, peekNext_eq_iff ht he⟩
  · intro s' l h he
    rw [peekMarkup_returns h, he]

/-- Braces that open and close again leave no trace of a look ahead. -/
theorem lookahead_restores_block :
    let st : Scan.Settings := { source := .ofText (Text.ofString "a\x7b\x7d") }
    ∃ d, Scan.Looks st (Scan.start st.source)
        [.identifier [0x61], .punctuator "\x7b", .punctuator "\x7d"] d ∧
      Returns (Scan.restore (Scan.start st.source).toPlace) st d () (Scan.start st.source) := by
  intro st
  have hname : Returns Scan.next st (Scan.start st.source) ⟨.identifier [0x61], 1, 0, 0, 1⟩
    ⟨⟨1, 1, 0⟩, [], []⟩ := by rfl
  have hopen : Returns Scan.next st ⟨⟨1, 1, 0⟩, [], []⟩ ⟨.punctuator "\x7b", 1, 0, 1, 2⟩
    ⟨⟨2, 1, 0⟩, [.brace], []⟩ := by rfl
  have hclose : Returns Scan.next st ⟨⟨2, 1, 0⟩, [.brace], []⟩ ⟨.punctuator "\x7d", 1, 0, 2, 3⟩
    ⟨⟨3, 1, 0⟩, [], []⟩ := by rfl
  have hlooks := Scan.Looks.next hname (.next hopen (.next hclose .stay))
  have hback : Returns (Scan.restore (Scan.start st.source).toPlace) st ⟨⟨3, 1, 0⟩, [], []⟩ ()
    ⟨⟨0, 1, 0⟩, [], []⟩ := by rfl
  have he := ((lookahead_restores_iff st _ default default).1 hlooks rfl hback).2.mpr (by rfl)
  exact ⟨_, hlooks, by rwa [← he]⟩

/-- A single brace stays open after a look ahead. So a pattern after `let` spoils the template around it,
where one after `var` does not. -/
theorem lookahead_leaves_brace :
    (let st : Scan.Settings := { source := .ofText (Text.ofString "\x7b") }
      ∃ d, Scan.Looks st (Scan.start st.source) [.punctuator "\x7b"] d ∧ d.errors = [] ∧
        ¬ Returns (Scan.restore (Scan.start st.source).toPlace) st d () (Scan.start st.source)) ∧
    (parse (Text.ofString "`$\x7bfunction()\x7blet\x7ba\x7d=b\x7d\x7d`")).isOk = false ∧
    (parse (Text.ofString "`$\x7bfunction()\x7bvar\x7ba\x7d=b\x7d\x7d`")).isOk = true := by
  refine ⟨?_, by decide +kernel, by decide +kernel⟩
  intro st
  have hopen : Returns Scan.next st (Scan.start st.source) ⟨.punctuator "\x7b", 1, 0, 0, 1⟩
    ⟨⟨1, 1, 0⟩, [.brace], []⟩ := by rfl
  refine ⟨_, .next hopen .stay, rfl, fun h => ?_⟩
  have := congrArg Scan.Cursor.openers (Scan.returns_restore.mp h)
  exact absurd this (by decide)

end Parse

end ScriptTree
