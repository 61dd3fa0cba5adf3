import ScriptTree.Proofs.Scan.Comments
import ScriptTree.Proofs.Scan.Tokens

/-! # Open brackets

A piece of a template between two substitutions opens the second before it closes the first, and both are the same. So
at any time the brackets that are open are those that the tokens have opened and not closed (`looks_unmatched`), which
decides what a closing brace is. -/

namespace ScriptTree

namespace Lexeme

/-- The bracket that a token opens. -/
def opener? : Lexeme → Option Scan.Opener
  | .punctuator mark => if mark == "\x7b" then some .brace else none
  | .template _ _ _ tail => if tail then none else some .substitution
  | _ => none

/-- The token closes a bracket. -/
def closes : Lexeme → Bool
  | .punctuator mark => mark == "\x7d"
  | .template _ _ head _ => !head
  | _ => false

def isPiece : Lexeme → Bool
  | .template .. => true
  | _ => false

/-- The openers without a match after a token, innermost first. A token that closes more than is open is passed over. -/
def matched (open' : List Scan.Opener) (l : Lexeme) : List Scan.Opener :=
  l.opener?.toList ++ if l.closes then open'.tail else open'

end Lexeme

namespace Scan

variable {st : Settings} {c d e : Cursor}

/-- White space and comments are skipped and tokens are taken, in any order. -/
inductive Looks (st : Settings) : Cursor → List Lexeme → Cursor → Prop
  | stay {c : Cursor} : Looks st c [] c
  | comments {c d e : Cursor} {ms : List Comment} {ls : List Lexeme} :
      Returns comments st c ms d → Looks st d ls e → Looks st c ls e
  | next {c d e : Cursor} {t : Token} {ls : List Lexeme} :
      Returns next st c t d → Looks st d ls e → Looks st c (t.lexeme :: ls) e

/-- What tokens one after the other do to the open brackets. -/
def bracketsAfter (ls : List Lexeme) (open' : List Opener) : List Opener :=
  ls.foldl (fun o l => l.brackets o) open'

theorem comments_openers {ms : List Comment} (h : Returns comments st c ms d) : d.openers = c.openers := by
  obtain ⟨found, hs, -⟩ := comments_skip h
  exact hs.openers

theorem Looks.openers {ls : List Lexeme} (h : Looks st c ls d) : d.openers = bracketsAfter ls c.openers := by
  induction h with
  | stay => rfl
  | comments hc _ ih => rw [ih, comments_openers hc]
  | next hn _ ih =>
    rw [ih, next_openers hn]
    rfl

/-- The openers of tokens that no later one closes. -/
def unmatched (ls : List Lexeme) : List Opener := ls.foldl Lexeme.matched []

variable {t : Token}

/-- Only inside a substitution is there a piece that is not the first one. -/
theorem next_continues {raw cooked : Text} {tail : Bool} (h : Returns next st c t d)
    (hl : t.lexeme = .template raw cooked false tail) : c.openers.head? = some .substitution := by
  rcases next_cases h with ⟨-, rfl, -⟩ | ⟨-, x, hx, h⟩
  · cases hl
  cases h with
  | name h => exact absurd hl (h.notPiece _ _ _ _)
  | literal h => exact absurd hl (h.notPiece _ _ _ _)
  | piece hp h =>
    obtain ⟨_, _, _, _, hl', -, hhead⟩ := h.piece
    cases hl.symm.trans hl'
    exact (hp.resolve_left fun h60 => hhead rfl (h60 ▸ hx)).2
  | mark h =>
    obtain ⟨mark, hm⟩ := h.isMark
    cases hl.symm.trans hm

theorem next_matched (h : Returns next st c t d) : d.openers = t.lexeme.matched c.openers := by
  rw [next_openers h]
  cases hl : t.lexeme with
  | punctuator mark =>
    by_cases ho : mark = "\x7b"
    · subst ho
      rfl
    · by_cases hc : mark = "\x7d" <;> simp [Lexeme.brackets, Lexeme.matched, Lexeme.opener?, Lexeme.closes, ho, hc]
  | template raw cooked head tail =>
    cases head with
    | true => cases tail <;> rfl
    | false =>
      cases tail with
      | true => rfl
      | false =>
        -- what is closed is what is opened
        obtain ⟨rest, ho⟩ := List.head?_eq_some_iff.mp (next_continues h hl)
        rw [ho]
        rfl
  | _ => rfl

theorem Looks.matched {ls : List Lexeme} (h : Looks st c ls d) : d.openers = ls.foldl Lexeme.matched c.openers := by
  induction h with
  | stay => rfl
  | comments hc _ ih => rw [ih, comments_openers hc]
  | next hn _ ih => rw [ih, next_matched hn, List.foldl_cons]

theorem next_brace (hx : st.source.chars[c.index]? = some 0x7D) (h : Returns next st c t d) :
    t.lexeme.isPiece = true ↔ c.openers.head? = some .substitution := by
  have hlt := Source.lt_length_of_getElem? hx
  replace hx := (Source.at?_of_lt hlt).trans hx
  rcases h.atEnd with ⟨he, -⟩ | ⟨-, h⟩
  · omega
  obtain ⟨x, hx', h⟩ := h.here
  obtain rfl : 0x7D = x := Option.some.inj (hx.symm.trans hx')
  rw [if_neg (by decide), if_neg (by decide), if_neg (by decide), if_neg (by decide)] at h
  rcases h.get.ite with ⟨ht, h⟩ | ⟨ht, h⟩
  · obtain ⟨_, _, _, _, hl, -⟩ := ((template_takes (E := Failure.IsRejection) hx (.inr rfl)).returns h).piece
    rw [hl]
    simpa [Lexeme.isPiece] using ht
  · obtain ⟨mark, hl⟩ := ((punctuator_takes (E := Failure.IsRejection) hx).returns h).isMark
    rw [hl]
    simpa [Lexeme.isPiece] using ht

/-- Whatever was skipped and taken from the start of a source, the brackets that are open are those that the tokens have
opened and not closed, and a closing brace goes on with a template exactly if the innermost of them is a
substitution. -/
theorem looks_unmatched (st : Settings) (ls : List Lexeme) (c : Cursor) (h : Looks st (start st.source) ls c) :
    c.openers = unmatched ls ∧ (st.source.chars[c.index]? = some 0x7D → ∀ t d, Returns next st c t d →
      (t.lexeme.isPiece = true ↔ (unmatched ls).head? = some .substitution)) := by
  have ho : c.openers = unmatched ls := h.matched
  exact ⟨ho, fun hx t d hn => ho ▸ next_brace hx hn⟩

/-- Between two substitutions. -/
theorem looks_unmatched_middle : let st : Settings := { source := .ofText (Text.ofString "`$\x7b\x7d$\x7b\x7d`") }
    let ls : List Lexeme := [.template [] [] true false, .template [] [] false false]
    ∃ c, Looks st (start st.source) ls c ∧ c.openers = [.substitution] ∧
      ∀ t d, Returns next st c t d → t.lexeme.isPiece = true := by
  intro st ls
  have hhead : Returns next st (start st.source) ⟨.template [] [] true false, 1, 0, 0, 3⟩
    ⟨⟨3, 1, 0⟩, [.substitution], []⟩ := by rfl
  have hmiddle : Returns next st ⟨⟨3, 1, 0⟩, [.substitution], []⟩ ⟨.template [] [] false false, 1, 0, 3, 6⟩
    ⟨⟨6, 1, 0⟩, [.substitution], []⟩ := by rfl
  have hlooks := Looks.next hhead (.next hmiddle .stay)
  have hrun := looks_unmatched st ls _ hlooks
  exact ⟨_, hlooks, rfl, fun t d hn => (hrun.2 rfl t d hn).mpr rfl⟩

end Scan

end ScriptTree
