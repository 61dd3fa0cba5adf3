import ScriptTree.Proofs.Scan.Markup

/-! # Lines in markup

Text between tags and all tokens in them count the lines that they run over, strings excepted: a string in a
tag may hold line ends, and the cursor stays on the line of its opening quote (`markup_placed_iff`). -/

namespace ScriptTree

namespace Text

/-- The code point at the offset is the last one of a line end. -/
def endsLine (t : Text) (i : Nat) : Bool :=
  t[i]?.any isLineTerminator && !(t[i]? == some 0x0D && t[i + 1]? == some 0x0A)

/-- The line of an offset. Between the halves of a pair it is still the line that the pair ends. -/
def lineAt (t : Text) : Nat → Nat
  | 0 => 1
  | i + 1 => lineAt t i + if endsLine t i then 1 else 0

def lineStartAt (t : Text) : Nat → Nat
  | 0 => 0
  | i + 1 => if endsLine t i then i + 1 else lineStartAt t i

variable {t : Text} {i k n : Nat}

theorem lineAt_mono (t : Text) (i n : Nat) : lineAt t i ≤ lineAt t (i + n) := by
  induction n with
  | zero => exact Nat.le_refl _
  | succ n ih => exact Nat.le_trans ih (Nat.le_add_right _ _)

theorem lineAt_lt (hi : i ≤ k) (hk : k < i + n) (h : endsLine t k = true) : lineAt t i < lineAt t (i + n) := by
  obtain ⟨m, rfl⟩ := Nat.exists_eq_add_of_le hi
  obtain ⟨m', hm'⟩ := Nat.exists_eq_add_of_le (show i + m + 1 ≤ i + n from hk)
  have hstep : lineAt t (i + m + 1) = lineAt t (i + m) + 1 := by rw [lineAt, if_pos h]
  have hlast := lineAt_mono t (i + m + 1) m'
  have hfirst := lineAt_mono t i m
  rw [hm']
  omega

theorem lineAt_eq (h : ∀ k, i ≤ k → k < i + n → endsLine t k = false) :
    lineAt t (i + n) = lineAt t i ∧ lineStartAt t (i + n) = lineStartAt t i := by
  induction n with
  | zero => exact ⟨rfl, rfl⟩
  | succ n ih =>
    have hlast : endsLine t (i + n) = false := h _ (Nat.le_add_right _ _) (Nat.lt_succ_self _)
    obtain ⟨hl, hs⟩ := ih fun k hi hk => h k hi (Nat.lt_succ_of_lt hk)
    rw [← Nat.add_assoc, lineAt, lineStartAt, hlast]
    exact ⟨hl, hs⟩

end Text

namespace Scan

variable {t : Text} {st : Settings} {c d : Cursor} {p q : Place}

def Placed (t : Text) (p : Place) : Prop := p.line = t.lineAt p.index ∧ p.lineStart = t.lineStartAt p.index

instance (t : Text) (p : Place) : Decidable (Placed t p) := inferInstanceAs (Decidable (_ ∧ _))

/-- A walk keeps to the lines, wherever it starts. -/
theorem Walk.placed (h : Walk (.ofText t) p q) (hp : Placed t p) : Placed t q := by
  induction h with
  | here => exact hp
  | @char q x _ hx ht ih =>
    rw [Source.getElem?_ofText] at hx
    have he : t.endsLine q.index = false := by simp [Text.endsLine, hx, ht]
    simp only [Placed, Text.lineAt, Text.lineStartAt, he]
    exact ih
  | @line q x _ hx ht ih =>
    rw [Source.getElem?_ofText] at hx
    simp only [Source.lineEnd, Source.getElem?_ofText]
    split
    · rename_i hp
      have he : t.endsLine q.index = false := by simp [Text.endsLine, hp.1, hp.2]
      have he' : t.endsLine (q.index + 1) = true := by simp [Text.endsLine, hp.2, Text.isLineTerminator]
      simp [Placed, Text.lineAt, Text.lineStartAt, he, he', ih.1]
    · rename_i hp
      have he : t.endsLine q.index = true := by
        rw [hx, Decidable.not_and_iff_not_or_not] at hp
        simpa [Text.endsLine, hx, ht] using hp
      simp [Placed, Text.lineAt, Text.lineStartAt, he, ih.1]

/-- A cursor that goes on without counting is on its line as long as no line ends. -/
theorem Proceeds.placed_iff (h : Proceeds st c d) (hc : Placed t c.toPlace) :
    Placed t d.toPlace ↔ ¬ ∃ k, c.index ≤ k ∧ k < d.index ∧ t.endsLine k = true := by
  obtain ⟨n, hn⟩ := Nat.exists_eq_add_of_le h.le
  have hline : d.line = c.line ∧ d.lineStart = c.lineStart := by
    rw [h.still]
    exact ⟨rfl, rfl⟩
  unfold Placed
  rw [hline.1, hline.2, hc.1, hc.2, hn]
  constructor
  · rintro ⟨hl, _⟩ ⟨k, hi, hk, he⟩
    exact absurd hl (Nat.ne_of_lt (Text.lineAt_lt hi hk he))
  · intro hn
    have heq := Text.lineAt_eq (t := t) (i := c.index) (n := n) fun k hi hk =>
      Bool.eq_false_iff.mpr fun he => hn ⟨k, hi, hk, he⟩
    exact ⟨heq.1.symm, heq.2.symm⟩

/-- From a place on its line, text between tags ends on its line. So does a token in a tag unless it starts
with a quote and a line ends in it; then the cursor is left on the line of the quote. -/
theorem markup_placed_iff (t : Text) (st : Settings) (c d : Cursor) (token : Token) (hst : st.source = .ofText t)
    (hc : Placed t c.toPlace) :
    (Returns markup st c token d →
      (Placed t d.toPlace ↔
        ¬ (Quoted st.source c.index ∧ ∃ k, c.index ≤ k ∧ k < d.index ∧ t.endsLine k = true)) ∧
      (Quoted st.source c.index → d.line = c.line ∧ d.lineStart = c.lineStart)) ∧
    (Returns markupText st c token d → Placed t d.toPlace) := by
  refine ⟨fun h => ?_, fun h => ?_⟩
  · rcases (markup_tags h).lines with ⟨hq, hp⟩ | ⟨hq, hg⟩
    · have hline : d.line = c.line ∧ d.lineStart = c.lineStart := by
        rw [hp.still]
        exact ⟨rfl, rfl⟩
      simp only [hq, true_and]
      exact ⟨hp.placed_iff hc, fun _ => hline⟩
    · simp only [hq, false_and, not_false_iff, iff_true]
      exact ⟨(hst ▸ hg.walk).placed hc, fun h => h.elim⟩
  · have hg := ((markupText_gives (E := Failure.IsRejection)).returns h).1
    exact (hst ▸ hg.walk).placed hc

/-- A string with a carriage return and a line feed, and the text behind its tag. -/
theorem markup_placed_iff_pair :
    let t := Text.ofString "<a b='\r\n'>\n</a>"
    let st : Settings := { source := .ofText t }
    (∃ token d, Returns markup st { index := 5, line := 1 } token d ∧
      d.index = 9 ∧ d.line = 1 ∧ t.lineAt 9 = 2 ∧ ¬ Placed t d.toPlace) ∧
    ∃ token d, Returns markupText st { index := 10, line := 2, lineStart := 8 } token d ∧
      d.index = 11 ∧ Placed t d.toPlace := by
  intro t st
  have hstring : Returns markup st { index := 5, line := 1 } ⟨.string [0x0D, 0x0A] false, 1, 0, 5, 9⟩
      { index := 9, line := 1 } := by rfl
  have htext : Returns markupText st { index := 10, line := 2, lineStart := 8 } ⟨.jsxText [0x0A], 3, 11, 10, 11⟩
      { index := 11, line := 3, lineStart := 11 } := by rfl
  have h := ((markup_placed_iff t st _ _ _ rfl (by decide)).1 hstring).1
  refine ⟨⟨_, _, hstring, rfl, rfl, by decide, fun hp => h.mp hp ⟨.inl rfl, 7, by decide, by decide, by decide⟩⟩,
    _, _, htext, rfl, (markup_placed_iff t st _ _ _ rfl (by decide)).2 htext⟩

/-- A line end in a string is not counted. -/
theorem markup_not_placed : ∃ (t : Text) (st : Settings) (c d : Cursor) (token : Token), st.source = .ofText t ∧
    Placed t c.toPlace ∧ Returns markup st c token d ∧ ¬ Placed t d.toPlace :=
  ⟨Text.ofString "<a b='\n' c/>", { source := .ofText (Text.ofString "<a b='\n' c/>") }, { index := 5, line := 1 },
    { index := 8, line := 1 }, ⟨.string [0x0A] false, 1, 0, 5, 8⟩, rfl, by decide, rfl, by decide⟩

end Scan

end ScriptTree
