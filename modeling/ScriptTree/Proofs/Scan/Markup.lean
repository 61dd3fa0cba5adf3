import ScriptTree.Lexeme.Markup
import ScriptTree.Proofs.Scan.Tokens

/-! # Tokens of markup

In a tag and between tags the scan goes forward inside the program too. A character reference that names no
character is the only thing there that fails other than by rejecting the program (`markup_raises`), and it
starts with an ampersand and a number sign. -/

namespace ScriptTree.Scan

variable {st : Settings} {c d : Cursor} {t : Token} {x : Nat} {e : Failure} {r : Reference} {quote n : Nat}
  {b : Cursor} {E : Failure → Prop}

/-- The cursor goes forward inside the program, and all else stays as it is, the line too. -/
structure Proceeds (st : Settings) (c d : Cursor) : Prop where
  le : c.index ≤ d.index
  bound : c.index ≤ st.source.length → d.index ≤ st.source.length
  still : d = { c with index := d.index }

theorem Proceeds.refl (st : Settings) (c : Cursor) : Proceeds st c c := ⟨Nat.le_refl _, id, rfl⟩

theorem Proceeds.trans {e : Cursor} (h : Proceeds st c d) (h' : Proceeds st d e) : Proceeds st c e :=
  ⟨Nat.le_trans h.le h'.le, fun hc => h'.bound (h.bound hc), h'.still.trans (by rw [h.still])⟩

theorem Proceeds.step (hlt : c.index < st.source.length) : Proceeds st c { c with index := c.index + 1 } :=
  ⟨Nat.le_succ _, fun _ => hlt, rfl⟩

/-- A reference is kept up to its second character, or it is one by a number. -/
structure Numbered (src : Source) (i : Nat) (r : Reference) : Prop where
  short : r.text.length = 1 → r.isDecimal = false ∧ r.isHex = false
  marked : r.isDecimal = true ∨ r.isHex = true → src.at? i = some 0x23
  nonempty : 0 < r.text.length

theorem Numbered.push {src : Source} {i j : Nat} (hr : Numbered src i r)
    (hj : r.text.length = 1 → j = i) (hx : src.at? j = some x) : Numbered src i (r.push x) := by
  have hlong : (r.text ++ [x]).length ≠ 1 := by
    have := hr.nonempty
    simp only [List.length_append, List.length_singleton]
    omega
  have hpos : 0 < (r.text ++ [x]).length := by simp
  unfold Reference.push
  dsimp only
  split
  · exact ⟨fun h => absurd h hlong, hr.marked, hpos⟩
  split
  · rename_i hlen
    have hone : r.text.length = 1 := by simpa using hlen
    refine ⟨fun h => absurd h hlong, fun h => ?_, hpos⟩
    rcases h with h | h
    · rw [← hj hone, hx, eq_of_beq h]
    · rw [(hr.short hone).2] at h
      cases h
  split
  · split
    · rename_i hdec
      exact ⟨fun h => absurd h hlong, fun _ => hr.marked (.inl hdec), hpos⟩
    · exact ⟨fun h => absurd h hlong, hr.marked, hpos⟩
  · exact ⟨fun h => absurd h hlong, hr.marked, hpos⟩

theorem push_length (r : Reference) (x : Nat) : (r.push x).text.length = r.text.length + 1 := by
  unfold Reference.push
  dsimp only
  split
  · simp
  split
  · simp
  split
  · split <;> simp
  · simp

/-- A reference goes on inside the program. -/
theorem referenceTail_proceeds {i : Nat} (hb : Proceeds st b c) (hr : Numbered st.source i r)
    (hi : c.index + 1 = i + r.text.length) : Gives E st c (referenceTail quote n r) fun r d =>
      Proceeds st b d ∧ Numbered st.source i r := by
  induction n generalizing c r with
  | zero => exact .pure ⟨hb, hr⟩
  | succ n ih =>
    refine .first rfl <| .ite (fun _ => .pure ⟨hb, hr⟩) fun hlt => ?_
    simp only [Bool.or_eq_true, decide_eq_true_eq, not_or, Nat.not_le] at hlt
    refine .here (Nat.le_of_lt hlt.1.1) fun x hx => .fork (.pure ⟨hb, hr⟩) <| .advance <|
      ih (hb.trans (.step hlt.1.1)) (hr.push (fun hone => by omega) hx) ?_
    rw [push_length]
    show c.index + 1 + 1 = _
    omega

/-- The failures of a reference that names no character. -/
def IsBadReference (e : Failure) : Prop :=
  e = .tooManyDigits ∨ e = .hugeCodePoint ∨ e = .noSuchCodePoint

theorem codePoint_error {code : Nat} (h : Reference.codePoint code = .error e) :
    IsBadReference e := by
  unfold Reference.codePoint at h
  split at h
  · cases h; exact .inr (.inl rfl)
  · split at h
    · cases h; exact .inr (.inr rfl)
    · cases h

theorem value_error (h : r.value = .error e) : IsBadReference e ∧ (r.isDecimal = true ∨ r.isHex = true) := by
  unfold Reference.value at h
  dsimp only at h
  split at h
  · cases h
  split at h
  · rename_i hdec
    refine ⟨?_, .inl hdec⟩
    split at h
    · cases h
    · split at h
      · cases h; exact .inl rfl
      · exact codePoint_error h
  split at h
  · rename_i hhex
    refine ⟨?_, .inr hhex⟩
    split at h
    · cases h
    · exact codePoint_error h
  · split at h <;> cases h

/-- A scan in a tag fails because of a reference that names no character, or it rejects the program. -/
def Misreads (src : Source) (e : Failure) : Prop :=
  e.IsRejection ∨ IsBadReference e ∧ src.Has (Text.ofString "&#")

instance (src : Source) : Admits (Misreads src) := ⟨fun x => .inl ⟨x, rfl⟩⟩

/-- A reference follows its ampersand. -/
theorem reference_proceeds (hb : Proceeds st b c) (hx : st.source.at? (c.index - 1) = some 0x26) (hc : 0 < c.index) :
    Gives (Misreads st.source) st c (reference quote) fun _ => Proceeds st b := by
  refine .ahead <| .bind (referenceTail_proceeds hb ⟨fun _ => ⟨rfl, rfl⟩, by simp, by decide⟩ rfl) fun {r u} ⟨hu, hr⟩ => ?_
  split
  · exact .pure hu
  · rename_i e hv
    obtain ⟨hbad, hnum⟩ := value_error hv
    have hi : c.index - 1 + 1 = c.index := by omega
    exact .throw (.inr ⟨hbad, .pair hx (by decide) (hi ▸ hr.marked hnum) (by decide)⟩)

theorem markupString_proceeds (hb : Proceeds st b c) :
    Gives (Misreads st.source) st c (markupString quote n) fun _ => Proceeds st b := by
  induction n generalizing c with
  | zero => exact .pure hb
  | succ n ih =>
    refine .atEnd (fun _ => .pure hb) fun hlt => .take (Nat.le_of_lt hlt) fun x hx => ?_
    have hs := hb.trans (.step hlt)
    refine .fork (.pure hs) <| .ite (fun ha => ?_) fun _ => .map (ih hs)
    exact .bind (reference_proceeds hs (eq_of_beq ha ▸ hx) (Nat.succ_pos _)) fun h => .map (ih h)

def Quoted (src : Source) (i : Nat) : Prop := src.at? i = some 0x27 ∨ src.at? i = some 0x22

/-- A token of a tag: the cursor is behind it, and it is not empty unless the program ends before it or it
is a template, which is not taken. No token opens or closes a bracket, as braces are not counted. Line ends are
counted but for those in quotes. -/
structure Tags (st : Settings) (c : Cursor) (t : Token) (d : Cursor) : Prop where
  le : c.index ≤ d.index
  bound : d.index ≤ st.source.length
  openers : d.openers = c.openers
  lines : Quoted st.source c.index ∧ Proceeds st c d ∨ ¬ Quoted st.source c.index ∧ Glides st c d
  shown : t.lexeme.Shown st.source
  lt : c.index < d.index ∨ t.lexeme = .endOfInput ∨ t.lexeme = .template [] [] false false
  spot : t.start = c.index ∧ t.line = d.line

theorem Tags.of_glides {l : Lexeme} (hx : st.source.at? c.index = some x) (hq : x ≠ 0x27 ∧ x ≠ 0x22) (h : Glides st c d)
    (hl : l.Shown st.source) (hlt : c.index < d.index ∨ l = .endOfInput ∨ l = .template [] [] false false) :
    Tags st c ⟨l, d.line, d.lineStart, c.index, d.index⟩ d := by
  have hn : ¬ Quoted st.source c.index := by
    simp only [Quoted, hx, Option.some.injEq]
    exact not_or.mpr hq
  exact ⟨h.index_le, h.index_le_length (Source.le_length_of_at? hx), h.openers, .inr ⟨hn, h⟩, hl, hlt, rfl, rfl⟩

theorem markup_gives (hc : c.index ≤ st.source.length) : Gives (Misreads st.source) st c markup (Tags st c) := by
  refine .index <| .here hc fun x hx => ?_
  dsimp only
  split
  · rename_i mark hm
    have hmark : Text.Inner x ∧ x ≠ 0x27 ∧ x ≠ 0x22 := by
      have hw := List.find?_some hm
      have hmem := List.mem_of_find?_eq_some hm
      have hall : ∀ m ∈ ["<", ">", "/", ":", "=", "\x7b", "\x7d"], ∀ y ∈ Text.ofString m,
          Text.Inner y ∧ y ≠ 0x27 ∧ y ≠ 0x22 := by decide
      exact hall mark hmem x (by rw [eq_of_beq hw]; exact List.mem_singleton_self x)
    exact .advance <| .token <|
      .of_glides hx hmark.2 (Slides.inner hx hmark.1).toGlides (.of_value rfl) (.inl (Nat.lt_succ_self _))
  rename_i hm
  refine .ite (fun hq => .advance <| .ahead ?_) fun hq => ?_
  · have hi : Text.Inner x := Text.inner_of (fun x => x == 0x27 || x == 0x22) hq
    refine .bind (markupString_proceeds (.refl st _)) fun h => ?_
    have hp := (Proceeds.step (Source.lt_length_of_at? hx hi.1)).trans h
    have hquoted : Quoted st.source c.index := by
      simpa only [Quoted, hx, Option.some.injEq, Bool.or_eq_true, beq_iff_eq] using hq
    exact .token ⟨hp.le, hp.bound hc, hp.still ▸ rfl, .inl ⟨hquoted, hp⟩, .of_value rfl, .inl h.le, rfl, rfl⟩
  have hq : x ≠ 0x27 ∧ x ≠ 0x22 := by simpa using hq
  refine .ite (fun hp => ?_) fun _ => .ite (fun _ => ?_) fun hq' => .ite (fun hs => ?_) fun _ => ?_
  · rw [eq_of_beq hp] at hx hq
    refine .first rfl ?_
    cases hs : st.source.hasAt c.index "..." with
    | true =>
      have hdots := Slides.along hs (by decide) 3 (by decide)
      exact .advance <| .token <|
        .of_glides hx hq hdots.toGlides (.of_value rfl) (.inl (Nat.lt_add_of_pos_right (by decide)))
    | false =>
      exact .advance <| .token <|
        .of_glides hx hq (Slides.inner hx (by decide)).toGlides (.of_value rfl) (.inl (Nat.lt_succ_self _))
  · exact .token <| .of_glides hx hq (.refl st c) (.of_value rfl) (.inr (.inr rfl))
  · simp only [Bool.and_eq_true] at hs
    have hi := Text.inner_of_isIdentifierStart hs.1
    refine .advance <| .ahead <| .bind (takeWhile_runs (fun hy => Text.inner_of isMarkupPart hy (by decide +kernel))
      (Source.lt_length_of_at? hx hi.1)) fun hw => .first rfl <| .token ?_
    exact .of_glides hx hq ((Slides.inner hx hi).trans hw.toSlides).toGlides (.of_value rfl) (.inl hw.index_le)
  · refine next_gives.mono fun {t d} h => ?_
    rcases h with ⟨_, rfl, rfl⟩ | ⟨_, y, hy, h⟩
    · exact .of_glides hx hq (.refl st _) (.of_value rfl) (.inr (.inl rfl))
    obtain rfl : x = y := Option.some.inj (hx.symm.trans hy)
    have hk := h.takes
    -- the other tokens are those outside tags, but for templates and braces
    have hopen : x ≠ 0x7B := by rintro rfl; exact hm "\x7b" (by decide +kernel)
    have hclose : x ≠ 0x7D := by rintro rfl; exact hm "\x7d" (by decide +kernel)
    have hopeners : d.openers = c.openers := by
      rw [hk.openers]
      cases h with
      | name h => exact h.plain _
      | literal h => exact h.plain _
      | piece hi _ => exact absurd hi (by simp_all)
      | mark h => exact h.plain hopen hclose _
    obtain ⟨l, _, _, _, _⟩ := t
    obtain ⟨rfl, rfl⟩ := hk.line
    obtain rfl := hk.start
    obtain rfl := hk.stop
    exact .of_glides hx hq ⟨hk.walk, hopeners⟩ hk.shown (.inl hk.lt)

theorem markup_tags (h : Returns markup st c t d) : Tags st c t d := by
  obtain ⟨x, hx, -⟩ := (Returns.index h).here
  exact (markup_gives (Source.le_length_of_at? hx)).returns h

theorem markup_raises (h : Raises markup st c e) (hc : c.index ≤ st.source.length) : Misreads st.source e :=
  (markup_gives hc).raises h

theorem markupTextTail_glides (hb : Glides st b c) : Gives E st c (markupTextTail n) fun _ => Glides st b := by
  induction n generalizing c with
  | zero => exact .pure hb
  | succ n ih =>
    refine .atEnd (fun _ => .pure hb) fun hlt => .here (Nat.le_of_lt hlt) fun x hx => .fork (.pure hb) <| .advance <|
      .ite (fun ht => ?_) fun ht => ?_
    · exact .bind (Glides.newLine (Source.getElem?_of_at? hx hlt) ht) fun h => .map (ih (hb.trans h))
    · exact .map (ih (hb.slide (.char (Source.getElem?_of_at? hx hlt) (by simpa using ht))))

theorem markupText_gives : Gives E st c markupText fun t d => Glides st c d ∧ t.lexeme.Shown st.source :=
  .index <| .ahead <| .bind (markupTextTail_glides (.refl st c)) fun h => .token ⟨h, .of_value rfl⟩

end ScriptTree.Scan
