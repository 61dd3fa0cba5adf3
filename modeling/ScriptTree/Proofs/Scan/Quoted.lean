import ScriptTree.Proofs.Scan.Literals

/-! # Literals between marks

Strings, pieces of templates and regular expressions. An escape in them may take the end mark for a
character and leave the program; `stringTail_none` and its like say that no literal comes of that. -/

namespace ScriptTree.Scan

variable {inSet : Bool} {quote n x : Nat} {α : Type} {E : Failure → Prop} {st : Settings} {b c d : Cursor}

/-- A character that was taken stands in the line of the cursor, or it is the end mark. -/
theorem taken_slides (hx : st.source.at? c.index = some x) (ht : Text.isLineTerminator x = false) :
    Slides st c { c with index := c.index + 1 } ∨ x = 0 ∧ st.source.length ≤ c.index := by
  by_cases hlt : c.index < st.source.length
  · exact .inl (.char (Source.getElem?_of_at? hx hlt) ht)
  · exact .inr ⟨Decidable.byContradiction fun h0 => hlt (Source.lt_length_of_at? hx h0), Nat.le_of_not_lt hlt⟩

/-- An escape: a line end is taken as a whole, and what any other code point means is up to the literal. The end
mark means itself. -/
theorem escape_glides {a v : α} {f : Nat → Scan α} (hc : c.index ≤ st.source.length) (h0 : f 0 = pure v)
    (hf : ∀ x, st.source.at? c.index = some x → c.index < st.source.length →
      Gives E st { c with index := c.index + 1 } (f x) fun _ => Glides st { c with index := c.index + 1 }) :
    Gives E st c (do
      let x ← take
      if Text.isLineTerminator x then
        newLine x
        return a
      else f x) fun _ d => Glides st c d ∨ st.source.length < d.index := by
  refine .take hc fun x hx => .ite (fun ht => ?_) fun ht => ?_
  · have hx0 : x ≠ 0 := by rintro rfl; cases ht
    exact .bind (Glides.newLine (Source.getElem?_of_at?_ne hx hx0) ht) fun h => .pure (.inl h)
  by_cases hlt : c.index < st.source.length
  · have hs := (Slides.char (Source.getElem?_of_at? hx hlt) (by simpa using ht)).toGlides
    exact (hf x hx hlt).mono fun h => .inl (hs.trans h)
  · obtain ⟨rfl, hend⟩ := (taken_slides hx (by simpa using ht)).resolve_left fun h =>
      hlt (Nat.lt_of_lt_of_le (Nat.lt_succ_self _) (h.walk.bound (Nat.lt_succ_self _)))
    rw [h0]
    exact .pure (.inr (Nat.lt_succ_of_le hend))

/-- Behind the end there is no rest of a string. -/
theorem stringTail_none (hc : st.source.length ≤ c.index) : Gives E st c (stringTail quote n) fun r _ => r = none := by
  cases n with
  | zero => exact .pure rfl
  | succ n => exact .atEnd (fun _ => .pure rfl) fun hlt => absurd hc (Nat.not_le.mpr hlt)

/-- Behind the end there is no rest of a piece. -/
theorem templateTail_none (hc : st.source.length ≤ c.index) : Gives E st c (templateTail n) fun r _ => r = none := by
  cases n with
  | zero => exact .pure rfl
  | succ n => exact .atEnd (fun _ => .pure rfl) fun hlt => absurd hc (Nat.not_le.mpr hlt)

variable [Admits E]

theorem bracedEscape_glides {g : Nat → α} (hx : st.source.at? c.index = some 0x7B) :
    Gives E st c (do advance 1; return g (← bracedEscape)) fun _ => Glides st c := by
  refine .advance <| .map <| Gives.mono (P := fun _ => Slides st c) ?_ Slides.toGlides
  exact bracedEscape_slides (Source.lt_length_of_at? hx (by decide)) (.inner hx (by decide))

/-- A literal that an escape by digits is needed in is rejected if some are missing. -/
theorem hexEscape_glides {l : Nat} {m : Message} {f : Option Nat → Scan α} {g : Nat → α} (hn : f none = reject m)
    (hs : ∀ v, f (some v) = pure (g v)) : Gives E st c (hexEscape l >>= f) fun _ => Glides st c :=
  .bind (hexEscape_slides (.refl st c)) fun {v u} hu => by
    cases v with
    | none => rw [hn]; exact .reject
    | some v => rw [hs]; exact .pure hu.toGlides

theorem stringEscape_glides (hc : c.index ≤ st.source.length) :
    Gives E st c stringEscape fun _ d => Glides st c d ∨ st.source.length < d.index := by
  refine escape_glides hc rfl fun x hx hlt => .fork (.here hlt fun y hy => .ite (fun hb => ?_) fun _ =>
    hexEscape_glides rfl fun _ => rfl) (.fork (hexEscape_glides rfl fun _ => rfl) ?_)
  · exact bracedEscape_glides (eq_of_beq hb ▸ hy)
  split
  · exact .pure (.refl st _)
  refine .fork (.complain fun _ _ => .pure ⟨.here, rfl⟩) (.ite (fun ho => ?_) fun _ => .pure (.refl st _))
  exact .bind (octalEscape_slides ho (.refl st _)) fun h => .map (.character (by omega) h.1.toGlides)

theorem stringTail_glides (hq : Text.Inner quote) (hb : Glides st b c) :
    Gives E st c (stringTail quote n) fun r d => r.isSome → Glides st b d := by
  induction n generalizing c with
  | zero => exact .pure (by simp)
  | succ n ih =>
    refine .atEnd (fun _ => .pure (by simp)) fun hlt => .take (Nat.le_of_lt hlt) fun x hx => .ite (fun he => ?_) fun _ => ?_
    · exact .pure fun _ => hb.slide (.inner hx (eq_of_beq he ▸ hq))
    refine .ite (fun he => ?_) fun _ => .ite (fun _ => .pure (by simp)) fun ht => ?_
    · obtain rfl : x = 0x5C := by simpa using he
      refine .bind (stringEscape_glides hlt) ?_
      rintro ⟨value, octal⟩ e (he | hp)
      · refine .bind (ih ((hb.slide (.inner hx (by decide))).trans he)) fun h => .pure fun hr => h ?_
        simpa using hr
      · refine .bind (stringTail_none (Nat.le_of_lt hp)) fun h => .pure ?_
        rw [h]
        simp
    · have hs := hb.slide (.char (Source.getElem?_of_at? hx hlt) (by simpa using ht))
      exact .bind (ih hs) fun h => .pure fun hr => h (by simpa using hr)

theorem string_takes (hx : st.source.at? c.index = some x) (hq : (x == 0x27 || x == 0x22) = true) :
    Gives E st c string (TakesLiteral st c) := by
  have hi : Text.Inner x := Text.inner_of (fun x => x == 0x27 || x == 0x22) hq
  refine .index <| .known hx <| .ite (fun _ => .advance <| .ahead ?_) fun hn => absurd hq hn
  refine .bind (stringTail_glides hi (.refl st _)) fun {r d} h => ?_
  cases r with
  | none => exact .seek .reject
  | some r => exact ((Starts.inner hx hi).trans (h rfl)).takesLiteral ⟨fun _ => rfl, nofun, nofun, nofun, .of_value rfl⟩

/-! ## Templates -/

theorem templateEscape_glides (hc : c.index ≤ st.source.length) :
    Gives E st c templateEscape fun _ d => Glides st c d ∨ st.source.length < d.index := by
  refine escape_glides hc rfl fun x hx hlt => .fork (.here hlt fun y hy => .ite (fun hb => ?_) fun _ => .index ?_)
    (.fork (hexEscape_glides rfl fun _ => rfl) ?_)
  · exact bracedEscape_glides (eq_of_beq hb ▸ hy)
  · refine .bind (hexEscape_slides (.refl st _)) fun {v u} hu => ?_
    cases v with
    | some v => exact .pure hu.toGlides
    | none =>
      -- without enough digits the letter stands for itself, and the digits are read again
      exact .seek <| .pure hu.rewind
  split
  · exact .pure (.refl st _)
  exact .fork (.here hlt fun _ _ => .guard fun _ => .pure (.refl st _)) <| .fork .reject (.pure (.refl st _))

/-- A piece is passed over, and a substitution is opened if the template goes on. -/
structure Pieces (st : Settings) (c : Cursor) (last : Bool) (d : Cursor) : Prop where
  walk : Walk st.source c.toPlace d.toPlace
  openers : d.openers = if last then c.openers else .substitution :: c.openers
  has : last = false → st.source.Has (Text.ofString "$\x7b")

theorem templateTail_pieces (hb : Glides st b c) :
    Gives E st c (templateTail n) fun r d => ∀ x ∈ r, Pieces st b x.2 d := by
  induction n generalizing c with
  | zero => exact .pure (by simp)
  | succ n ih =>
    refine .atEnd (fun _ => .pure (by simp)) fun hlt => .take (Nat.le_of_lt hlt) fun x hx => ?_
    have hget := Source.getElem?_of_at? hx hlt
    extract_lets more
    -- what comes before the rest moves the cursor only
    have hmore : ∀ value {e}, Glides st b e → Gives E st e (more value) fun r d => ∀ x ∈ r, Pieces st b x.2 d := by
      refine fun value e he => .bind (ih he) fun {tail d} h => .pure fun x hx => ?_
      obtain ⟨y, hy, rfl⟩ := Option.map_eq_some_iff.mp hx
      exact h y hy
    refine .ite (fun hq => ?_) fun _ => .ite (fun hd => .here hlt fun y hy => ?_) fun _ => .ite (fun he => ?_) fun _ => ?_
    · obtain rfl : x = 0x60 := by simpa using hq
      refine .pure fun x hx => ?_
      cases hx
      exact ⟨hb.walk.trans (.char .here hget rfl), hb.openers, nofun⟩
    · obtain rfl : x = 0x24 := by simpa using hd
      have hs : Glides st b { c with index := c.index + 1 } := hb.slide (.char hget rfl)
      refine .ite (fun ho => .first rfl <| .advance <| .pure fun x hx' => ?_) fun _ => hmore _ hs
      obtain rfl : y = 0x7B := by simpa using ho
      cases hx'
      exact ⟨hs.walk.trans (Slides.inner hy (by decide)).walk, congrArg _ hb.openers,
        fun _ => .pair hx (by decide) hy (by decide)⟩
    · obtain rfl : x = 0x5C := by simpa using he
      refine .bind (templateEscape_glides hlt) ?_
      rintro value e (he | hp)
      · exact hmore value ((hb.slide (.char hget rfl)).trans he)
      · refine .bind (templateTail_none (Nat.le_of_lt hp)) fun h => .pure ?_
        rw [h]
        simp
    refine .ite (fun ht => .bind (Glides.newLine hget ht) fun h => hmore _ (hb.trans h)) fun ht => ?_
    exact hmore _ (hb.slide (.char hget (by simpa using ht)))

/-- A piece of a template tells whether it is the first and the last one. -/
structure TakesPiece (st : Settings) (c : Cursor) (t : Token) (d : Cursor) : Prop extends Takes st c t d where
  piece : ∃ raw cooked head tail, t.lexeme = .template raw cooked head tail ∧
    (tail = false → st.source.Has (Text.ofString "$\x7b")) ∧ (head = false → st.source.at? c.index ≠ some 0x60)

theorem template_takes (hx : st.source.at? c.index = some x) (hi : x = 0x60 ∨ x = 0x7D) :
    Gives E st c template (TakesPiece st c) := by
  refine .index <| .known hx <| .advance <| .ahead <| .bind (templateTail_pieces (.refl st _)) fun {r e} h => ?_
  have hs : Slides st c { c with index := c.index + 1 } := .inner hx (by rcases hi with rfl | rfl <;> decide)
  have hhead : (x == 0x60) = false → st.source.at? c.index ≠ some 0x60 := by
    rw [hx]
    rintro hne ⟨⟩
    cases hne
  cases r with
  | none => exact .reject
  | some r =>
    obtain ⟨hw, ho, hp⟩ := h r rfl
    have hlt : c.index < e.index := hw.index_le
    refine .ite (fun hh => ?_) fun hh => .first rfl ?_
    all_goals
      exact .index <| .first rfl <| .token ⟨⟨hs.walk.trans hw, by simp [Lexeme.brackets, hh, ho], nofun, nofun, rfl, rfl,
        hlt, ⟨rfl, rfl⟩, nofun, .of_value rfl⟩, _, _, _, _, rfl, hp, hhead⟩

/-! ## Regular expressions -/

/-- Behind the end no regular expression goes on. -/
theorem regexTail_past (hc : st.source.length ≤ c.index) : Gives E st c (regexTail n inSet) fun _ _ => False := by
  cases n with
  | zero => exact .reject
  | succ n => exact .atEnd (fun _ => .rejects) fun hlt => absurd hc (Nat.not_le.mpr hlt)

/-- The rest of a body, from inside brackets or outside of them. -/
inductive Goes : Bool → Text → Prop
  | done : Goes false []
  | escape {inSet : Bool} {x : Nat} {t : Text} : Text.isLineTerminator x = false → Goes inSet t → Goes inSet (0x5C :: x :: t)
  | inside {x : Nat} {t : Text} : x ≠ 0x5C → Text.isLineTerminator x = false → Goes (x != 0x5D) t → Goes true (x :: t)
  | outside {x : Nat} {t : Text} : x ≠ 0x5C → Text.isLineTerminator x = false → x ≠ 0x2F → Goes (x == 0x5B) t →
      Goes false (x :: t)

theorem regexTail_goes (hb : Glides st b c) : Gives E st c (regexTail n inSet) fun t d =>
    Glides st b d ∧ Goes inSet t ∧ t ++ [0x2F] <+: st.source.chars.toList.drop c.index := by
  induction n generalizing c inSet with
  | zero => exact .reject
  | succ n ih =>
    refine .atEnd (fun _ => .rejects) fun hlt => .take (Nat.le_of_lt hlt) fun x hx => ?_
    have hget := Source.getElem?_of_at? hx hlt
    rw [Source.drop_eq_cons hget]
    refine .ite (fun he => .take hlt fun y hy => .guard fun ht => ?_) fun he => .ite (fun _ => .reject) fun ht => ?_
    · obtain rfl : x = 0x5C := by simpa using he
      rcases taken_slides hy (by simpa using ht) with hs | ⟨-, he⟩
      · refine .bind (ih ((hb.slide (.char hget rfl)).slide hs)) fun ⟨hd, hg, hp⟩ => .pure ⟨hd, .escape (by simpa using ht) hg, ?_⟩
        have hy := Source.getElem?_of_at? hy (hs.walk.bound (Nat.lt_succ_self _))
        simpa [Source.drop_eq_cons hy] using hp
      · exact .bind (regexTail_past (Nat.le_succ_of_le he)) False.elim
    · have hs := hb.slide (.char hget (by simpa using ht))
      have hx' : x ≠ 0x5C ∧ Text.isLineTerminator x = false := ⟨by simpa using he, by simpa using ht⟩
      refine .ite (fun hk => ?_) fun hk => .ite (fun hslash => .pure ?_) fun hslash => ?_
      · subst hk
        refine .bind (ih hs) fun ⟨hd, hg, hp⟩ => .pure ⟨hd, .inside hx'.1 hx'.2 hg, ?_⟩
        simpa using hp
      · obtain rfl : x = 0x2F := by simpa using hslash
        obtain rfl : inSet = false := by simpa using hk
        exact ⟨hs, .done, by simp⟩
      · obtain rfl : inSet = false := by simpa using hk
        refine .bind (ih hs) fun ⟨hd, hg, hp⟩ => .pure ⟨hd, .outside hx'.1 hx'.2 (by simpa using hslash) hg, ?_⟩
        simpa using hp

section

omit [Admits E]

variable [Tolerates E st]

theorem regexFlags_glides (hb : Glides st b c) :
    Gives E st c (regexFlags n) fun _ => Glides st b := by
  induction n generalizing c with
  | zero => exact .pure hb
  | succ n ih =>
    refine .atEnd (fun _ => .pure hb) fun hlt => .here (Nat.le_of_lt hlt) fun x hx => .ite (fun _ => .pure hb) fun hp =>
      .advance ?_
    replace hb := hb.slide (.inner hx (Text.inner_of_isIdentifierPart (by simpa using hp)))
    have hcomplain {e : Cursor} {err : SyntaxError} (he : Glides st b e) :
        Glides st b { e with errors := e.errors ++ [err] } := ⟨he.walk, he.openers⟩
    refine .first rfl <| .fork (.here hlt fun y hy => .ite (fun hu => ?_) fun _ => ?_) (.map (ih hb))
    · obtain rfl : y = 0x75 := by simpa using hu
      have hu := hb.slide (.inner hy (by decide))
      refine .advance <| .index <| .bind (hexEscape_slides (.refl st _)) fun {z e} hz => ?_
      cases z with
      | some z => exact .first rfl <| .complain fun _ _ => .map (ih (hcomplain (hu.slide hz)))
      | none => exact .seek <| .first rfl <| .complain fun _ _ => .map (ih (hcomplain (hu.trans hz.rewind)))
    · exact .complain fun _ _ => ih (hcomplain hb)

theorem plainPattern_glides {t : Text} (hb : Glides st b c) : Gives E st c (plainPattern n t) fun _ => Glides st b := by
  induction n generalizing t c with
  | zero =>
    unfold plainPattern
    exact .pure hb
  | succ n ih =>
    cases t with
    | nil => exact .pure hb
    | cons x t =>
      unfold plainPattern
      split
      · exact .fork (.complain fun err _ => .first rfl <| .map (ih ⟨hb.walk, hb.openers⟩)) (.first rfl (.map (ih hb)))
      · exact .map (ih hb)

theorem checkRegex_glides {pattern flags : Text} (hb : Glides st b c) :
    Gives E st c (checkRegex pattern flags) fun _ => Glides st b := by
  refine .bind (plainPattern_glides hb) fun he => ?_
  dsimp only
  split
  · exact .pure he
  · exact .complain fun _ _ => .pure ⟨he.walk, he.openers⟩

end

/-- A regular expression is only read where a slash stands. -/
theorem regex_gives (hx : st.source.at? c.index = some 0x2F) : Gives E st c regex (TakesLiteral st c) := by
  refine .index <| .bind (P := fun _ => Starts st c) (.known hx <| .advance <| .ahead ?_) fun hs => .ahead ?_
  · exact (regexTail_goes (.refl st _)).mono fun h => (Starts.inner hx (by decide)).trans h.1
  · refine .bind (regexFlags_glides (.refl st _)) fun hf => .bind (checkRegex_glides hf) fun hc => ?_
    exact (hs.trans hc).takesLiteral ⟨fun _ => rfl, nofun, nofun, nofun, .of_value rfl⟩

omit [Admits E]

theorem regex_takes {t : Token} (h : Returns regex st c t d) :
    st.source.at? c.index = some 0x2F ∧ TakesPlain st c t d := by
  have hx : st.source.at? c.index = some 0x2F := by
    obtain ⟨_, _, h₁, -⟩ := (Returns.index h).bind
    obtain ⟨x, hx, h₁⟩ := Returns.here h₁
    rcases h₁.ite with ⟨hs, -⟩ | ⟨-, h₁⟩
    · rwa [eq_of_beq hs] at hx
    · obtain ⟨_, _, h₁, -⟩ := h₁.bind
      exact absurd h₁ returns_throw
  exact ⟨hx, ((regex_gives (E := Failure.IsRejection) hx).returns h).toTakesPlain⟩

theorem regex_raises {e : Failure} (h : Raises regex st c e) (hx : st.source.at? c.index = some 0x2F) : e.IsRejection :=
  (regex_gives hx).raises h

end ScriptTree.Scan
