import ScriptTree.Proofs.Parse.Ends.Function

/-! # How markup ends

In markup the scan takes tokens without one ahead. It goes back to the start of the token ahead when markup
starts and when an expression inside it ends, and looks at a next token when markup ends and when such an
expression starts. In between, a tag, an attribute and an expression in braces each take a token. -/

namespace ScriptTree.Parse

variable {t : Token} {env : Env} {n k lo : Nat} {s s' : State} {e : Failure} {g g' : Grammar} [Marked env]

theorem misreads_explained (h : Scan.Misreads env.source e) : Explained env e := by
  rcases h with h | ⟨hb, hp⟩
  · exact .inl h
  · exact .inr (.reference Marked.jsx hp hb)

instance : Stays env (Tagged env) peekMarkup where
  stays {s} hs := by
    refine ⟨fun l s' h => ?_, fun e h => ⟨?_, Scan.OnLine.raises (raises_scan.mp h) hs.flush.cursor
      fun _ => .peeks Token.lexeme⟩⟩
    · have hs' := peekMarkup_returns h
      obtain ⟨d, hd, rfl⟩ := returns_scan.mp h
      have hflush := Scan.OnLine.returns hd hs.flush.cursor fun _ => .peeks Token.lexeme
      obtain ⟨ms, c, h₁, hd⟩ := (Returns.first hd rfl).bind
      obtain ⟨t, u, h₂, hd⟩ := hd.bind
      obtain ⟨rfl, -⟩ := returns_pure.mp (hd.first rfl)
      obtain ⟨found, hskip, -⟩ := Scan.comments_skip h₁
      have ht := Scan.markup_tags h₂
      refine ⟨⟨rfl, rfl, ?_, ?_, id, rfl, fun hf => { hf with cursor := hflush }⟩, ⟨ht.shown⟩⟩ <;> rw [hs']
      exact id
    · replace h := raises_scan.mp h
      rcases (Raises.first h rfl).bind with h | ⟨ms, c, h₁, h⟩
      · exact .inl (Scan.comments_raises h)
      obtain ⟨found, hskip, -⟩ := Scan.comments_skip h₁
      rcases h.bind with h | ⟨t, u, -, h⟩
      · exact misreads_explained (Scan.markup_raises h (hskip.index_le_length hs.bound))
      · exact absurd (h.first rfl) raises_pure

instance (mark : String) : Stays env (Tagged env) (seesMarkup mark) := .bind

omit [Marked env] in
instance : Stays env (Tagged env) (scan Scan.atEnd) := by
  refine ⟨fun _ => ⟨fun b s' h => ?_, fun e h => ?_⟩⟩
  · obtain ⟨d, hd, rfl⟩ := returns_scan.mp h
    obtain ⟨-, rfl⟩ := returns_pure.mp hd.get.read
    exact ⟨.refl env _, inferInstance⟩
  · exact absurd (raises_scan.mp h).get.read raises_pure

omit [Marked env] in
instance : Stays env (Tagged env) (scan Scan.here) where
  stays {s} hs := by
    obtain ⟨x, hx⟩ := Source.exists_at? hs.bound
    have hr : Returns Scan.here (settings env s) s.cursor x s.cursor := Scan.returns_here.mpr ⟨hx, rfl⟩
    refine ⟨fun b s' h => ?_, fun e h => ?_⟩
    · obtain ⟨d, hd, rfl⟩ := returns_scan.mp h
      obtain ⟨-, rfl⟩ := Scan.returns_here.mp hd
      exact ⟨.refl env _, inferInstance⟩
    · obtain ⟨u, h⟩ := raises_scan.mp h
      cases hr.symm.trans h

omit [Marked env] in
instance (t : Token) : Stays env (Tagged env) (listToken t) := by
  refine ⟨fun _ => ⟨fun _ s' h => ?_, fun e h => (listToken_raises h).elim⟩⟩
  rw [listToken_returns h]
  exact ⟨⟨rfl, rfl, rfl, id, id, rfl, fun h => { h with }⟩, inferInstance⟩

/-! ## Steps that take a token -/

/-- The token `t` was taken, and if it is not empty the scan is behind it. -/
structure TagTaken (env : Env) (n k lo : Nat) (t : Token) (s : State) : Prop extends Tag env n k lo s where
  behind : t.lexeme ≠ .endOfInput → t.lexeme ≠ .template [] [] false false → Tag env n 8 (lo + 1) s

omit [Marked env] in
instance : Fronted env (Tagged env) (Tag env n) k lo (TagTaken env n k lo t) where
  base h := h.toTagged
  level h h' := ⟨h.toTag.level h', fun h₁ h₂ => (h.behind h₁ h₂).level h'⟩
  front h := h.toTag

omit [Marked env] in
theorem Tag.glides {d : Scan.Cursor} (hs : Tag env n k lo s) (h : Scan.Glides (settings env s) s.cursor d)
    (hd : env.source.OneLine → Scan.OnLine env.source d) : Tag env n k lo { s with cursor := d } :=
  ⟨⟨h.index_le_length hs.bound, by rw [h.openers]; exact hs.opened, hs.cover, { hs.flush with cursor := hd }⟩,
    Nat.le_trans hs.lower h.index_le, hs.room⟩

namespace Ends

variable {α β : Type} {p p' : Parse α} {f f' : Unit → Parse β} {Q : α → State → Prop} {R : β → State → Prop}

omit [Marked env] in
/-- White space and comments are skipped. -/
theorem comments (hf : Ends env (Tag env n k lo) (f ()) (f' ()) R) :
    Ends env (Tag env n k lo) (takeComments >>= f) (takeComments >>= f') R := by
  refine .bind (Q := fun _ => Tag env n k lo) (fun s hs => ⟨rfl, fun _ s' h => ?_, fun e h =>
    takeComments_justified h hs.flush.cursor⟩) fun _ => hf
  obtain ⟨ms, hskip, hs', -⟩ := takeComments_returns h
  have hskipped := Scan.OnLine.returns hskip hs.flush.cursor
  obtain ⟨found, hskip, -⟩ := Scan.comments_skip hskip
  have ht := hs.glides hskip.toGlides hskipped
  rw [hs']
  exact ⟨⟨ht.bound, ht.opened, ht.cover, { ht.flush with }⟩, ht.lower, ht.room⟩

omit [Marked env] in
/-- The place of the next token of a tag. -/
theorem mark {f f' : Mark → Parse β} (hf : ∀ m, Ends env (Tag env n k lo) (f m) (f' m) R) :
    Ends env (Tag env n k lo) (markupMark >>= f) (markupMark >>= f') R :=
  .bind (Q := fun _ => Tag env n k lo) (.comments <| .past <| .pure fun _ hs => hs) hf

omit [Marked env] in
/-- The start of the next token is marked. -/
theorem marks {m : Mark} [hm : Known env m] (hf : Ends env (Tag env n k lo) (f ()) (f' ()) R) :
    Ends env (Tag env n k lo) ((modify fun s => { s with startMark := m }) >>= f)
      ((modify fun s => { s with startMark := m }) >>= f') R := by
  refine .bind (Q := fun _ => Tag env n k lo) (fun s hs => ⟨rfl, fun _ s' h => ?_, fun e h =>
    absurd h raises_modify⟩) fun _ => hf
  rw [returns_modify.mp h]
  exact ⟨⟨hs.bound, hs.opened, hs.cover, { hs.flush with start := hm }⟩, hs.lower, hs.room⟩

theorem scanMarkup : Ends env (Tag env n k lo) (scan Scan.markup) (scan Scan.markup)
    fun t s => TagTaken env n k lo t s ∧ Known env t := by
  intro s hs
  refine ⟨rfl, fun t s' h => ?_, fun e h => ⟨misreads_explained (Scan.markup_raises (raises_scan.mp h) hs.bound),
    Scan.OnLine.raises (raises_scan.mp h) hs.flush.cursor⟩⟩
  obtain ⟨d, hd, rfl⟩ := returns_scan.mp h
  have hscanned := Scan.OnLine.returns hd hs.flush.cursor
  have hflush : Flush env { s with cursor := d } := { hs.flush with cursor := hscanned }
  have ht := Scan.markup_tags hd
  have hopened : Scan.Opened env.source d.openers := ht.openers ▸ hs.opened
  have hle := ht.le
  have hbound : d.index ≤ env.source.length := ht.bound
  have hlower := hs.lower
  have hroom := hs.room
  refine ⟨⟨⟨⟨hbound, hopened, hs.cover, hflush⟩, by show lo ≤ d.index; omega, hroom⟩, fun h₁ h₂ => ?_⟩,
    ⟨ht.shown, Scan.OnLine.token hs.flush.cursor hscanned ht.spot⟩⟩
  have hlt : s.cursor.index < d.index := ht.lt.resolve_right (by simp [h₁, h₂])
  exact ⟨⟨hbound, hopened, hs.cover, hflush⟩, by show lo + 1 ≤ d.index; omega, by omega⟩

theorem takeMarkup {f f' : Token → Parse β} (hf : ∀ t [Known env t], Ends env (TagTaken env n k lo t) (f t) (f' t) R) :
    Ends env (Tag env n k lo) (nextMarkup >>= f) (nextMarkup >>= f') R := by
  have h : Ends env (Tag env n k lo) nextMarkup nextMarkup fun t s =>
      TagTaken env n k lo t s ∧ Known env t := by
    refine .comments <| .stay fun m _ => .marks <| .bind .scanMarkup fun t => .fact fun _ => ?_
    exact .past <| .past <| .past <| .pure fun _ hs => ⟨hs, inferInstance⟩
  exact .bind h fun t => .fact fun _ => hf t

omit [Marked env] in
/-- A token was taken that is not empty. -/
theorem tagged (h₁ : t.lexeme ≠ .endOfInput) (h₂ : t.lexeme ≠ .template [] [] false false)
    (h : Ends env (Tag env n 8 (lo + 1)) p p' Q) : Ends env (TagTaken env n k lo t) p p' Q :=
  h.weaken fun _ hs => hs.behind h₁ h₂

omit [Marked env] in
/-- Markup starts, or goes on after an expression. -/
theorem enters {P : State → Prop} [Fronted env (Poised env) (Front env n) k lo P]
    (hf : Ends env (Tag env n k lo) (f ()) (f' ()) R) :
    Ends env P (enterMarkup >>= f) (enterMarkup >>= f') R := by
  refine .bind (Q := fun _ => Tag env n k lo) (fun s hs => ⟨rfl, fun _ s' h => ?_, fun e h =>
    absurd h raises_modify⟩) fun _ => hf
  have hs : Front env n k lo s := Fronted.front env hs
  rw [returns_modify.mp h]
  have hflush (h : env.source.OneLine) : Scan.OnLine env.source { s.cursor with
        index := s.startMark.index
        line := s.startMark.line
        lineStart := ((s.startMark.index : Int) - s.startMark.column).toNat } := by
    obtain ⟨hle, hline, hcolumn⟩ := hs.flush.start.holds h
    exact ⟨hle, hline, by simp [hcolumn], (hs.flush.cursor h).errors⟩
  exact ⟨⟨Nat.le_trans hs.le hs.bound, hs.opened, hs.cover, { hs.flush with cursor := hflush }⟩,
    Nat.le_trans hs.lower (Nat.le_of_eq hs.start), hs.room⟩

omit [Marked env] in
/-- A token is looked at after markup, or at the start of an expression in it. -/
theorem resumes (hf : Ends env (Front env n 8 lo) (f ()) (f' ()) R) :
    Ends env (Tag env n 8 lo) (skip >>= f) (skip >>= f') R := by
  refine .bind (Q := fun _ => Front env n 8 lo) (fun s hs => ⟨rfl, fun _ s' h => ?_, fun e h => ?_⟩) fun _ => hf
  · obtain ⟨t, _, h, h'⟩ := Returns.bind h
    obtain ⟨-, rfl⟩ := h'.ended
    obtain ⟨-, ms, c, t, hm⟩ := next_moves h
    obtain ⟨hp, hle⟩ := hm.poised hs.bound hs.opened hs.cover hs.flush
    exact ⟨hp, Nat.le_trans hs.lower hle, hs.room⟩
  · rcases Raises.bind h with h | ⟨_, _, -, h⟩
    · exact next_justified h hs.flush.cursor
    · exact absurd h raises_pure

end Ends

theorem ne_template_of_isMark {l : Lexeme} {mark : String} (h : l.isMark mark = true) :
    l ≠ .template [] [] false false := by
  rintro rfl
  cases h

instance (mark : String) : Advances env (Tag env n) 0 (expectMarkup mark) (expectMarkup mark) where
  advances _ := .takeMarkup fun _ => .ite (fun h =>
    .tagged (ne_end_of_isMark h) (ne_template_of_isMark h) .result) fun _ => .fails

/-- After an expression in braces markup goes on. -/
theorem Ends.braces {β : Type} {f f' : Unit → Parse β} {R : β → State → Prop}
    (hf : Ends env (Tag env n 8 lo) (f ()) (f' ()) R) :
    Ends env (Front env n 8 lo) (leaveExpression >>= f) (leaveExpression >>= f') R := by
  have h : Ends env (Front env n 8 lo) leaveExpression leaveExpression (Read env (Tag env n) lo) :=
    .enters <| .on <| .on .last
  exact .bind h fun _ => .fact fun _ => hf

instance : Advances env (Tag env n) 0 markupName markupName := by
  refine .of fun lo => .mark fun start => .takeMarkup fun t _ => ?_
  split
  next h => exact .tagged (by rw [h]; nofun) (by rw [h]; nofun) .last
  · exact .fails

instance : Advances env (Tag env n) 0 elementName elementName := by
  refine .of fun lo => .mark fun start => .first fun first => .past <| .fork ?_ <| .past <| .fork ?_ .result
  · exact .on <| .on .last
  · refine .rounds fun lo object _ => .past <| .fork ?_ .done
    exact .first fun _ => .on <| .on .again

instance : Advances env (Tag env n) 0 attributeName attributeName where
  advances _ := .mark fun _ => .first fun _ => .past <| .fork (.on <| .on .last) .result

variable [Serves env n g g']

instance : Advances env (Tag env n) 1 g.element g'.element := ⟨by decide, Serves.element⟩

instance : Advances env (Tag env n) 0 stringAttribute stringAttribute := by
  refine .of fun lo => .mark fun start => .takeMarkup fun t _ => ?_
  split
  next h => exact .tagged (by rw [h]; nofun) (by rw [h]; nofun) <| .past .last
  · exact .fails

instance : Advances env (Tag env n) 0 (expressionAttribute g) (expressionAttribute g') where
  advances _ := .mark fun _ => .first fun _ => .resumes <| .past <| .stayIf <| .on <| .braces .last

instance : Runs env (Tag env n) (attributeValue g) (attributeValue g') := .routine

instance : Advances env (Tag env n) 0 (namedAttribute g) (namedAttribute g') where
  advances _ := .mark fun _ => .first fun _ => .past <| .fork (.on <| .on .last) <| .pure_bind .last

instance : Advances env (Tag env n) 0 (spreadAttribute g) (spreadAttribute g') where
  advances _ := .mark fun _ => .first fun _ => .on <| .resumes <| .on <| .braces .last

instance : Runs env (Tag env n) (attributes g) (attributes g') where
  runs lo := by
    have h : Ends env (Tag env n 8 lo) (attributes g >>= pure) (attributes g' >>= pure) (Read env (Tag env n) lo) :=
      .gathers (fun lo => .past <| .fork .only .only) fun _ => .result
    simpa only [bind_pure] using h

instance (start : Mark) : Advances env (Tag env n) 0 (openingTail g start) (openingTail g' start) := .routine

instance : Advances env (Tag env n) 0 (openingElement g) (openingElement g') where
  advances _ := .mark fun _ => .first fun _ => .last

instance : Advances env (Tag env n) 0 (boundaryElement g) (boundaryElement g') where
  advances _ := .mark fun _ => .first fun _ => .past <| .fork (.on <| .on <| .on .last) .last

omit [Marked env] in
instance : Runs env (Tag env n) emptyExpression emptyExpression where
  runs _ := .past <| .comments <| .past <| .past .last

instance : Advances env (Tag env n) 0 (expressionContainer g) (expressionContainer g') := by
  refine .of fun lo => .mark fun _ => .first fun _ => .past <| .fork (.on <| .on .last) ?_
  exact .resumes <| .on <| .braces .last

omit [Marked env] in
instance : Runs env (Tag env n) (scan Scan.markupText) (scan Scan.markupText) := by
  refine ⟨fun lo s hs => ⟨rfl, fun t s' h => ?_, fun e h => ⟨.inl (Scan.markupText_gives.raises (raises_scan.mp h)),
    Scan.OnLine.raises (raises_scan.mp h) hs.flush.cursor⟩⟩⟩
  obtain ⟨d, hd, rfl⟩ := returns_scan.mp h
  obtain ⟨hp, ht⟩ := (Scan.markupText_gives (E := Failure.IsRejection)).returns hd
  have hscanned := Scan.OnLine.returns hd hs.flush.cursor
  exact ⟨hs.glides hp hscanned, ⟨ht, Scan.OnLine.token hs.flush.cursor hscanned (Scan.markupText_spot hd)⟩⟩

omit [Marked env] in
instance : Runs env (Tag env n) nextText nextText where
  runs _ := .stay fun _ _ => .marks <| .on <| .past <| .past <| .stayIf .result

instance : Runs env (Tag env n) (textChildren g) (textChildren g') := by
  refine ⟨fun lo => ?_⟩
  refine .loops (fun lo found _ => .past <| .fork .done <| .stay fun start => .go fun t _ => ?_) fun _ => .result
  extract_lets rest rest'
  have hrest (found : List Node) : Ends env (Tag env n 8 lo) (rest found) (rest' found) (Turn env (Tag env n) lo) :=
    .past <| .fork (.first fun _ => .again) .done
  split
  · exact .fork (.past <| .past <| .pure_bind (hrest _)) <| .pure_bind (hrest _)
  · exact .pure_bind (hrest _)

instance : Inert OpenElement := ⟨⟩

instance (outer : OpenElement) : Runs env (Tag env n) (elementTail g outer) (elementTail g' outer) := by
  refine ⟨fun lo => .rounds fun lo (e, stack) _ => .past <| .fork .done <| .go fun children =>
    .stay fun start => .first fun tag _ => ?_⟩
  split
  · refine .stayIf ?_
    split
    · exact .on .again
    · exact .halt
  · exact .fork (.on .again) .again

instance : Advances env (Tag env n) 0 (element g) (element g') where
  advances _ := .mark fun _ => .first fun _ => .fork .last <| .on .last

instance : Fronts env n 0 (rootElement g) (rootElement g') where
  advances _ := .past <| .stayIf <| .enters <| .first fun _ => .resumes .result

end ScriptTree.Parse
