import ScriptTree.Proofs.Scan.Quoted

/-! # Tokens

`next_gives` is the contract of the scan for one token: at the end of the program nothing is taken, and
elsewhere the token ranges over the text that the cursor passes, or the program is rejected. -/

namespace ScriptTree.Scan

variable {mark : String} {E : Failure → Prop} [Admits E] {st : Settings} {c d : Cursor} {t : Token} {x : Nat}

/-- Marks other than braces. -/
def PlainMark (mark : String) : Prop :=
  0 < mark.length ∧ (∀ x ∈ Text.ofString mark, Text.Inner x) ∧ mark ≠ "\x7b" ∧ mark ≠ "\x7d"

instance (mark : String) : Decidable (PlainMark mark) := inferInstanceAs (Decidable (_ ∧ _))

theorem plainMark_of_mem : ∀ mark ∈ "..." :: "." :: (singleMarks ++ longMarks), PlainMark mark := by
  decide

theorem PlainMark.brackets (h : PlainMark mark) (o : List Opener) : (Lexeme.punctuator mark).brackets o = o := by
  simp [Lexeme.brackets, h.2.2.1, h.2.2.2]

/-- A punctuator is taken. Only braces open and close brackets. -/
structure TakesMark (x : Nat) (st : Settings) (c : Cursor) (t : Token) (d : Cursor) : Prop extends Takes st c t d where
  isMark : ∃ mark, t.lexeme = .punctuator mark
  plain : x ≠ 0x7B → x ≠ 0x7D → ∀ o, t.lexeme.brackets o = o

omit [Admits E] in
theorem PlainMark.takes (h : PlainMark mark) (hx : st.source.at? c.index = (Text.ofString mark).head?)
    (hs : Slides st c { c with index := c.index + mark.length }) :
    Gives E st c (do advance mark.length; token c.index (.punctuator mark)) (TakesMark x st c) :=
  .advance <| .token ⟨⟨hs.walk, by rw [hs.openers]; exact (h.brackets _).symm, nofun, fun | _, rfl => hx, rfl, rfl,
    Nat.lt_add_of_pos_right h.1, ⟨rfl, rfl⟩, fun _ _ => ⟨hs.line, hs.lineStart⟩, .of_value rfl⟩, ⟨mark, rfl⟩,
    fun _ _ => h.brackets⟩

omit [Admits E] in
theorem PlainMark.takes_hasAt (h : PlainMark mark) (hs : st.source.hasAt c.index mark = true) :
    Gives E st c (do advance mark.length; token c.index (.punctuator mark)) (TakesMark x st c) := by
  refine h.takes ?_ (.along hs h.2.1 _ (Nat.le_refl _))
  cases hm : Text.ofString mark with
  | nil => exact absurd h.1 (by simp_all [Text.ofString])
  | cons x w => exact Source.at?_of_hasAt (k := 0) hs (by rw [hm]; rfl)

theorem markAt?_returns {i : Nat} {marks : List String} {r : Option String} (h : Returns (markAt? i marks) st c r d) :
    r = marks.find? (fun m => st.source.hasAt i m) ∧ d = c :=
  returns_pure.mp (Returns.read h)

theorem punctuator_takes (hx : st.source.at? c.index = some x) : Gives E st c punctuator (TakesMark x st c) := by
  refine .index <| .known hx <| .ite (fun hb => ?_) fun _ => .ite (fun hb => ?_) fun _ => .ite (fun hp => ?_) fun _ => ?_
  iterate 2
    · obtain rfl : x = _ := eq_of_beq hb
      have hs := Slides.inner hx (by decide)
      exact .first rfl <| .first rfl <| .advance <| .token ⟨⟨hs.walk, rfl, nofun, fun | _, rfl => hx, rfl, rfl,
        Nat.lt_succ_self _, ⟨rfl, rfl⟩, fun _ _ => ⟨rfl, rfl⟩, .of_value rfl⟩, ⟨_, rfl⟩, by simp⟩
  · obtain rfl : x = 0x2E := by simpa using hp
    refine .first rfl <| .first rfl ?_
    split
    · exact (plainMark_of_mem "..." (by simp)).takes_hasAt ‹_›
    · exact (plainMark_of_mem "." (by simp)).takes hx (.inner hx (by decide))
  · refine .first rfl ?_
    split
    · rename_i mark hm
      have hmem := List.mem_of_find?_eq_some hm
      exact .first rfl <| (plainMark_of_mem mark (by simp only [List.mem_cons, hmem, or_true])).takes_hasAt
        (List.find?_some hm)
    · exact .rejects

/-! ## The next token -/

/-- Its first character tells what a token is. -/
inductive TakesNext (x : Nat) (st : Settings) (c : Cursor) (t : Token) (d : Cursor) : Prop
  | name : TakesName st c t d → TakesNext x st c t d
  | literal : TakesLiteral st c t d → TakesNext x st c t d
  | piece : x = 0x60 ∨ x = 0x7D ∧ c.openers.head? = some .substitution → TakesPiece st c t d → TakesNext x st c t d
  | mark : TakesMark x st c t d → TakesNext x st c t d

/-- At the end the token is empty. -/
def Finds (st : Settings) (c : Cursor) (t : Token) (d : Cursor) : Prop :=
  (st.source.length ≤ c.index ∧ t = ⟨.endOfInput, c.line, c.lineStart, c.index, c.index⟩ ∧ d = c) ∨
    (c.index < st.source.length ∧ ∃ x, st.source.at? c.index = some x ∧ TakesNext x st c t d)

theorem next_gives : Gives E st c next (Finds st c) := by
  refine .atEnd (fun he => .index <| .token (.inl ⟨he, rfl, rfl⟩)) fun hlt => .here (Nat.le_of_lt hlt) fun x hx => ?_
  refine Gives.mono (P := TakesNext x st c) ?_ fun h => .inr ⟨hlt, x, hx, h⟩
  have hmark : Gives E st c punctuator (TakesNext x st c) := (punctuator_takes hx).mono .mark
  refine .ite (fun hs => (name_takes hx hs).mono .name) fun _ =>
    .ite (fun hq => (string_takes hx hq).mono .literal) fun _ => .ite (fun hp => ?_) fun _ =>
    .ite (fun hd => (numeral_takes hx (.inl hd)).mono .literal) fun _ => .first rfl <| .ite (fun ht => ?_) fun _ => hmark
  · refine .index <| .charAt hlt fun y hy => .ite (fun hd => ?_) fun _ => hmark
    exact (numeral_takes hx (.inr ⟨eq_of_beq hp, y, hy, hd⟩)).mono .literal
  · simp only [Bool.or_eq_true, Bool.and_eq_true, beq_iff_eq] at ht
    exact (template_takes hx (ht.imp id And.left)).mono (.piece ht)

omit [Admits E]

theorem next_cases (h : Returns next st c t d) : Finds st c t d := (next_gives (E := Failure.IsRejection)).returns h

theorem next_raises {e : Failure} (h : Raises next st c e) : e.IsRejection := next_gives.raises h

theorem TakesNext.takes (h : TakesNext x st c t d) : Takes st c t d := by
  cases h with
  | name h => exact h.toTakes
  | literal h => exact h.toTakes
  | piece _ h => exact h.toTakes
  | mark h => exact h.toTakes

theorem next_takes (h : Returns next st c t d) :
    (st.source.length ≤ c.index ∧ t = ⟨.endOfInput, c.line, c.lineStart, c.index, c.index⟩ ∧ d = c) ∨
      (c.index < st.source.length ∧ Takes st c t d) := by
  rcases next_cases h with h | ⟨hlt, x, -, h⟩
  · exact .inl h
  · exact .inr ⟨hlt, h.takes⟩

/-- A token ranges over what the cursor has passed, and has the line at its end. -/
structure Spans (st : Settings) (c : Cursor) (t : Token) (d : Cursor) : Prop where
  walk : Walk st.source c.toPlace d.toPlace
  start : t.start = c.index
  stop : t.stop = d.index
  line : t.line = d.line ∧ t.lineStart = d.lineStart

theorem next_spans (h : Returns next st c t d) : Spans st c t d := by
  rcases next_takes h with ⟨-, rfl, rfl⟩ | ⟨-, ht⟩
  · exact ⟨.here, rfl, rfl, rfl, rfl⟩
  · exact ⟨ht.walk, ht.start, ht.stop, ht.line⟩

/-- Whatever comes next, only its brackets change those that are open. -/
theorem next_openers (h : Returns next st c t d) : d.openers = t.lexeme.brackets c.openers := by
  rcases next_takes h with ⟨_, rfl, rfl⟩ | ⟨_, ht⟩
  · rfl
  · exact ht.openers

/-- From every offset of the program, whatever brackets are open, the scan for a token rejects the program or
returns a token from the offset to the one that it has come to. The token is not empty and ends in the program,
but for the one at the end. So nothing is read after the end mark, every digit has its entry, every number of a
character is one, and all promises are kept: all of these failures are other ones. -/
theorem next_rejects_or_takes (st : Settings) (c : Cursor) (hc : c.index ≤ st.source.length) :
    (∃ x d, next st c = .error (.rejected x) d) ∨
      ∃ t d, next st c = .ok t d ∧ t.start = c.index ∧ t.stop = d.index ∧
        (t.lexeme = .endOfInput ∧ c.index = st.source.length ∧ d = c ∨
          t.lexeme ≠ .endOfInput ∧ t.start < t.stop ∧ t.stop ≤ st.source.length) := by
  cases h : next st c with
  | error e d =>
    obtain ⟨x, rfl⟩ := next_raises ⟨d, h⟩
    exact .inl ⟨x, d, rfl⟩
  | ok t d =>
    refine .inr ⟨t, d, rfl, ?_⟩
    rcases next_takes h with ⟨he, rfl, rfl⟩ | ⟨_, ht⟩
    · exact ⟨rfl, rfl, .inl ⟨rfl, Nat.le_antisymm hc he, rfl⟩⟩
    · refine ⟨ht.start, ht.stop, .inr ⟨ht.notEnd, ?_, ?_⟩⟩
      · rw [ht.start, ht.stop]
        exact ht.lt
      · rw [ht.stop]
        exact ht.walk.index_le_length hc

/-- A piece of a template after a substitution, with an escape in braces, read by a tolerant scan. -/
theorem next_rejects_or_takes_template :
    let st : Settings := { source := .ofText (Text.ofString "\x7d\\u\x7b41\x7d`"), tolerant := true }
    let c : Cursor := { line := 1, openers := [.substitution] }
    c.index ≤ st.source.length ∧ ∃ t d, next st c = .ok t d ∧ t.start = 0 ∧ t.stop = d.index ∧ t.start < t.stop := by
  intro st c
  have hc : c.index ≤ st.source.length := by decide
  refine ⟨hc, ?_⟩
  rcases next_rejects_or_takes st c hc with ⟨x, d, h⟩ | ⟨t, d, h, hstart, hstop, ⟨-, he, -⟩ | ⟨-, hlt, -⟩⟩
  · cases h
  · cases he
  · exact ⟨t, d, h, hstart, hstop, hlt⟩

end ScriptTree.Scan
