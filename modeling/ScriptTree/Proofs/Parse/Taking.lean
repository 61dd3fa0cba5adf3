import ScriptTree.Proofs.Attachment
import ScriptTree.Proofs.Parse.Returns
import ScriptTree.Proofs.Scan.Returns

/-! # Taking tokens and finishing nodes

The steps of a parse that look at the source, with all that they do to the state: `next_moves`,
`nextRegex_rescans` and `finish_returns`. Comments and tokens are listed as `remarkOf` and `entryAt` say. -/

namespace ScriptTree

/-- What a regular expression may be scanned for again. -/
abbrev Lexeme.IsSlash (l : Lexeme) : Prop := l = .punctuator "/" ∨ l = .punctuator "/="

namespace Parse

variable {l : Lexeme} {n : Node} {shape : Shape Node} {start : Mark} {strict : Bool} {t : Token} {env : Env}
  {s s' : State}

def cursorMark (c : Scan.Cursor) : Mark := ⟨c.index, c.line, (c.index : Int) - c.lineStart⟩

/-- A comment as it is listed. -/
def remarkOf (env : Env) (m : Comment) : Remark :=
  { isBlock := m.multiLine
    value := env.source.slice m.body.start m.body.stop
    range := if env.options.range then some m.range else none
    location := if env.options.location then some m.location else none }

/-- The token ahead as it is listed. -/
def entryAt (env : Env) (s : State) : Entry :=
  { kind := s.lookahead.lexeme.kindName
    value := env.source.slice s.lookahead.start s.lookahead.stop
    regex := match s.lookahead.lexeme with
      | .regex pattern flags _ => some (pattern, flags)
      | _ => none
    range := if env.options.range then some ⟨s.lookahead.start, s.lookahead.stop⟩ else none
    location := if env.options.location then
        some ⟨s.startMark.position, (cursorMark s.cursor).position⟩
      else none }

/-- A comment waits for the nodes around it. -/
def await (env : Env) (a : Attachment) (m : Comment) : Attachment :=
  if env.options.attach then a.add { remarkOf env m with range := some m.range } m.range.start else a

theorem note_returns {className typeName : String} {stop : Mark}
    (h : Returns (note className typeName start stop) env s () s') : s' = { s with log := s'.log } := by
  replace h := Returns.first h rfl
  split at h
  · obtain rfl := returns_modify.mp h
    rfl
  · rw [(h.ended).2]

theorem takeComment_returns {m : Comment} (h : Returns (takeComment m) env s () s') : s' = { s with
      remarks := s.remarks.push (remarkOf env m), attachment := await env s.attachment m, log := s'.log } := by
  obtain ⟨_, u, h₁, h⟩ := ((Returns.first h rfl).first rfl).bind
  have hu := note_returns h₁
  rcases h.modify.ite with ⟨ha, h⟩ | ⟨ha, h⟩
  · obtain rfl := returns_modify.mp h
    rw [await, if_pos ha, hu]
    rfl
  · rw [(h.ended).2, await, if_neg ha, hu]
    rfl

theorem takeEach_returns {ms : List Comment}
    (h : Returns (forIn ms PUnit.unit fun m _ => do takeComment m; pure (ForInStep.yield PUnit.unit))
      env s PUnit.unit s') :
    s' = { s with remarks := s'.remarks, attachment := s'.attachment, log := s'.log } ∧
      s'.remarks.toList = s.remarks.toList ++ ms.map (remarkOf env) ∧
      s'.attachment = ms.foldl (await env) s.attachment := by
  induction ms generalizing s with
  | nil =>
    obtain ⟨-, rfl⟩ := h.ended
    simp
  | cons m ms ih =>
    rw [List.forIn_cons] at h
    obtain ⟨step, u, h₁, h⟩ := h.bind
    obtain ⟨_, v, h₂, h₁⟩ := h₁.bind
    obtain ⟨rfl, rfl⟩ := h₁.ended
    have hv := takeComment_returns h₂
    obtain ⟨hs, hr, ha⟩ := ih h
    refine ⟨by rw [hs, hv], ?_, ?_⟩
    · rw [hr, hv]
      simp
    · rw [ha, hv]
      rfl

/-- What the scan finds between two tokens is listed. -/
theorem takeComments_returns (h : Returns takeComments env s () s') :
    ∃ ms, Returns Scan.comments (settings env s) s.cursor ms s'.cursor ∧ s' = { s with
        cursor := s'.cursor, remarks := s'.remarks, attachment := s'.attachment, log := s'.log } ∧
      s'.remarks.toList = s.remarks.toList ++ ms.map (remarkOf env) ∧
      s'.attachment = ms.foldl (await env) s.attachment := by
  obtain ⟨ms, u, h₁, h⟩ := Returns.bind h
  obtain ⟨d, hd, rfl⟩ := returns_scan.mp h₁
  obtain ⟨_, v, h₂, h⟩ := h.bind
  obtain ⟨-, rfl⟩ := h.ended
  obtain ⟨hs, hr⟩ := takeEach_returns h₂
  have hc : s'.cursor = d := by rw [hs]
  refine ⟨ms, by rwa [hc], ?_, hr⟩
  rw [hs]

/-! ## Tokens -/

theorem listToken_returns (h : Returns (listToken t) env s () s') : s' = { s with
      tokens := if env.options.tokens then s.tokens.push (entryAt env { s with lookahead := t })
        else s.tokens } := by
  replace h := Returns.first h rfl
  rcases h.ite with ⟨ht, h⟩ | ⟨ht, h⟩
  · rw [if_pos ht]
    exact returns_modify.mp (h.first rfl)
  · rw [if_neg ht]
    exact (h.ended).2

/-- Only a name becomes another token, which is a reserved word. -/
theorem reserve_cases (strict : Bool) (l : Lexeme) : reserve strict l = l ∨
    ∃ name, l = .identifier name ∧ ∃ word ∈ Words.strict, reserve strict l = .keyword word := by
  unfold reserve
  split
  · split
    next _ word hw => exact .inr ⟨_, rfl, word, List.mem_of_find?_eq_some hw, rfl⟩
    next => exact .inl rfl
  · exact .inl rfl

theorem reserve_eq_endOfInput : reserve strict l = .endOfInput ↔ l = .endOfInput := by
  rcases reserve_cases strict l with h | ⟨name, rfl, word, _, h⟩ <;> simp [h]

theorem reserve_eq_punctuator {mark : String} : reserve strict l = .punctuator mark ↔ l = .punctuator mark := by
  rcases reserve_cases strict l with h | ⟨name, rfl, word, _, h⟩ <;> simp [h]

/-- The token ahead is taken: comments after it are skipped to a place from which the next token is
scanned, which is listed unless it is the end. -/
structure Moves (env : Env) (s : State) (ms : List Comment) (c : Scan.Cursor) (k : Token)
    (s' : State) : Prop where
  skipped : Returns Scan.comments (settings env s) s.cursor ms c
  scanned : Returns Scan.next (settings env s) c k s'.cursor
  lookahead : s'.lookahead = { k with lexeme := reserve s.context.strict k.lexeme }
  start : s'.startMark.index = c.index
  last : s'.lastMark.index = s.cursor.index
  context : s'.context = s.context
  remarks : s'.remarks.toList = s.remarks.toList ++ ms.map (remarkOf env)
  tokens : s'.tokens = if s'.lookahead.lexeme = .endOfInput ∨ env.options.tokens = false then s.tokens
    else s.tokens.push (entryAt env s')
  marks : (s'.startMark = s.startMark ∨ s'.startMark = cursorMark c) ∧ s'.lastMark = cursorMark s.cursor
  attachment : s'.attachment = ms.foldl (await env) s.attachment

/-- The mark of the start is replaced only if it is at another place. -/
theorem startMark_replaced (u : State) (m : Mark) : ∃ m', m'.index = m.index ∧ (m' = u.startMark ∨ m' = m) ∧
      (if m.index == u.startMark.index then u else { u with startMark := m }) = { u with startMark := m' } := by
  split
  · rename_i he
    exact ⟨u.startMark, (beq_iff_eq.mp he).symm, .inl rfl, rfl⟩
  · exact ⟨m, rfl, .inr rfl, rfl⟩

theorem next_moves (h : Returns next env s t s') : t = s.lookahead ∧ ∃ ms c k, Moves env s ms c k s' := by
  obtain ⟨_, u, h₁, h⟩ := ((Returns.first h rfl).first rfl).modify.bind
  obtain ⟨ms, hskip, hu, hr, ha⟩ := takeComments_returns h₁
  have hlast : u.lastMark = cursorMark s.cursor := by rw [hu]; rfl
  have hstart : u.startMark = s.startMark := by rw [hu]
  have hcontext : u.context = s.context := by rw [hu]
  have htokens : u.tokens = s.tokens := by rw [hu]
  replace h := (h.first rfl).modify
  obtain ⟨m, hm, hmark, hw⟩ := startMark_replaced u (cursorMark u.cursor)
  rw [hstart] at hmark
  rw [← cursorMark, hw] at h
  obtain ⟨k, v, h₂, h⟩ := h.bind
  obtain ⟨d, hk, rfl⟩ := returns_scan.mp h₂
  have hst : settings env { u with startMark := m } = settings env s := by
    simp only [settings, hcontext]
  rw [hst] at hk
  replace h := (h.first rfl).modify
  extract_lets t' at h
  simp only [hcontext] at h
  rcases h.ite with ⟨he, h⟩ | ⟨he, h⟩
  · obtain ⟨rfl, rfl⟩ := h.ended
    have he' : reserve s.context.strict k.lexeme = .endOfInput := beq_iff_eq.mp he
    refine ⟨rfl, ms, u.cursor, k, hskip, hk, rfl, hm, congrArg Mark.index hlast, rfl, hr, ?_, ⟨hmark, hlast⟩, ha⟩
    simp [he', htokens]
  · obtain ⟨_, w, h₃, h⟩ := h.bind
    obtain ⟨rfl, rfl⟩ := h.ended
    obtain rfl := listToken_returns h₃
    have he' : reserve s.context.strict k.lexeme ≠ .endOfInput := fun h => he (beq_iff_eq.mpr h)
    refine ⟨rfl, ms, u.cursor, k, hskip, hk, rfl, hm, congrArg Mark.index hlast, rfl, hr, ?_, ⟨hmark, hlast⟩, ha⟩
    by_cases ht : env.options.tokens = true
    · simp only [ht, if_true, htokens]
      rw [if_neg (by simp [he'])]
      rfl
    · simp [ht, htokens]

/-- The token ahead is scanned again as a regular expression, which is listed in its place. -/
structure Rescans (env : Env) (s : State) (ms : List Comment) (c : Scan.Cursor) (t : Token)
    (s' : State) : Prop where
  skipped : Returns Scan.comments (settings env s) { s.cursor with index := s.startMark.index } ms c
  scanned : Returns Scan.regex (settings env s) c t s'.cursor
  lookahead : s'.lookahead = t
  start : s'.startMark = s.startMark
  last : s'.lastMark = s.lastMark
  context : s'.context = s.context
  remarks : s'.remarks.toList = s.remarks.toList ++ ms.map (remarkOf env)
  tokens : s'.tokens = if env.options.tokens then s.tokens.pop.push (entryAt env s') else s.tokens
  attachment : s'.attachment = ms.foldl (await env) s.attachment

theorem nextRegex_rescans (h : Returns nextRegex env s t s') :
    ∃ ms c u, Rescans env s ms c t u ∧ Returns next env u t s' := by
  obtain ⟨_, u, h₁, h⟩ := (Returns.get h).bind
  obtain ⟨d, hd, rfl⟩ := returns_scan.mp h₁
  obtain rfl := Scan.returns_seek.mp hd
  obtain ⟨_, u, h₂, h⟩ := h.bind
  obtain ⟨ms, hskip, hu, hr, ha⟩ := takeComments_returns h₂
  have hstart : u.startMark = s.startMark := by rw [hu]
  have hlast : u.lastMark = s.lastMark := by rw [hu]
  have hcontext : u.context = s.context := by rw [hu]
  have htokens : u.tokens = s.tokens := by rw [hu]
  have hst : settings env u = settings env s := by simp only [settings, hcontext]
  obtain ⟨k, v, h₃, h⟩ := h.bind
  obtain ⟨d, hk, rfl⟩ := returns_scan.mp h₃
  rw [hst] at hk
  replace h := h.first rfl
  extract_lets rest at h
  have hrest v : Returns (rest ()) env v t s' → t = k ∧ Returns next env { v with lookahead := k } k s' := by
    intro h
    obtain ⟨_, w, h₄, h⟩ := (Returns.modify h).bind
    obtain ⟨rfl, rfl⟩ := h.ended
    obtain ⟨a, _, h₄, h⟩ := Returns.bind h₄
    obtain ⟨-, rfl⟩ := h.ended
    obtain ⟨rfl, -⟩ := next_moves h₄
    exact ⟨rfl, h₄⟩
  rcases h.ite with ⟨ht, h⟩ | ⟨ht, h⟩
  · obtain ⟨_, w, h₄, h⟩ := (h.first rfl).bind
    obtain rfl := listToken_returns h₄
    obtain ⟨rfl, h⟩ := hrest _ h
    refine ⟨ms, u.cursor, _, ?_, h⟩
    refine ⟨hskip, hk, rfl, hstart, hlast, hcontext, hr, ?_, ha⟩
    simp only [ht, if_true, htokens]
    rfl
  · obtain ⟨rfl, h⟩ := hrest _ h
    refine ⟨ms, u.cursor, _, ?_, h⟩
    refine ⟨hskip, hk, rfl, hstart, hlast, hcontext, hr, ?_, ha⟩
    rw [if_neg ht]
    exact htokens

/-! ## Nodes -/

/-- Range and location of a node that starts at a mark and ends with the token before. -/
def infoAt (env : Env) (start stop : Mark) : Node.Info :=
  { range := if env.options.range then some ⟨start.index, stop.index⟩ else none
    location := if env.options.location then some ⟨start.position, stop.position⟩ else none }

/-- The node of a shape. A delegate that renames puts another in the place of a name. -/
def nodeAt (env : Env) (start stop : Mark) (shape : Shape Node) : Node :=
  match env.options.delegate, shape with
  | .rename names, .identifier name =>
    match Table.get? name names with
    | some new => Node.bare (.identifier new)
    | none => ⟨infoAt env start stop, shape⟩
  | _, _ => ⟨infoAt env start stop, shape⟩

/-- A finished node leaves a trace in the log and among the comments and nodes only. -/
theorem finish_visits (h : Returns (finish start shape) env s n s') :
    s' = { s with attachment := s'.attachment, log := s'.log } ∧
      ∃ id, n = ⟨{ (nodeAt env start s.lastMark shape).info with id }, (nodeAt env start s.lastMark shape).shape⟩ ∧
        if env.options.attach then id = s.attachment.nextId ∧ s.attachment.Finishes s.lastMark.index s'.attachment
        else s'.attachment = s.attachment := by
  obtain ⟨_, u, h₁, h⟩ := ((Returns.first h rfl).first rfl).bind
  have hu := note_returns h₁
  extract_lets n' at h
  have hn : n' = nodeAt env start s.lastMark shape := rfl
  clear_value n'
  have hattachment : u.attachment = s.attachment := by rw [hu]
  rcases h.ite with ⟨ha, h⟩ | ⟨ha, h⟩
  · replace h := h.first rfl
    extract_lets a rest at h
    have hrest v visited : Returns (rest visited) env v n s' →
        s' = { v with attachment := visited } ∧ n = { n' with info := { n'.info with id := a.nextId } } := by
      intro h
      replace h := Returns.modify h
      exact (h.ended).symm
    suffices hs : ∃ visited, a.Finishes s.lastMark.index visited ∧ Returns (rest visited) env u n s' by
      obtain ⟨visited, hvisited, h⟩ := hs
      obtain ⟨rfl, rfl⟩ := hrest u visited h
      refine ⟨by rw [hu], a.nextId, by rw [hn], ?_⟩
      rw [if_pos ha, ← hattachment]
      exact ⟨rfl, hvisited⟩
    split at h
    · exact ⟨_, a.skip_finishes _, h.pure⟩
    · extract_lets _ at h
      split at h
      · exact ⟨_, Attachment.visit_finishes ‹_›, h.pure⟩
      · obtain ⟨_, _, h, _⟩ := h.bind
        exact absurd h returns_throw
  · obtain ⟨rfl, rfl⟩ := h.ended
    refine ⟨by rw [hu], n.info.id, ?_, by rw [if_neg ha, hattachment]⟩
    rw [← hn]
    cases n
    rfl

theorem finish_makes (h : Returns (finish start shape) env s n s') :
    s' = { s with attachment := s'.attachment, log := s'.log } ∧
      ∃ id, n = ⟨{ (nodeAt env start s.lastMark shape).info with id }, (nodeAt env start s.lastMark shape).shape⟩ := by
  obtain ⟨hs, id, hn, -⟩ := finish_visits h
  exact ⟨hs, id, hn⟩

theorem finish_keeps (h : Returns (finish start shape) env s n s') :
    s'.attachment.leading ⊆ s.attachment.leading ∧ s.attachment.Extends s'.attachment := by
  obtain ⟨-, _, -, ha⟩ := finish_visits h
  split at ha
  · exact ⟨ha.2.leading, ha.2.toExtends⟩
  · rw [ha]
    exact ⟨fun _ h => h, .refl _⟩

/-- Only a delegate that renames changes the node. -/
theorem finish_returns (h : Returns (finish start shape) env s n s') :
    s' = { s with attachment := s'.attachment, log := s'.log } ∧ ((∀ names, env.options.delegate ≠ .rename names) →
        ∃ id, n = ⟨{ infoAt env start s.lastMark with id }, shape⟩) := by
  obtain ⟨hs', id, hn⟩ := finish_makes h
  refine ⟨hs', fun hd => ⟨id, ?_⟩⟩
  have : nodeAt env start s.lastMark shape = ⟨infoAt env start s.lastMark, shape⟩ := by
    unfold nodeAt
    split
    · exact absurd ‹_› (hd _)
    · rfl
  rw [hn, this]

end Parse

end ScriptTree
