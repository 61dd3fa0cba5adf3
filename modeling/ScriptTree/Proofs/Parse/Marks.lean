import ScriptTree.Proofs.Parse.Rules

/-! # Where nodes start and end

Nodes are finished between two marks: the start of a token that was ahead and the end of the last one that
was taken. Along a parse both only go forward (`Goes`), and after a token has been taken they are in order
(`Took`). -/

namespace ScriptTree

namespace Source

def positionOf (src : Source) (i : Nat) : Position := Text.positionOf src.chars.toList i

/-- A token that starts at the offset ends on a later line. -/
def SpansLines (src : Source) (i : Nat) : Prop :=
  ∃ (st : Scan.Settings) (c d : Scan.Cursor) (k : Token),
    st.source = src ∧ c.index = i ∧ Returns Scan.next st c k d ∧ c.line < d.line

end Source

namespace Scan.Walk

variable {src : Source} {p q : Place}

theorem line_le (h : Walk src p q) : p.line ≤ q.line := by
  induction h with
  | here => exact Nat.le_refl _
  | char _ _ _ ih => exact ih
  | line _ _ _ ih => exact Nat.le_succ_of_le ih

/-- A place on the same line has the same start of its line. -/
theorem lineStart_eq (h : Walk src p q) (hl : q.line = p.line) : q.lineStart = p.lineStart := by
  induction h with
  | here => rfl
  | char _ _ _ ih => exact ih hl
  | line h => exact absurd hl (Nat.ne_of_gt (Nat.lt_succ_of_le h.line_le))

theorem lineStart_le (h : Walk src p q) (hp : p.lineStart ≤ p.index) : q.lineStart ≤ q.index := by
  induction h with
  | here => exact hp
  | char _ _ _ ih => exact Nat.le_succ_of_le ih
  | line => exact Nat.le_refl _

end Scan.Walk

namespace Parse

variable {a : Attachment} {b : Bool} {p : Attachment.Pending} {t : Token}

def Comes (src : Source) (p : Scan.Place) : Prop := Scan.Walk src (Scan.start src).toPlace p

/-- The line and the column of a mark are those of its offset. -/
def Aligned (src : Source) (m : Mark) : Prop := 0 < src.length → m.position = src.positionOf m.index

variable {c : Scan.Cursor}

theorem Comes.aligned {src : Source} (h : Comes src c.toPlace) : Aligned src (cursorMark c) := by
  intro hne
  have hstart : (Scan.start src).toPlace = ⟨0, 1, 0⟩ := by simp [Scan.start, hne]
  have hsrc : src = .ofText src.chars.toList := by cases src; rfl
  unfold Comes at h
  rw [hstart, hsrc] at h
  exact h.position

/-- The scan is at a place that it comes to, the line and the column of both marks are those of their offsets, and
the token ahead was scanned from the first of them. -/
structure Situated (env : Env) (s : State) : Prop where
  cursor : Comes env.source s.cursor.toPlace
  start : Aligned env.source s.startMark
  last : Aligned env.source s.lastMark
  line : s.lookahead.line = s.cursor.line ∧ s.lookahead.lineStart = s.cursor.lineStart
  ahead : ∃ c : Scan.Place, Comes env.source c ∧ c.index = s.startMark.index ∧
    Scan.Walk env.source c s.cursor.toPlace ∧ (s.cursor.line = c.line ∨ env.source.SpansLines c.index) ∧
    ∀ m, s.lookahead.lexeme = .punctuator m → s.cursor.line = c.line

/-- The comment that waits has a range. -/
structure Lies (p : Attachment.Pending) (r : Range) : Prop where
  range : p.remark.range = some r
  start : p.start = r.start
  lt : r.start < r.stop

/-- The comments that wait end at an offset or before it. -/
def Within (a : Attachment) (i : Nat) : Prop := ∀ p ∈ a.leading, ∃ r, Lies p r ∧ r.stop ≤ i

/-- The comments that wait are before the token ahead, on either side of the end of the last one. -/
def Waits (s : State) : Prop := ∀ p ∈ s.attachment.leading, ∃ r, Lies p r ∧ r.stop ≤ s.startMark.index ∧
  (r.stop ≤ s.lastMark.index ∨ s.lastMark.index ≤ r.start)

/-- The token ahead starts at its mark, and the cursor is not before it. -/
structure Ready (env : Env) (s : State) : Prop extends Situated env s where
  at' : s.lookahead.start = s.startMark.index
  le : s.startMark.index ≤ s.cursor.index
  waits : Waits s

/-- No token has been taken, or the last one ends between the two starts. -/
structure Goes (env : Env) (s s' : State) : Prop where
  ready : Ready env s'
  marks : s'.startMark.index = s.startMark.index ∧ s'.lastMark.index = s.lastMark.index ∨
    s.startMark.index ≤ s'.lastMark.index ∧ s'.lastMark.index ≤ s'.startMark.index
  grows : s.attachment.Extends s'.attachment

/-- A token has been taken. -/
structure Took (env : Env) (s s' : State) : Prop where
  ready : Ready env s'
  lower : s.startMark.index ≤ s'.lastMark.index
  upper : s'.lastMark.index ≤ s'.startMark.index
  grows : s.attachment.Extends s'.attachment

variable {α β : Type} {env : Env} {s s' u : State} {ms : List Comment} {k : Token}

theorem Goes.trans (h : Goes env s u) (h' : Goes env u s') : Goes env s s' := by
  refine ⟨h'.ready, ?_, h.grows.trans h'.grows⟩
  have := h.marks
  have := h'.marks
  omega

theorem Took.goes (h : Took env s s') : Goes env s s' := ⟨h.ready, .inr ⟨h.lower, h.upper⟩, h.grows⟩

/-! ## Comments that wait -/

theorem Waits.within (h : Waits s) {i : Nat} (hi : s.startMark.index ≤ i) : Within s.attachment i := by
  intro p hp
  obtain ⟨r, hr, hle, -⟩ := h p hp
  exact ⟨r, hr, Nat.le_trans hle hi⟩

theorem await_grows (env : Env) (ms : List Comment) (a : Attachment) : a.Extends (ms.foldl (await env) a) := by
  have hremarks : (ms.foldl (await env) a).remarks = a.remarks := by
    induction ms generalizing a with
    | nil => rfl
    | cons m ms ih =>
      rw [List.foldl_cons, ih, await]
      split <;> rfl
  exact ⟨Nat.le_of_eq (by rw [Attachment.nextId, ← hremarks]; rfl), fun _ _ => by rw [Attachment.remarksOf, hremarks]; rfl⟩

/-- What waits has waited before, or is one of the comments that are added. -/
theorem mem_leading_await (h : p ∈ (ms.foldl (await env) a).leading) :
    p ∈ a.leading ∨ ∃ m ∈ ms, p.remark.range = some m.range ∧ p.start = m.range.start := by
  induction ms generalizing a with
  | nil => exact .inl h
  | cons m ms ih =>
    rcases ih h with h | ⟨m', hm, h⟩
    · unfold await at h
      split at h
      · rcases List.mem_append.mp h with h | h
        · exact .inl h
        · obtain rfl := List.mem_singleton.mp h
          exact .inr ⟨m, List.mem_cons_self, rfl, rfl⟩
      · exact .inl h
    · exact .inr ⟨m', List.mem_cons_of_mem m hm, h⟩

/-- What waits after comments were skipped has waited before, or is where they were. -/
theorem skipped_waits {d : Scan.Cursor}
    (h : Returns Scan.comments (settings env s) c ms d) (hp : p ∈ (ms.foldl (await env) a).leading) :
    p ∈ a.leading ∨ ∃ r, Lies p r ∧ c.index ≤ r.start ∧ r.stop ≤ d.index := by
  refine (mem_leading_await hp).imp_right ?_
  rintro ⟨m, hm, hrange, hstart⟩
  obtain ⟨found, hskip, -, rfl⟩ := Scan.comments_skip h
  have hfound : m ∈ found := by
    split at hm
    · exact hm
    · cases hm
  obtain ⟨hlow, hlt, hhigh⟩ := hskip.tiles.bounds m.range (List.mem_map_of_mem hfound)
  exact ⟨m.range, ⟨hrange, hstart, hlt⟩, hlow, hhigh⟩

theorem Moves.waits (h : Moves env s ms c k s') (hs : Within s.attachment s.cursor.index) : Waits s' := by
  intro p hp
  obtain ⟨found, hskip, -, -⟩ := Scan.comments_skip h.skipped
  have hc := hskip.index_le
  have := h.start
  have := h.last
  rcases skipped_waits h.skipped (h.attachment ▸ hp) with hp | ⟨r, hr, hlow, hhigh⟩
  · obtain ⟨r, hr, hle⟩ := hs p hp
    exact ⟨r, hr, by omega, by omega⟩
  · exact ⟨r, hr, by omega, by omega⟩

/-- Only the cursor, the marks and the token ahead matter. -/
theorem Situated.congr (h : Situated env s) (hc : s'.cursor.toPlace = s.cursor.toPlace)
    (hl : s'.lookahead = s.lookahead) (hm : s'.startMark = s.startMark) (hm' : Aligned env.source s'.lastMark) :
    Situated env s' := by
  obtain ⟨hcursor, hstart, -, hline, hahead⟩ := h
  exact ⟨by rwa [hc], by rwa [hm], hm', by rwa [hc, hl], by rwa [hc, hl, hm]⟩

/-- The places of the next token do not depend on what was ahead before. -/
theorem Moves.situated (h : Moves env s ms c k s')
    (hs : Comes env.source s.cursor.toPlace) (hm : Aligned env.source s.startMark) : Situated env s' := by
  obtain ⟨found, hskip, -, -⟩ := Scan.comments_skip h.skipped
  have hc : Comes env.source c.toPlace := hs.trans hskip.walk
  have hstart : Aligned env.source s'.startMark := by
    rcases h.marks.1 with heq | heq
    · exact heq ▸ hm
    · exact heq ▸ hc.aligned
  have hlast : Aligned env.source s'.lastMark := h.marks.2 ▸ hs.aligned
  have hk := Scan.next_spans h.scanned
  refine ⟨hc.trans hk.walk, hstart, hlast, by rw [h.lookahead]; exact hk.line, c.toPlace, hc, h.start.symm, hk.walk,
    ?_, fun m hm => ?_⟩
  · rcases Nat.eq_or_lt_of_le hk.walk.line_le with heq | hlt
    · exact .inl heq.symm
    · exact .inr ⟨_, c, _, k, rfl, rfl, h.scanned, hlt⟩
  · rcases Scan.next_takes h.scanned with ⟨-, -, hd⟩ | ⟨-, hk⟩
    · rw [hd]
    · rw [h.lookahead] at hm
      exact (hk.flat m (reserve_eq_punctuator.mp hm)).1

theorem Moves.took (h : Moves env s ms c k s') (hs : s.startMark.index ≤ s.cursor.index) (hp : Situated env s')
    (hw : Within s.attachment s.cursor.index) : Took env s s' := by
  obtain ⟨found, hskip, -, -⟩ := Scan.comments_skip h.skipped
  have hc := hskip.index_le
  have hk := (Scan.next_spans h.scanned).start
  have hd : c.index ≤ s'.cursor.index := (Scan.next_spans h.scanned).walk.index_le
  have hl : s'.lookahead.start = k.start := by rw [h.lookahead]
  have := h.start
  have := h.last
  exact ⟨⟨hp, by omega, by omega, h.waits hw⟩, by omega, by omega, h.attachment ▸ await_grows env ms _⟩

theorem Ready.took (hs : Ready env s) (h : Moves env s ms c k s') : Took env s s' :=
  h.took hs.le (h.situated hs.cursor hs.start) (hs.waits.within hs.le)

theorem Rescans.le (h : Rescans env s ms c t s') : s.startMark.index ≤ c.index ∧ c.index ≤ s'.cursor.index := by
  obtain ⟨found, hskip, -, -⟩ := Scan.comments_skip h.skipped
  obtain ⟨-, hk⟩ := Scan.regex_takes h.scanned
  exact ⟨hskip.index_le, Nat.le_of_lt hk.lt⟩

theorem Rescans.within (h : Rescans env s ms c t s') (hs : Waits s) : Within s'.attachment s'.cursor.index := by
  intro p hp
  obtain ⟨hstart, hcursor⟩ := h.le
  rcases skipped_waits h.skipped (h.attachment ▸ hp) with hp | ⟨r, hr, -, hhigh⟩
  · exact hs.within (by omega) p hp
  · exact ⟨r, hr, by omega⟩

/-- The scan goes back to the start of a slash, which is on the same line. -/
theorem Rescans.comes (h : Rescans env s ms c t s') (hl : s.lookahead.lexeme.IsSlash) (hs : Situated env s) :
    Comes env.source s'.cursor.toPlace := by
  obtain ⟨found, hskip, -, -⟩ := Scan.comments_skip h.skipped
  obtain ⟨-, hk⟩ := Scan.regex_takes h.scanned
  obtain ⟨⟨index, line, lineStart⟩, hc, hi, hw, -, hflat⟩ := hs.ahead
  have hline : s.cursor.line = line := by
    rcases hl with hl | hl <;> exact hflat _ hl
  have hback : ({ s.cursor with index := s.startMark.index } : Scan.Cursor).toPlace = ⟨index, line, lineStart⟩ := by
    have hls := hw.lineStart_eq hline
    simp only at hi hls
    simp [hi, hline, hls]
  exact (hback ▸ hc : Comes _ _).trans (hskip.walk.trans hk.walk)

/-- The token ahead is taken as a regular expression. -/
theorem Ready.tookRegex {ms ms' : List Comment} {c c' : Scan.Cursor} {k : Token} (hs : Ready env s)
    (hl : s.lookahead.lexeme.IsSlash)
    (hr : Rescans env s ms c t u) (h : Moves env u ms' c' k s') : Took env s s' := by
  obtain ⟨hready, hlower, hupper, hgrows⟩ := h.took (hr.start ▸ Nat.le_trans hr.le.1 hr.le.2)
    (h.situated (hr.comes hl hs.toSituated) (hr.start ▸ hs.start)) (hr.within hs.waits)
  rw [hr.start] at hlower
  exact ⟨hready, hlower, hupper, (hr.attachment ▸ await_grows env ms _ : s.attachment.Extends u.attachment).trans hgrows⟩

theorem Step.goes (h : Step env b s s') (hs : Ready env s) : Goes env s s' := by
  cases h with
  | next h => exact (hs.took h).goes
  | regex hl hr h => exact (hs.tookRegex hl hr h).goes
  | peek h =>
    rw [peekNext_returns h]
    exact ⟨⟨hs.congr rfl rfl rfl hs.last, hs.at', hs.le, hs.waits⟩, .inl ⟨rfl, rfl⟩, .refl _⟩
  | context | complain =>
    exact ⟨⟨hs.congr rfl rfl rfl hs.last, hs.at', hs.le, hs.waits⟩, .inl ⟨rfl, rfl⟩, .refl _⟩
  | finish _ hl he =>
    exact ⟨⟨hs.congr rfl rfl rfl hs.last, hs.at', hs.le, fun p hp => hs.waits p (hl hp)⟩, .inl ⟨rfl, rfl⟩, he⟩
  | extend =>
    refine ⟨⟨hs.congr rfl rfl rfl hs.start, hs.at', hs.le, fun p hp => ?_⟩, .inr ⟨Nat.le_refl _, Nat.le_refl _⟩, .refl _⟩
    obtain ⟨r, hr, hle, -⟩ := hs.waits p hp
    exact ⟨r, hr, hle, .inl hle⟩

theorem Run.goes (h : Run env b s s') (hs : Ready env s) : Goes env s s' := by
  induction h with
  | stay => exact ⟨hs, .inl ⟨rfl, rfl⟩, .refl _⟩
  | step _ h ih => exact ih.trans (h.goes ih.ready)

/-- The cursor and the marks are inside the source. -/
structure Inside (env : Env) (s : State) : Prop where
  cursor : s.cursor.index ≤ env.source.length
  start : s.startMark.index ≤ env.source.length
  last : s.lastMark.index ≤ env.source.length

theorem skipped_le {st : Scan.Settings} {c d : Scan.Cursor}
    (h : Returns Scan.comments st c ms d) (hc : c.index ≤ st.source.length) : d.index ≤ st.source.length := by
  obtain ⟨found, hskip, -, -⟩ := Scan.comments_skip h
  exact hskip.toGlides.index_le_length hc

theorem Moves.inside (h : Moves env s ms c k s') (hs : s.cursor.index ≤ env.source.length) : Inside env s' := by
  have hc : c.index ≤ env.source.length := skipped_le h.skipped hs
  exact ⟨(Scan.next_spans h.scanned).walk.index_le_length hc, by rw [h.start]; exact hc, by rw [h.last]; exact hs⟩

theorem Step.inside (h : Step env b s s') (hs : Inside env s) : Inside env s' := by
  cases h with
  | next h => exact h.inside hs.cursor
  | regex _ hr h =>
    obtain ⟨-, hk⟩ := Scan.regex_takes hr.scanned
    exact h.inside (hk.walk.index_le_length (skipped_le hr.skipped hs.start))
  | peek h =>
    rw [peekNext_returns h]
    exact ⟨hs.cursor, hs.start, hs.last⟩
  | context | complain | finish => exact ⟨hs.cursor, hs.start, hs.last⟩
  | extend => exact ⟨hs.cursor, hs.start, hs.start⟩

theorem tokenMark_index (t : Token) (k : Nat) : (tokenMark t k).index = t.start := by
  unfold tokenMark
  dsimp only
  split <;> rfl

/-- The mark stands at the offset. Its line and its column are those of the offset, unless a token that starts
there ends on a later line. -/
structure Starts (env : Env) (lo : Nat) (m : Mark) : Prop where
  index : m.index = lo
  position : Aligned env.source m ∨ env.source.SpansLines lo

theorem Ready.mark (hs : Ready env s) (k : Nat) : Starts env s.startMark.index (tokenMark s.lookahead k) := by
  refine ⟨(tokenMark_index s.lookahead k).trans hs.at', ?_⟩
  obtain ⟨c, hc, hi, hw, hline | hspans, -⟩ := hs.ahead
  · left
    have hls := hw.lineStart_eq hline
    have hle : c.lineStart ≤ c.index := Scan.Walk.lineStart_le hc (Nat.le_refl _)
    have hmark : tokenMark s.lookahead k = cursorMark { s.cursor with toPlace := c } := by
      unfold tokenMark cursorMark
      rw [hs.line.1, hs.line.2, hline, hls, hs.at', ← hi]
      exact if_neg (by omega)
    rw [hmark]
    exact Comes.aligned hc
  · exact .inr (hi ▸ hspans)

end Parse

end ScriptTree
