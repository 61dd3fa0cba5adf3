import ScriptTree.Proofs.Parse.Rules

/-! # Tokens and comments cover the source

A parse lists a token when it comes into sight, one before it is taken, and lists another in its place when
a slash turns out to start a regular expression. The invariant `InSight` says that all the same the lists
tile the source up to the cursor, and `parse_covers` what that means for a whole program. -/

namespace ScriptTree

namespace Parse

variable {c : Scan.Cursor} {g : Grammar} {ms : List Comment} {n : Node} {stop : Parse Bool} {α : Type}

/-- A token or comment by its range. -/
structure Piece where
  range : Range
  isToken : Bool

/-- Tokens and comments tile the source up to an offset, and tokens have their text. -/
structure Covered (env : Env) (i : Nat) (ts : List Entry) (rs : List Remark) : Prop where
  pieces : ∃ ps : List Piece, Tiles env.source 0 (ps.map Piece.range) i ∧
    ts.map Entry.range = (ps.filter Piece.isToken).map (some ·.range) ∧
    rs.map Remark.range = (ps.filter (!·.isToken)).map (some ·.range)
  le : i ≤ env.source.length
  values : ∀ e ∈ ts, ∀ r ∈ e.range, e.value = env.source.slice r.start r.stop

namespace Covered

variable {env : Env} {i j : Nat} {ts : List Entry} {rs : List Remark} {e : Entry}

theorem start (env : Env) : Covered env 0 [] [] :=
  ⟨⟨[], .done, rfl, rfl⟩, Nat.zero_le _, nofun⟩

theorem skip {st : Scan.Settings} {d : Scan.Cursor}
    (h : Covered env c.index ts rs) (hr : env.options.range = true) (hst : st.source = env.source)
    (hs : Scan.Skips st c ms d) : Covered env d.index ts (rs ++ ms.map (remarkOf env)) := by
  obtain ⟨⟨ps, ht, hts, hrs⟩, hle, hv⟩ := h
  have hskip := hs.tiles
  have hd := hs.index_le_length (hst ▸ hle)
  rw [hst] at hskip hd
  refine ⟨⟨ps ++ ms.map fun m => ⟨m.range, false⟩, ?_, ?_, ?_⟩, hd, hv⟩
  · simpa [Function.comp_def] using ht.append hskip
  · simp [hts, List.filter_map, Function.comp_def]
  · have hall : ms.filter (fun _ => true) = ms := List.filter_eq_self.mpr fun _ _ => rfl
    simp [hrs, List.filter_map, Function.comp_def, remarkOf, hr, hall]

theorem token (h : Covered env i ts rs) (hlt : i < j) (hj : j ≤ env.source.length)
    (hr : e.range = some ⟨i, j⟩) (hv : e.value = env.source.slice i j) :
    Covered env j (ts ++ [e]) rs := by
  obtain ⟨⟨ps, ht, hts, hrs⟩, hle, hvs⟩ := h
  refine ⟨⟨ps ++ [⟨⟨i, j⟩, true⟩], ?_, ?_, ?_⟩, hj, ?_⟩
  · simpa using ht.snoc hlt
  · simp [hts, hr]
  · simp [hrs]
  · intro e' he' r hr'
    rcases List.mem_append.mp he' with he' | he'
    · exact hvs e' he' r hr'
    · obtain rfl := List.mem_singleton.mp he'
      obtain rfl : ⟨i, j⟩ = r := Option.some.inj (hr.symm.trans hr')
      exact hv

end Covered

variable {env : Env} {s s' : State}

/-- The last entry is the one of the token ahead, and what is listed before it covers the source up to its
start. A slash ahead does not start a comment. -/
structure TokenAhead (env : Env) (s : State) (ts : List Entry) (e : Entry) : Prop where
  tokens : s.tokens.toList = ts ++ [e]
  covered : Covered env s.startMark.index ts s.remarks.toList
  lt : s.startMark.index < s.cursor.index
  le : s.cursor.index ≤ env.source.length
  range : e.range = some ⟨s.startMark.index, s.cursor.index⟩
  value : e.value = env.source.slice s.startMark.index s.cursor.index
  slash : s.lookahead.lexeme = .punctuator "/" ∨ s.lookahead.lexeme = .punctuator "/=" →
    env.source.chars[s.startMark.index]? = some 0x2F ∧
      env.source.at? (s.startMark.index + 1) ≠ some 0x2F ∧
      env.source.at? (s.startMark.index + 1) ≠ some 0x2A

/-- The end is ahead and everything is listed, or the last entry is that of the token ahead. -/
def InSight (env : Env) (s : State) : Prop :=
  (s.lookahead.lexeme = .endOfInput ∧ env.source.length ≤ s.cursor.index ∧
    Covered env s.cursor.index s.tokens.toList s.remarks.toList) ∨
  (s.lookahead.lexeme ≠ .endOfInput ∧ ∃ ts e, TokenAhead env s ts e)

theorem InSight.covered (h : InSight env s) : Covered env s.cursor.index s.tokens.toList s.remarks.toList := by
  rcases h with ⟨-, -, h⟩ | ⟨-, ts, e, h⟩
  · exact h
  · rw [h.tokens]
    exact h.covered.token h.lt h.le h.range h.value

/-- Only the token ahead, its place and the lists matter. -/
theorem InSight.congr (h : InSight env s) (hl : s'.lookahead = s.lookahead)
    (hm : s'.startMark = s.startMark) (hi : s'.cursor.index = s.cursor.index)
    (ht : s'.tokens = s.tokens) (hr : s'.remarks = s.remarks) : InSight env s' := by
  rcases h with h | ⟨hn, ts, e, h⟩
  · exact .inl (by rwa [hl, hi, ht, hr])
  · refine .inr ⟨by rwa [hl], ts, e, ?_⟩
    obtain ⟨htokens, hcovered, hlt, hle, hrange, hvalue, hslash⟩ := h
    constructor <;> simp only [hl, hm, hi, ht, hr] <;> assumption

/-! ## Steps -/

/-- What is asked of the options. -/
structure Listing (o : Options) : Prop where
  range : o.range = true
  tokens : o.tokens = true
  comments : o.comments = true

/-- The end comes into sight and nothing is listed, or a token that is listed. -/
theorem Moves.sights {k : Token} (h : Moves env s ms c k s') :
    s'.lookahead.lexeme = .endOfInput ∧ env.source.length ≤ c.index ∧ s'.cursor = c ∧ s'.tokens = s.tokens ∨
      s'.lookahead.lexeme ≠ .endOfInput ∧ c.index < env.source.length ∧ Scan.Takes (settings env s) c k s'.cursor ∧
        (env.options.tokens = true → s'.tokens.toList = s.tokens.toList ++ [entryAt env s']) := by
  rcases Scan.next_takes h.scanned with ⟨hend, hk, hc⟩ | ⟨hlt, hk⟩
  · have hl : s'.lookahead.lexeme = .endOfInput := by
      rw [h.lookahead, hk]
      rfl
    exact .inl ⟨hl, hend, hc, by rw [h.tokens, if_pos (.inl hl)]⟩
  · have hl : s'.lookahead.lexeme ≠ .endOfInput := by
      rw [h.lookahead]
      exact fun he => hk.notEnd (reserve_eq_endOfInput.mp he)
    exact .inr ⟨hl, hlt, hk, fun ho => by rw [h.tokens, if_neg (by simp [hl, ho]), Array.toList_push]⟩

/-- Comments are skipped before a token, so a slash that comes into sight does not start one. -/
theorem Moves.slash {k : Token} (h : Moves env s ms c k s') (hl : s'.lookahead.lexeme.IsSlash) :
    env.source.chars[s'.startMark.index]? = some 0x2F ∧
      env.source.at? (s'.startMark.index + 1) ≠ some 0x2F ∧
      env.source.at? (s'.startMark.index + 1) ≠ some 0x2A := by
  obtain ⟨found, -, hclear, -⟩ := Scan.comments_skip h.skipped
  rcases h.sights with ⟨he, -⟩ | ⟨-, hlt, hk, -⟩
  · rcases hl with hl | hl <;> rw [hl] at he <;> cases he
  rw [h.lookahead] at hl
  simp only [Lexeme.IsSlash, reserve_eq_punctuator] at hl
  have hx : env.source.at? c.index = some 0x2F := by
    rcases hl with hl | hl <;> exact hk.mark _ hl
  have hget := Source.getElem?_of_at? hx hlt
  rw [h.start]
  exact ⟨hget, (hclear _ hget).2 rfl⟩

/-- When a token is taken the next one comes into sight. -/
theorem Moves.inSight {k : Token} (ho : Listing env.options)
    (h : Moves env s ms c k s') (hs : Covered env s.cursor.index s.tokens.toList s.remarks.toList) :
    InSight env s' := by
  obtain ⟨found, hskip, -, hms⟩ := Scan.comments_skip h.skipped
  obtain rfl : ms = found := by rw [hms, if_pos (by simp [settings, ho.comments])]
  have hcov : Covered env c.index s.tokens.toList s'.remarks.toList := by
    rw [h.remarks]
    exact hs.skip ho.range rfl hskip
  rcases h.sights with ⟨hl, hend, hc, htokens⟩ | ⟨hl, hlt, hk, htokens⟩
  · refine .inl ⟨hl, by rw [hc]; exact hend, ?_⟩
    rw [hc, htokens]
    exact hcov
  · refine .inr ⟨hl, s.tokens.toList, entryAt env s', htokens ho.tokens, ?_, ?_, ?_, ?_, ?_, h.slash⟩
    · rw [h.start]
      exact hcov
    · rw [h.start]
      exact hk.lt
    · exact hk.walk.index_le_length (Nat.le_of_lt hlt)
    · simp [entryAt, ho.range, h.lookahead, h.start, hk.start, hk.stop]
    · simp [entryAt, h.lookahead, h.start, hk.start, hk.stop]

/-- A regular expression is in sight in place of the slash. -/
theorem Rescans.inSight {t : Token} (ho : Listing env.options) (hl : s.lookahead.lexeme.IsSlash)
    (h : Rescans env s ms c t s') (hs : InSight env s) : InSight env s' := by
  rcases hs with ⟨he, -⟩ | ⟨-, ts, e, hs⟩
  · rcases hl with hl | hl <;> rw [hl] at he <;> cases he
  obtain ⟨hx, hn₁, hn₂⟩ := hs.slash hl
  obtain ⟨rfl, rfl⟩ := Scan.comments_slash hx hn₁ hn₂ h.skipped
  obtain ⟨-, hk⟩ := Scan.regex_takes h.scanned
  refine .inr ⟨by rw [h.lookahead]; exact hk.notEnd, ts, entryAt env s', ?_, ?_, ?_, ?_, ?_, ?_, ?_⟩
  · simp [h.tokens, ho.tokens, hs.tokens]
  · rw [h.start, h.remarks]
    simpa using hs.covered
  · rw [h.start]
    exact hk.lt
  · exact hk.walk.index_le_length hs.covered.le
  · simp [entryAt, ho.range, h.lookahead, h.start, hk.start, hk.stop]
  · simp [entryAt, h.lookahead, h.start, hk.start, hk.stop]
  · rw [h.start]
    exact fun _ => ⟨hx, hn₁, hn₂⟩

theorem Step.inSight {b : Bool} (ho : Listing env.options) (h : Step env b s s') (hs : InSight env s) :
    InSight env s' := by
  cases h with
  | next h => exact h.inSight ho hs.covered
  | regex hl hr h => exact h.inSight ho (hr.inSight ho hl hs).covered
  | peek h =>
    rw [peekNext_returns h]
    exact hs.congr rfl rfl rfl rfl rfl
  | context | complain | extend | finish => exact hs.congr rfl rfl rfl rfl rfl

/-! ## Whole programs -/

theorem loopFor_until {item : Parse α} {n : Nat} {items found : List α} (h : Returns (loopFor (fun items => do
      if ← stop then return .done items
      else return .again ((← item) :: items)) n items) env s found s') :
    ∃ u, Returns stop env u true s' := by
  induction n generalizing items s with
  | zero => exact absurd h returns_throw
  | succ n ih =>
    obtain ⟨r, u, h₁, h⟩ := Returns.bind h
    obtain ⟨b, v, h₂, h₁⟩ := Returns.bind h₁
    rcases h₁.ite with ⟨hb, h₁⟩ | ⟨_, h₁⟩
    · obtain ⟨rfl, rfl⟩ := h₁.ended
      obtain ⟨-, rfl⟩ := h.ended
      exact ⟨s, hb ▸ h₂⟩
    · obtain ⟨x, w, h₃, h₁⟩ := h₁.bind
      obtain ⟨rfl, rfl⟩ := h₁.ended
      exact ih h

/-- Items are collected until the stop is met. -/
theorem until'_stops {item : Parse α} {found : List α}
    (h : Returns (until' stop item) env s found s') : ∃ u, Returns stop env u true s' := by
  obtain ⟨reversed, u, h₁, h⟩ := Returns.bind h
  obtain ⟨-, rfl⟩ := h.ended
  replace h₁ := Returns.first h₁ rfl
  exact loopFor_until h₁

/-- The state after the first token. Only now a module is known to be one. -/
def State.begun (env : Env) (s : State) : State :=
  { s with
    lastMark := cursorMark s.cursor
    context := if env.options.isModule then { s.context with strict := true, isModule := true }
      else s.context }

/-- A whole program is a first token, steps from there, and the end ahead. -/
theorem program_run [Regular g] (hj : env.options.jsx = false) (h : Returns (program g) env s n s') :
    ∃ t u, Returns next env s t u ∧
      (∀ b, (b = true → (State.begun env u).context.strict = true) → Run env b (State.begun env u) s') ∧
      s'.lookahead.lexeme = .endOfInput := by
  obtain ⟨_, u, h₁, h⟩ := Returns.bind h
  obtain ⟨t, _, h₁, h₂⟩ := Returns.bind h₁
  obtain ⟨-, rfl⟩ := h₂.ended
  refine ⟨t, u, h₁, ?_⟩
  replace h := ((h.first rfl).modify).first rfl
  extract_lets isModule rest at h
  have hrest : Returns (rest ()) env (State.begun env u) n s' := by
    rcases h.ite with ⟨hm, h⟩ | ⟨hm, h⟩
    · have hu : State.begun env u = { u with
          lastMark := cursorMark u.cursor
          context := { u.context with strict := true, isModule := true } } := by
        rw [State.begun, if_pos hm]
      rw [hu]
      exact h.modify
    · have hu : State.begun env u = { u with lastMark := cursorMark u.cursor } := by
        rw [State.begun, if_neg hm]
      rw [hu]
      exact h
  obtain ⟨directives, w, h₃, hrest⟩ := (Returns.first hrest rfl).bind
  obtain ⟨items, x, h₄, hrest⟩ := hrest.bind
  constructor
  · intro b hb
    have hw := Steps.run hj hb h₃
    have hx := hw.trans (Steps.run hj (hw.strict hb) h₄)
    exact hx.trans (Steps.run hj (hx.strict hb) hrest)
  · obtain ⟨y, hy⟩ := until'_stops h₄
    replace hy := Returns.first hy rfl
    obtain ⟨he, rfl⟩ := hy.ended
    rw [(finish_returns hrest).1]
    exact beq_iff_eq.mp he.symm

/-- After a whole program everything is listed. -/
theorem program_covered [Regular g] (ho : Listing env.options) (hj : env.options.jsx = false)
    (hs : Covered env s.cursor.index s.tokens.toList s.remarks.toList)
    (h : Returns (program g) env s n s') :
    Covered env env.source.length s'.tokens.toList s'.remarks.toList := by
  obtain ⟨t, u, h₁, hr, he⟩ := program_run hj h
  obtain ⟨-, ms, c, k, hm⟩ := next_moves h₁
  have hu : InSight env (State.begun env u) := (hm.inSight ho hs).congr rfl rfl rfl rfl rfl
  rcases (hr false nofun).preserves (fun h => h.inSight ho) hu with ⟨-, hend, hc⟩ | ⟨hn, -⟩
  · rwa [Nat.le_antisymm hc.le hend] at hc
  · exact absurd he hn

end Parse

/-- Tokens and comments that cover a text: none is empty, those of each list come in the order of the text
and do not overlap, nor do a token and a comment, tokens have the text of their range, and outside all of
them there are only blanks. -/
structure Covers (t : Text) (tokens : List Entry) (comments : List Remark) : Prop where
  token : ∀ e ∈ tokens, ∃ r, e.range = some r ∧ r.start < r.stop ∧ r.stop ≤ t.length ∧
    e.value = t.slice r.start r.stop
  comment : ∀ m ∈ comments, ∃ r, m.range = some r ∧ r.start < r.stop ∧ r.stop ≤ t.length
  tokenOrder : tokens.Pairwise fun e e' => ∀ r ∈ e.range, ∀ r' ∈ e'.range, r.stop ≤ r'.start
  commentOrder : comments.Pairwise fun m m' => ∀ r ∈ m.range, ∀ r' ∈ m'.range, r.stop ≤ r'.start
  apart : ∀ e ∈ tokens, ∀ m ∈ comments, ∀ r ∈ e.range, ∀ r' ∈ m.range,
    r.stop ≤ r'.start ∨ r'.stop ≤ r.start
  blank : ∀ i x, t[i]? = some x → (∀ e ∈ tokens, ∀ r ∈ e.range, ¬ (r.start ≤ i ∧ i < r.stop)) →
    (∀ m ∈ comments, ∀ r ∈ m.range, ¬ (r.start ≤ i ∧ i < r.stop)) →
    Text.isWhiteSpace x = true ∨ Text.isLineTerminator x = true

namespace Parse

theorem apart_of_pairwise {ps : List Piece} {p q : Piece}
    (h : ps.Pairwise fun p p' => p.range.stop ≤ p'.range.start) (hp : p ∈ ps) (hq : q ∈ ps) (hne : p ≠ q) :
    p.range.stop ≤ q.range.start ∨ q.range.stop ≤ p.range.start := by
  induction h with
  | nil => cases hp
  | cons hfirst _ ih =>
    rcases List.mem_cons.mp hp with rfl | hp' <;> rcases List.mem_cons.mp hq with rfl | hq'
    · exact absurd rfl hne
    · exact .inl (hfirst q hq')
    · exact .inr (hfirst p hp')
    · exact ih hp' hq'

/-- Lists that cover a source up to its end cover its text. -/
theorem Covered.covers {t : Text} {o : Options} {tokens : List Entry} {comments : List Remark}
    (h : Covered ⟨.ofText t, o⟩ t.length tokens comments) : Covers t tokens comments := by
  obtain ⟨⟨ps, htiles, htokens, hcomments⟩, -, hvalues⟩ := h
  have hbounds : ∀ p ∈ ps, p.range.start < p.range.stop ∧ p.range.stop ≤ t.length := fun p hp =>
    (htiles.bounds _ (List.mem_map_of_mem hp)).2
  have horder : ps.Pairwise fun p p' => p.range.stop ≤ p'.range.start :=
    List.pairwise_map.mp htiles.pairwise
  refine ⟨?_, ?_, ?_, ?_, ?_, ?_⟩
  · intro e he
    obtain ⟨p, hp, hr⟩ := exists_of_mem_left htokens he
    obtain ⟨hlt, hle⟩ := hbounds p (List.mem_filter.mp hp).1
    exact ⟨p.range, hr, hlt, hle, by rw [hvalues e he _ hr, Source.slice_ofText hle]⟩
  · intro m hm
    obtain ⟨p, hp, hr⟩ := exists_of_mem_left hcomments hm
    exact ⟨p.range, hr, hbounds p (List.mem_filter.mp hp).1⟩
  · exact pairwise_of_ranges htokens (horder.filter _)
  · exact pairwise_of_ranges hcomments (horder.filter _)
  · intro e he m hm r hr r' hr'
    obtain ⟨p, hp, hrp⟩ := exists_of_mem_left htokens he
    obtain ⟨q, hq, hrq⟩ := exists_of_mem_left hcomments hm
    obtain ⟨hp, hpt⟩ := List.mem_filter.mp hp
    obtain ⟨hq, hqc⟩ := List.mem_filter.mp hq
    obtain rfl := Option.some.inj (hrp.symm.trans hr)
    obtain rfl := Option.some.inj (hrq.symm.trans hr')
    -- a piece is not both a token and a comment
    have hne : p ≠ q := by
      rintro rfl
      simp [hpt] at hqc
    exact apart_of_pairwise horder hp hq hne
  · intro i x hx htout hcout
    have hi : i < t.length := (List.getElem?_eq_some_iff.mp hx).1
    rcases htiles.covers (Nat.zero_le i) hi with ⟨r, hr, hin⟩ | ⟨y, hy, hg⟩
    · obtain ⟨p, hp, rfl⟩ := List.mem_map.mp hr
      cases hpt : p.isToken with
      | true =>
        obtain ⟨e, he, hre⟩ := exists_of_mem_right htokens (List.mem_filter.mpr ⟨hp, hpt⟩)
        exact absurd hin (htout e he _ hre)
      | false =>
        obtain ⟨m, hm, hrm⟩ := exists_of_mem_right hcomments (List.mem_filter.mpr ⟨hp, by simp [hpt]⟩)
        exact absurd hin (hcout m hm _ hrm)
    · rw [Source.getElem?_ofText, hx] at hy
      exact Option.some.inj hy ▸ hg

end Parse

/-- The lists of tokens and comments of a program lose and invent nothing. -/
theorem parse_covers {t : Text} {o : Parse.Options} {p : Program} (ht : o.tokens = true)
    (hc : o.comments = true) (hr : o.range = true) (hj : o.jsx = false) (h : parse t o = .ok p) :
    ∃ tokens comments, p.tokens = some tokens ∧ p.comments = some comments ∧ Covers t tokens comments := by
  unfold parse at h
  dsimp only at h
  split at h
  · cases h
  · rename_i root s hs
    obtain rfl := Except.ok.inj h
    refine ⟨s.tokens.toList, s.remarks.toList, if_pos ht, if_pos hc, ?_⟩
    have hcov := Parse.program_covered ⟨hr, ht, hc⟩ hj (Parse.Covered.start _) hs
    rw [Source.length_ofText] at hcov
    exact hcov.covers

/-- Both slashes are scanned as operators before they are known to start regular expressions, one of them
after a look ahead, and a directive makes the code strict. -/
theorem parse_covers_regex :
    let t := Text.ofString "'use strict';/*a*/x = /=b/g // c\n let [y]=/d/"
    let o : Parse.Options := { tokens := true, comments := true, range := true }
    ∃ p tokens comments, parse t o = .ok p ∧ p.tokens = some tokens ∧ p.comments = some comments ∧
      tokens.length = 11 ∧ comments.length = 2 ∧ Covers t tokens comments := by
  intro t o
  have hlen : (parse t o).toOption.map (fun p => (p.tokens.map List.length, p.comments.map List.length)) =
      some (some 11, some 2) := by decide +kernel
  cases h : parse t o with
  | error e => rw [h] at hlen; cases hlen
  | ok p =>
    obtain ⟨tokens, comments, ht, hc, hcov⟩ := parse_covers rfl rfl rfl rfl h
    rw [h] at hlen
    simp only [Except.toOption, Option.map_some, ht, hc, Option.some.injEq, Prod.mk.injEq] at hlen
    exact ⟨p, tokens, comments, rfl, ht, hc, hlen.1, hlen.2, hcov⟩

end ScriptTree
