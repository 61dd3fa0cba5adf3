import ScriptTree.Proofs.Parse.Coverage
import ScriptTree.Proofs.Parse.Marks

/-! # Line ends before the token ahead

Semicolons that are left out, and what may not stand on a new line, hang on one flag, which is set when a token
is taken. It compares the lines on which two tokens end, and so it is about more than what stands between them:
a token ahead that spans lines itself sets it too (`next_afterNewLine_iff`). -/

namespace ScriptTree

/-- There is a line end in a part of a source. -/
def Source.BreaksLine (src : Source) (i j : Nat) : Prop :=
  ∃ k x, i ≤ k ∧ k < j ∧ src.chars[k]? = some x ∧ Text.isLineTerminator x = true

/-- A place gets to another line by passing a line end, and only so. -/
theorem Scan.Walk.line_ne_iff {src : Source} {p q : Place} (h : Walk src p q) :
    p.line ≠ q.line ↔ src.BreaksLine p.index q.index := by
  induction h with
  | here => exact ⟨fun h => absurd rfl h, fun ⟨k, _, hk, hk', _⟩ => absurd hk' (Nat.not_lt_of_le hk)⟩
  | @char q x _ hx hn ih =>
    refine ih.trans ⟨fun ⟨k, y, hk, hk', hy⟩ => ⟨k, y, hk, Nat.lt_succ_of_lt hk', hy⟩, ?_⟩
    rintro ⟨k, y, hk, hk', hy, ht⟩
    refine ⟨k, y, hk, Nat.lt_of_le_of_ne (Nat.le_of_lt_succ hk') fun he => ?_, hy, ht⟩
    obtain rfl : x = y := by simpa [he, hx] using hy
    simp [hn] at ht
  | @line q x hw hx ht =>
    have hl := hw.line_le
    exact ⟨fun _ => ⟨q.index, x, hw.index_le, src.lt_lineEnd q.index, hx, ht⟩,
      fun _ => Nat.ne_of_lt (Nat.lt_succ_of_le hl)⟩

namespace Parse

variable {c : Scan.Cursor} {ms : List Comment}

/-- The states in which a parse without markup takes a token: its first one, then all that the steps of the rules
lead to, and those in which a slash has just been scanned again as a regular expression. -/
inductive Visits (env : Env) : State → Prop
  | start : Visits env (.start env.source)
  | steps {t : Token} {u s : State} : Returns next env (.start env.source) t u →
      Run env false (.begun env u) s → Visits env s
  | regex {ms : List Comment} {c : Scan.Cursor} {t : Token} {s u : State} :
      Visits env s → Rescans env s ms c t u → Visits env u

variable {env : Env} {s s' : State} {t : Token}

/-- The token ahead ends where the scan is. -/
structure Abreast (s : State) : Prop where
  line : s.lookahead.line = s.cursor.line
  stop : s.lookahead.stop = s.cursor.index

theorem Moves.abreast {k : Token} (h : Moves env s ms c k s') :
    Abreast s' ∧ s'.lookahead.start = c.index ∧ Scan.Walk env.source c.toPlace s'.cursor.toPlace := by
  obtain ⟨hwalk, hstart, hstop, hline⟩ := Scan.next_spans h.scanned
  have hl := h.lookahead
  exact ⟨⟨by rw [hl]; exact hline.1, by rw [hl]; exact hstop⟩, by rw [hl]; exact hstart, hwalk⟩

theorem Rescans.abreast (h : Rescans env s ms c t s') : Abreast s' := by
  obtain ⟨-, hk⟩ := Scan.regex_takes h.scanned
  exact ⟨by rw [h.lookahead]; exact hk.line.1, by rw [h.lookahead]; exact hk.stop⟩

theorem Step.abreast {b : Bool} (h : Step env b s s') (hs : Abreast s) : Abreast s' := by
  cases h with
  | next h => exact h.abreast.1
  | regex _ _ h => exact h.abreast.1
  | peek h =>
    rw [peekNext_returns h]
    exact ⟨hs.line, hs.stop⟩
  | context | complain | extend | finish => exact ⟨hs.line, hs.stop⟩

theorem Visits.abreast (h : Visits env s) : Abreast s := by
  cases h with
  | start => exact ⟨rfl, by simp [State.start, Scan.start]⟩
  | steps h hr =>
    obtain ⟨-, ms, c, k, hm⟩ := next_moves h
    exact hr.preserves Step.abreast ⟨hm.abreast.1.line, hm.abreast.1.stop⟩
  | regex _ hr => exact hr.abreast

/-- The lines are those on which the token that is taken and the one ahead end. -/
theorem next_afterNewLine (h : Returns next env s t s') :
    s'.afterNewLine = (s.lookahead.line != s'.lookahead.line) := by
  obtain ⟨_, u, h₁, h⟩ := ((Returns.first h rfl).first rfl).modify.bind
  replace h := (h.first rfl).modify
  obtain ⟨k, v, h₂, h⟩ := h.bind
  replace h := (h.first rfl).modify
  rcases h.ite with ⟨-, h⟩ | ⟨-, h⟩
  · obtain ⟨-, rfl⟩ := h.ended
    rfl
  · obtain ⟨_, w, h₃, h⟩ := h.bind
    obtain ⟨-, rfl⟩ := h.ended
    rw [listToken_returns h₃]

/-- When a token has been taken, the flag is set if and only if there is a line end between its end and the start
of the token ahead, or within the token ahead. -/
theorem next_afterNewLine_iff (hs : Visits env s) (h : Returns next env s t s') :
    s'.afterNewLine = true ↔ env.source.BreaksLine t.stop s'.lookahead.start ∨
      env.source.BreaksLine s'.lookahead.start s'.lookahead.stop := by
  obtain ⟨rfl, ms, c, k, hm⟩ := next_moves h
  obtain ⟨found, hskip, -, -⟩ := Scan.comments_skip hm.skipped
  have hgap : Scan.Walk env.source s.cursor.toPlace c.toPlace := hskip.walk
  obtain ⟨hs', hstart, hk⟩ := hm.abreast
  rw [next_afterNewLine h, bne_iff_ne, hs.abreast.line, hs.abreast.stop, hs'.line, hs'.stop, hstart,
    ← hgap.line_ne_iff, ← hk.line_ne_iff]
  have := hgap.line_le
  have := hk.line_le
  omega

/-- A line end in a comment counts. -/
theorem next_afterNewLine_iff_comment :
    let env : Env := ⟨.ofText (Text.ofString "a /*\n*/ b"), {}⟩
    ∃ s t s', Visits env s ∧ Returns next env s t s' ∧ s'.afterNewLine = true ∧
      (env.source.BreaksLine t.stop s'.lookahead.start ∨
        env.source.BreaksLine s'.lookahead.start s'.lookahead.stop) := by
  intro env
  obtain ⟨t, u, h, hu⟩ := exists_returns (p := next) (r := env) (s := .start env.source)
    (q := fun _ u => passes next env (.begun env u) fun _ s' => s'.afterNewLine) (by decide +kernel)
  obtain ⟨t', s', h', hs'⟩ := exists_returns hu
  have hv := Visits.steps h .stay
  exact ⟨_, t', s', hv, h', hs', (next_afterNewLine_iff hv h').mp hs'⟩

/-- One blank stands between the two tokens, but the template that is ahead then ends on the next line. The
program is rejected as if what is thrown stood there. -/
theorem afterNewLine_of_template :
    let t := Text.ofString "throw `\n`;"
    let env : Env := ⟨.ofText t, {}⟩
    (∃ s k s', Visits env s ∧ Returns next env s k s' ∧ s'.afterNewLine = true ∧
      ¬ env.source.BreaksLine k.stop s'.lookahead.start) ∧
    failure? (parse t) = some (.rejected ⟨5, 1, 6, Text.ofString "Illegal newline after throw"⟩) := by
  intro t env
  constructor
  · obtain ⟨k, u, h, hu⟩ := exists_returns (p := next) (r := env) (s := .start env.source)
      (q := fun _ u => passes next env (.begun env u) fun k s' =>
        s'.afterNewLine && k.stop == 5 && s'.lookahead.start == 6) (by decide +kernel)
    obtain ⟨k', s', h', hs'⟩ := exists_returns hu
    simp only [Bool.and_eq_true, beq_iff_eq] at hs'
    refine ⟨_, k', s', .steps h .stay, h', hs'.1.1, ?_⟩
    rw [hs'.1.2, hs'.2]
    rintro ⟨i, x, hi, hi', hx, hend⟩
    obtain rfl : i = 5 := by omega
    obtain rfl : 0x20 = x := Option.some.inj hx
    exact absurd hend (by decide)
  · decide +kernel

end Parse

end ScriptTree
