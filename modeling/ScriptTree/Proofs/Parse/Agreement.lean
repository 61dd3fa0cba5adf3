import Mathlib.Data.List.Forall2
import ScriptTree.Proofs.Parse.Coverage
import ScriptTree.Proofs.Scan.Stream

/-! # Parses and lists of tokens agree

A parse takes its tokens one ahead of the grammar, looks at some of them twice and takes a slash back, where
a list of tokens just goes on. In a script without slashes and substitutions both find the same tokens
(`parse_tokens_agree`): the tokens that a parse has listed are the stream up to the cursor (`InStep`). -/

namespace ScriptTree

/-- The scan of a range reads a name that is reserved in strict code. -/
def Source.ReservesAt (src : Source) (r : Range) : Prop :=
  ∃ (st : Scan.Settings) (c d : Scan.Cursor) (k : Token) (w : Text), st.source = src ∧
    c.index = r.start ∧ d.index = r.stop ∧ Returns Scan.next st c k d ∧ k.lexeme = .identifier w ∧
    Words.isStrict w = true

namespace Parse

variable {env : Env} {s s' : State} {ms : List Comment} {c : Scan.Cursor} {k : Token} {e : Entry}

/-- The entry is that of a token, but for a name that is reserved in strict code. -/
structure Shows (src : Source) (e : Entry) (k : Token) : Prop where
  value : e.value = src.slice k.start k.stop
  range : e.range = some ⟨k.start, k.stop⟩
  kind : e.kind = k.lexeme.kindName ∨
    e.kind = "Keyword" ∧ k.lexeme.kindName = "Identifier" ∧ src.ReservesAt ⟨k.start, k.stop⟩

/-- Only names that are reserved in strict code become keywords. -/
theorem reserve_kindName (strict : Bool) (l : Lexeme) :
    (reserve strict l).kindName = l.kindName ∨ ∃ w, l = .identifier w ∧ Words.isStrict w = true ∧
      (reserve strict l).kindName = "Keyword" := by
  unfold reserve
  split
  · rename_i w
    split
    · rename_i word hw
      refine .inr ⟨w, rfl, ?_, rfl⟩
      exact List.any_eq_true.mpr ⟨word, List.mem_of_find?_eq_some hw, List.find?_some hw⟩
    · exact .inl rfl
  · exact .inl rfl

def listSettings (env : Env) : Scan.Settings := { source := env.source }

/-- The tokens listed so far are those of the stream up to a place. -/
def Streams (env : Env) (s : State) (q : Scan.Place) : Prop :=
  ∃ ks, Scan.Stream (listSettings env) (Scan.start env.source).toPlace ks q ∧
    List.Forall₂ (Shows env.source) s.tokens.toList ks

/-- A script without slashes and substitutions is parsed for its tokens. -/
structure Slashless (env : Env) : Prop where
  tokens : env.options.tokens = true
  range : env.options.range = true
  strict : env.options.tolerant = false
  script : env.options.isModule = false
  slash : ∀ i, env.source.at? i ≠ some 0x2F
  substitution : ¬ env.source.Has (Text.ofString "$\x7b")

/-- All tokens up to the cursor are listed, or all there are. -/
structure InStep (env : Env) (s : State) : Prop where
  script : s.context.isModule = false
  clean : Scan.Clean s.cursor
  slash : ¬ (s.lookahead.lexeme = .punctuator "/" ∨ s.lookahead.lexeme = .punctuator "/=")
  listed : s.lookahead.lexeme ≠ .endOfInput ∧ Streams env s s.cursor.toPlace ∨
    s.lookahead.lexeme = .endOfInput ∧ env.source.length ≤ s.cursor.index ∧
      ∃ q, Streams env s q ∧ Scan.Exhausts (listSettings env) q

/-! ## Steps -/

theorem Slashless.twin (ho : Slashless env) (hs : s.context.isModule = false) :
    Scan.Twin (settings env s) (listSettings env) :=
  ⟨rfl, hs.symm, ho.strict, rfl⟩

theorem Moves.clean (ho : Slashless env) (h : Moves env s ms c k s') (hs : Scan.Clean s.cursor) :
    Scan.Clean s'.cursor :=
  (hs.comments ho.strict h.skipped).next ho.strict ho.substitution h.scanned

/-- When the end comes into sight nothing is listed. -/
theorem Moves.inStep_end (ho : Slashless env) (h : Moves env s ms c k s')
    (hm : s.context.isModule = false) (hs : Scan.Clean s.cursor) (hend : env.source.length ≤ c.index)
    {q : Scan.Place} (hq : Streams env s q) (hx : Scan.Exhausts (listSettings env) q) : InStep env s' := by
  rcases h.sights with ⟨hl, -, hc, htokens⟩ | ⟨-, hlt, -⟩
  · refine ⟨by rw [h.context, hm], h.clean ho hs, by simp [hl], .inr ⟨hl, by rw [hc]; exact hend, q, ?_, hx⟩⟩
    unfold Streams
    rwa [htokens]
  · exact absurd hlt (Nat.not_lt.mpr hend)

/-- The token that comes into sight is listed next. -/
theorem Moves.inStep (ho : Slashless env) (h : Moves env s ms c k s') (hm : s.context.isModule = false)
    (hs : Scan.Clean s.cursor) (hq : Streams env s s.cursor.toPlace) : InStep env s' := by
  rcases h.sights with ⟨-, hend, -⟩ | ⟨hl, hlt, hk, htokens⟩
  · exact h.inStep_end ho hm hs hend hq (.of_returns (ho.twin hm) hs h.skipped hend)
  · have hslash : ¬ s'.lookahead.lexeme.IsSlash := by
      intro hsl
      have hx := (h.slash hsl).1
      exact ho.slash _ ((Source.at?_of_lt (Source.lt_length_of_getElem? hx)).trans hx)
    refine ⟨by rw [h.context, hm], h.clean ho hs, hslash, .inl ⟨hl, ?_⟩⟩
    obtain ⟨ks, hks, hts⟩ := hq
    refine ⟨ks ++ [k], hks.snoc (.of_returns (ho.twin hm) ho.substitution hs h.skipped hlt h.scanned), ?_⟩
    rw [htokens ho.tokens]
    refine List.rel_append hts (.cons ?_ .nil)
    refine ⟨by simp [entryAt, h.lookahead], by simp [entryAt, h.lookahead, ho.range], ?_⟩
    rcases reserve_kindName s.context.strict k.lexeme with hkind | ⟨w, hw, hstrict, hkind⟩
    · exact .inl (by rw [← hkind]; simp [entryAt, h.lookahead])
    · refine .inr ⟨by rw [← hkind]; simp [entryAt, h.lookahead], by rw [hw]; rfl, ?_⟩
      exact ⟨_, c, s'.cursor, k, w, rfl, hk.start.symm, hk.stop.symm, h.scanned, hw, hstrict⟩

theorem peekNext_clean (ho : Slashless env) (hs : Scan.Clean s.cursor) {t : Token}
    (h : Returns peekNext env s t s') : Scan.Clean s'.cursor := by
  obtain ⟨d, hd, rfl⟩ := returns_scan.mp h
  obtain ⟨ms, c, h₁, h⟩ := (Returns.first hd rfl).bind
  obtain ⟨t', e, h₂, h⟩ := h.bind
  obtain ⟨rfl, rfl⟩ := returns_pure.mp (h.first rfl)
  have he := (hs.comments ho.strict h₁).next ho.strict ho.substitution h₂
  exact ⟨he.quiet, he.closed⟩

theorem Step.inStep {b : Bool} (ho : Slashless env) (h : Step env b s s') (hs : InStep env s) : InStep env s' := by
  cases h with
  | context f hf => exact ⟨hf.trans hs.script, hs.clean, hs.slash, hs.listed⟩
  | complain e ht => exact absurd (ho.strict.symm.trans ht) (by decide)
  | next h =>
    rcases hs.listed with ⟨-, hq⟩ | ⟨-, hend, q, hq, hx⟩
    · exact h.inStep ho hs.script hs.clean hq
    · obtain ⟨found, hskip, -⟩ := Scan.comments_skip h.skipped
      exact h.inStep_end ho hs.script hs.clean (Nat.le_trans hend hskip.index_le) hq hx
  | regex hl => exact absurd hl hs.slash
  | peek h =>
    have hclean := peekNext_clean ho hs.clean h
    rw [peekNext_returns h] at hclean ⊢
    exact ⟨hs.script, hclean, hs.slash, hs.listed⟩
  | extend | finish => exact ⟨hs.script, hs.clean, hs.slash, hs.listed⟩

/-! ## Whole programs -/

/-- A whole program lists the stream of its tokens. -/
theorem program_streams {g : Grammar} [Regular g] {n : Node} (ho : Slashless env)
    (hj : env.options.jsx = false) (h : Returns (program g) env (.start env.source) n s') :
    ∃ q, Streams env s' q ∧ Scan.Exhausts (listSettings env) q := by
  obtain ⟨t, u, h₁, hr, he⟩ := program_run hj h
  obtain ⟨-, ms, c, k, hm⟩ := next_moves h₁
  have hu := hm.inStep ho rfl ⟨rfl, List.not_mem_nil⟩ ⟨[], .done, .nil⟩
  have hu' : InStep env (State.begun env u) := by
    refine ⟨?_, hu.clean, hu.slash, hu.listed⟩
    rw [State.begun, if_neg (by simp [ho.script])]
    exact hu.script
  rcases ((hr false (by simp)).preserves (fun h => h.inStep ho) hu').listed with ⟨hn, -⟩ | ⟨-, -, hq⟩
  · exact absurd he hn
  · exact hq

end Parse

/-- Two entries are those of one token, which is a keyword to the one and a name to the other only if it is
reserved in strict code. -/
structure Entry.Agrees (t : Text) (e e' : Entry) : Prop where
  value : e'.value = e.value
  range : e'.range = e.range
  kind : e'.kind = e.kind ∨ e.kind = "Keyword" ∧ e'.kind = "Identifier" ∧
    ∃ r, e.range = some r ∧ (Source.ofText t).ReservesAt r

theorem Parse.Shows.agrees {t : Text} {e : Entry} {k : Token} (h : Parse.Shows (.ofText t) e k) :
    e.Agrees t (Listing.bare { range := true } (.ofText t) k) :=
  ⟨h.value.symm, h.range.symm, h.kind.imp Eq.symm fun ⟨he, hk, hr⟩ => ⟨he, hk, _, h.range, hr⟩⟩

/-- The tokens of a script without slashes and substitutions are those of the list of its tokens. -/
theorem parse_tokens_agree {t : Text} {o : Parse.Options} {p : Program} (hm : o.isModule = false)
    (ht : o.tokens = true) (hr : o.range = true) (hj : o.jsx = false) (hs : o.tolerant = false)
    (hslash : 0x2F ∉ t) (hsub : ¬ Text.ofString "$\x7b" <:+: t) (h : parse t o = .ok p) :
    ∃ tokens entries, p.tokens = some tokens ∧ tokenize t { range := true } = .ok (entries, []) ∧
      List.Forall₂ (Entry.Agrees t) tokens entries := by
  unfold parse at h
  dsimp only at h
  split at h
  · cases h
  · rename_i root s hrun
    obtain rfl := Except.ok.inj h
    have hnone i : (Source.ofText t).at? i ≠ some 0x2F := by
      intro hi
      have hget := Source.getElem?_of_at?_ne hi (by decide)
      rw [Source.getElem?_ofText] at hget
      exact hslash (List.mem_of_getElem? hget)
    have ho : Parse.Slashless ⟨.ofText t, o⟩ :=
      ⟨ht, hr, hs, hm, hnone, by simpa [Source.Has, Source.ofText] using hsub⟩
    obtain ⟨q, ⟨ks, hks, hshows⟩, hq⟩ := Parse.program_streams ho hj hrun
    refine ⟨_, _, if_pos ht, Listing.tokenize_stream rfl rfl hnone rfl hks hq, ?_⟩
    rw [List.forall₂_map_right_iff]
    exact hshows.imp fun _ _ h => h.agrees

/-- A word that is reserved in strict code follows a directive. -/
theorem parse_tokens_agree_strict :
    let t := Text.ofString "'use strict'; a(`b`).static <!-- c"
    let o : Parse.Options := { tokens := true, range := true }
    ∃ p tokens entries, parse t o = .ok p ∧ p.tokens = some tokens ∧ tokens.length = 8 ∧
      tokenize t { range := true } = .ok (entries, []) ∧ List.Forall₂ (Entry.Agrees t) tokens entries := by
  intro t o
  have hlen : (parse t o).toOption.map (fun p => p.tokens.map List.length) = some (some 8) := by
    decide +kernel
  cases h : parse t o with
  | error e => rw [h] at hlen; cases hlen
  | ok p =>
    obtain ⟨tokens, entries, htokens, hentries, hagree⟩ :=
      parse_tokens_agree rfl rfl rfl rfl rfl (by decide +kernel) (by decide +kernel) h
    rw [h] at hlen
    simp only [Except.toOption, Option.map_some, htokens, Option.some.injEq] at hlen
    exact ⟨p, tokens, entries, rfl, htokens, hlen, hentries, hagree⟩

/-- A template that starts inside of another one leaves its substitution open, and the brace that a look
ahead has found after `let` hides that from the parse, but not from the list. -/
theorem tokenize_fails_after_parse :
    let t := Text.ofString "\x7b `$\x7ba++`b`; let \x7bc\x7d = d \x7d"
    (parse t { tokens := true, range := true }).toOption.map (fun p => p.tokens.map List.length) =
        some (some 13) ∧
      (tokenize t { range := true }).isOk = false := by
  decide +kernel

end ScriptTree
