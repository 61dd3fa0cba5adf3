import ScriptTree.Proofs.Scan.Groups

/-! # Lists of tokens in spite of errors

Two lists of the tokens of a text are compared, of which only the second passes over errors. A regular expression is
tried where a slash may start one, and if it cannot be read, the slash is an operator. What is wrong with it besides
its body is an error that is passed over. So a list that is returned without passing over errors need not be the list
that is returned otherwise (`tokenize_lenient_iff`).

A list that passes over errors ends at the first token that is rejected. The comments right before that token are not
listed, so what is listed need not cover the text up to it (`tokenize_stops_covers_iff`). -/

namespace ScriptTree.Listing

open Scan

variable {o : Options} {st st' : Settings} {c d e u : Cursor} {past : History} {ms : List Comment} {es : List Entry}
  {ls : List Lexeme} {k : Token} {t : Text}

abbrev Options.lenient (o : Options) : Options := { o with tolerant := true }

abbrev Options.strict (o : Options) : Options := { o with tolerant := false }

/-- Only the second scan is tolerant. -/
structure Lenient (st st' : Settings) : Prop extends Alike st st' where
  comments : st'.comments = st.comments
  strict : st.tolerant = false
  lenient : st'.tolerant = true

theorem Lenient.returns {α : Type} {p : Scan α} [Steady p] {a : α} (h : Lenient st st') (hp : Returns p st c a d) :
    Returns p st' c a d ∧ d.errors = c.errors := by
  refine ⟨?_, Steady.quiet hp h.strict⟩
  rcases Steady.agree (p := p) (c := c) h.toAlike with he | hf
  · exact he.trans hp
  · exact absurd hp (hf.fails a d)

theorem Lenient.comments_returns (h : Lenient st st') (hms : Returns Scan.comments st c ms d) :
    Returns Scan.comments st' c ms d ∧ d.errors = c.errors := by
  obtain ⟨found, hb, rfl⟩ := returns_comments.mp hms
  obtain ⟨hb', he⟩ := h.returns hb
  rw [← h.source] at hb'
  exact ⟨returns_comments.mpr ⟨found, hb', by rw [h.comments]⟩, he⟩

/-! ## Regular expressions that are tried -/

/-- A regular expression is tried at the cursor. -/
def Tries (o : Options) (st : Settings) (d : Cursor) : Prop :=
  ∃ ls es c ms, Reaches o st ls es c ∧ Returns comments st c ms d ∧ st.source.at? d.index = some 0x2F ∧
    (History.ofList ls).opensRegex = .ok true

/-- A body between slashes stands at the cursor, but no valid regular expression. -/
def Spoiled (st : Settings) (d : Cursor) : Prop :=
  (∃ b e, Returns regexBody st d b e) ∧ ¬ ∃ k e, Returns regex st d k e

/-- A body that cannot be read is not passed over. -/
theorem Lenient.body (h : Lenient st st') (hc : c.errors = []) {b : Text} (hb : Returns regexBody st' c b d) :
    ∃ b d, Returns regexBody st c b d := by
  rcases Steady.agree (p := regexBody) (c := c) h.toAlike with he | hf
  · exact ⟨b, d, he.symm.trans hb⟩
  · have hs : Scan.Still st' regexBody := Made.still (t := false) (by simp)
    replace hs := hs c
    rw [hb] at hs
    exact absurd (hs.2.trans hc) (hf.complains b d hb)

theorem regex_body (hk : Returns regex st c k d) : ∃ b d, Returns regexBody st c b d := by
  obtain ⟨b, e, hb, -⟩ := (Returns.index hk).bind
  exact ⟨b, e, hb⟩

/-- What is wrong with a regular expression besides its body is passed over. -/
theorem Spoiled.passed (h : Lenient st st') (hs : Spoiled st c) : ∃ k d, Returns regex st' c k d ∧ d.errors ≠ [] := by
  obtain ⟨⟨b, e, hb⟩, hn⟩ := hs
  obtain ⟨k, d, hk⟩ : ∃ k d, Returns regex st' c k d := by
    have : Tolerates (fun _ => False) st' := ⟨fun hf => by simp [h.lenient] at hf⟩
    suffices hg : Gives (fun _ => False) st' c regex fun _ _ => True by
      obtain ⟨k, d, hk, -⟩ := hg.total
      exact ⟨k, d, hk⟩
    exact .index <| .first (h.returns hb).1 <| .ahead <| .bind (regexFlags_glides (.refl st' _)) fun hf =>
      .bind (checkRegex_glides hf) fun _ => .token trivial
  refine ⟨k, d, hk, ?_⟩
  rcases Steady.agree (p := regex) (c := c) h.toAlike with he | hf
  · exact absurd ⟨k, d, he.symm.trans hk⟩ hn
  · exact hf.complains k d hk

/-- A token is read by both scans, unless the first one undoes the attempt at a regular expression that the second one
only complains about. -/
theorem Lenient.token (h : Lenient st st') (hlt : c.index < st.source.length) (hc : c.errors = [])
    (hk : Returns (tokenAfter past) st c k d) : d.errors = [] ∧ (Returns (tokenAfter past) st' c k d ∨
      st.source.at? c.index = some 0x2F ∧ past.opensRegex = .ok true ∧ Spoiled st c) := by
  have hnext (hk : Returns next st c k d) : Returns next st' c k d ∧ d.errors = [] :=
    (h.returns hk).imp_right fun he => he.trans hc
  obtain ⟨x, hx⟩ := Source.exists_at? (Nat.le_of_lt hlt)
  have hx' : st'.source.at? c.index = some x := by rw [h.source, hx]
  by_cases hs : x = 0x2F
  · subst hs
    have hst := tokenAfter_slash past hx
    have hst' := tokenAfter_slash past hx'
    cases ho : past.opensRegex with
    | error x =>
      rw [ho] at hst
      cases hst.symm.trans hk
    | ok b =>
      rw [ho] at hst hst'
      cases b with
      | false =>
        obtain ⟨hn, he⟩ := hnext (hst.symm.trans hk)
        exact ⟨he, .inl (hst'.trans hn)⟩
      | true =>
        cases hr : regex st c with
        | ok k' d' =>
          cases (hst.trans (regexOrNext_ok hr)).symm.trans hk
          obtain ⟨hr', he⟩ := h.returns hr
          exact ⟨he.trans hc, .inl (hst'.trans (regexOrNext_ok hr'))⟩
        | error x e =>
          obtain ⟨hn, he⟩ := hnext ((hst.trans (regexOrNext_eq hr)).symm.trans hk)
          refine ⟨he, ?_⟩
          cases hr' : regex st' c with
          | ok k' d' =>
            obtain ⟨b, e, hb⟩ := regex_body hr'
            refine .inr ⟨hx, rfl, h.body hc hb, ?_⟩
            rintro ⟨k, e, hk⟩
            cases hr.symm.trans hk
          | error x e => exact .inl (hst'.trans ((regexOrNext_eq hr').trans hn))
  · obtain ⟨hn, he⟩ := hnext ((tokenAfter_other hx hs).symm.trans hk)
    exact ⟨he, .inl ((tokenAfter_other hx' hs).trans hn)⟩

/-! ## Lists with and without errors passed over -/

theorem lenient_settings (o : Options) (t : Text) : Lenient (o.strict.settings t) (o.lenient.settings t) :=
  ⟨⟨rfl, rfl, by simp [Options.settings]⟩, rfl, rfl, rfl⟩

/-- After a regular expression that is spoiled the second scan has a complaint on its list. -/
theorem Reaches.spoiled (h : Lenient st st') (hr : Reaches o.lenient st' ls es c) (hms : Returns comments st' c ms d)
    (hx : st.source.at? d.index = some 0x2F) (ho : (History.ofList ls).opensRegex = .ok true) (hs : Spoiled st d) :
    ∃ ls es c, Reaches o.lenient st' ls es c ∧ c.errors ≠ [] := by
  obtain ⟨k, e, hk, he⟩ := hs.passed h
  rw [← h.source] at hx
  have htoken : Returns (tokenAfter (.ofList ls)) st' d k e := by
    have hst := tokenAfter_slash (.ofList ls) hx
    rw [ho] at hst
    exact hst.trans (regexOrNext_ok hk)
  exact ⟨_, _, _, hr.token hms (Source.lt_length_of_at? hx (by decide)) htoken, he⟩

/-- Both lists have the same tokens until a regular expression is spoiled. -/
theorem Reaches.lenient (h : Lenient st st') (hr : Reaches o.strict st ls es c) : c.errors = [] ∧
    (Reaches o.lenient st' ls es c ∨
      (∃ d, Tries o.strict st d ∧ Spoiled st d) ∧ ∃ ls es c, Reaches o.lenient st' ls es c ∧ c.errors ≠ []) := by
  induction hr with
  | start => exact ⟨rfl, .inl (h.source ▸ .start)⟩
  | token hr hms hlt hk ih =>
    obtain ⟨hc, ih⟩ := ih
    obtain ⟨hms', he⟩ := h.comments_returns hms
    obtain ⟨he', htoken⟩ := h.token hlt (he.trans hc) hk
    refine ⟨he', ?_⟩
    rcases ih with ih | ih
    · rcases htoken with hk' | ⟨hx, ho, hs⟩
      · have hr' := ih.token hms' (by rwa [h.source]) hk'
        rw [h.source] at hr'
        exact .inl hr'
      · exact .inr ⟨⟨_, ⟨_, _, _, _, hr, hms, hx, ho⟩, hs⟩, ih.spoiled h hms' hx ho hs⟩
    · exact .inr ih

/-- A complaint on the list is still there at its end. -/
theorem Reaches.complained (hr : Reaches o (o.settings t) ls es c) (hc : c.errors ≠ []) {errors : List SyntaxError}
    {es' : List Entry} (h : tokenize t o = .ok (es', errors)) : errors ≠ [] := by
  obtain ⟨ls, es, e, hr, he, ⟨ms, d, hms, hend⟩ | ⟨x, d, hg⟩⟩ := hr.ends
  · cases (tokenize_end hr hms hend).symm.trans h
    obtain ⟨_, hb, -⟩ := returns_comments.mp hms
    exact Steady.grows hb (he hc)
  · rcases group_error hg with ⟨x, rfl⟩ | ⟨rfl, -⟩
    · rw [tokenize_rejected hr hg] at h
      split at h <;> cases h
      simp
    · cases (tokenize_error hr hg (by rintro ⟨x, ⟨⟩⟩)).symm.trans h

/-- A list that is returned without errors passed over is returned with errors passed over too, and without errors, if
and only if each regular expression that is tried and has an end is valid. -/
theorem tokenize_lenient_iff {t : Text} {o : Options} {es : List Entry} {errors : List SyntaxError}
    (h : tokenize t o.strict = .ok (es, errors)) :
    tokenize t o.lenient = .ok (es, []) ↔
      ∀ d, Tries o.strict (o.strict.settings t) d → ¬ Spoiled (o.strict.settings t) d := by
  have hst := lenient_settings o t
  constructor
  · rintro hl d ⟨ls, es', c, ms, hr, hms, hx, ho⟩ hs
    obtain ⟨hms', -⟩ := hst.comments_returns hms
    obtain ⟨ls, es, c, hr, hc⟩ : ∃ ls es c, Reaches o.lenient (o.lenient.settings t) ls es c ∧ c.errors ≠ [] := by
      rcases (hr.lenient hst).2 with hr' | ⟨-, hr'⟩
      · exact hr'.spoiled hst hms' hx ho hs
      · exact hr'
    exact hr.complained hc hl rfl
  · intro hn
    obtain ⟨ls, es', c, ms, d, hr, hms, hend, rfl, rfl⟩ := tokenize_reaches rfl h
    obtain ⟨hms', he⟩ := hst.comments_returns hms
    obtain ⟨hc, hr' | ⟨⟨d, hd, hs⟩, -⟩⟩ := hr.lenient hst
    · rw [tokenize_end hr' hms' hend, he, hc]
      rfl
    · exact absurd hs (hn d hd)

/-- A regular expression that is valid, after a name with a slash. -/
theorem tokenize_lenient_iff_valid :
    let t := Text.ofString "a/b;/c/"
    ∃ es, tokenize t {} = .ok (es, []) ∧ (tokenize t { tolerant := true } = .ok (es, []) ↔
      ∀ d, Tries {} (Options.settings {} t) d → ¬ Spoiled (Options.settings {} t) d) := by
  intro t
  have h : tokenize t {} = .ok (_, _) := rfl
  exact ⟨_, h, tokenize_lenient_iff (o := {}) h⟩

/-- In `/(/` there is a body but no valid regular expression. Three punctuators are listed, or a regular expression if
errors are passed over. -/
theorem tokenize_lenient_differs : ¬ ∀ t o es errors, tokenize t (Options.strict o) = .ok (es, errors) →
    tokenize t o.lenient = .ok (es, []) := by
  intro h
  have hl := congrArg (fun r => r.toOption.map fun l => l.2.length) (h (Text.ofString "/(/") {} _ _ rfl)
  exact absurd hl (by decide)

/-! ## What is listed before an error -/

/-- Every character before the offset is blank or in the range of an entry. -/
def Covers (t : Text) (es : List Entry) (p : Nat) : Prop :=
  ∀ i x, i < p → t[i]? = some x → Text.IsGap x ∨ ∃ e ∈ es, ∃ r ∈ e.range, r.start ≤ i ∧ i < r.stop

/-- The program is rejected while the token at the offset is read. Before it the entries are listed, and between them
and the token there are comments. -/
def Stops (o : Options) (t : Text) (es : List Entry) (ms : List Comment) (p : Nat) (x : SyntaxError) : Prop :=
  ∃ ls c d u, Reaches o (o.settings t) ls es c ∧ Returns comments (o.settings t) c ms d ∧ d.index = p ∧ p < t.length ∧
    tokenAfter (.ofList ls) (o.settings t) d = .error (.rejected x) u

theorem covers_of_tiles {rs : List Range} {p : Nat} (hrs : es.map Entry.range = rs.map some)
    (ht : Tiles (.ofText t) 0 rs p) : Covers t es p := by
  intro i x hi hx
  rcases ht.covers (Nat.zero_le i) hi with ⟨r, hr, hin⟩ | ⟨y, hy, hg⟩
  · obtain ⟨e, he, hre⟩ := exists_of_mem_right (g := id) hrs hr
    exact .inr ⟨e, he, r, hre, hin⟩
  · rw [Source.getElem?_ofText, hx] at hy
    exact .inl (Option.some.inj hy ▸ hg)

/-- If errors are passed over, the list that stops at an error is returned with it. The entries and the comments right
before the token that is rejected cover the text up to the token. So the entries alone do, if and only if there are no
such comments. -/
theorem tokenize_stops_covers_iff {o : Options} {t : Text} {es : List Entry} {ms : List Comment} {p : Nat}
    {x : SyntaxError} (ht : o.tolerant = true) (hc : o.comments = true) (hr : o.range = true) (h : Stops o t es ms p x) :
    (∃ errors, tokenize t o = .ok (es, errors ++ [x])) ∧ Covers t (es ++ ms.map (ofComment o (.ofText t))) p ∧
      (Covers t es p ↔ ms = []) := by
  obtain ⟨ls, c, d, u, hreach, hms, rfl, hlt, hk⟩ := h
  obtain ⟨rs, hrs, hts⟩ := hreach.tiles hr hc
  obtain ⟨hms', hts'⟩ := tiles_comments hr hc hms
  have hall : Covers t (es ++ ms.map (ofComment o (.ofText t))) d.index := by
    refine covers_of_tiles ?_ (hts.append hts')
    rw [List.map_append, List.map_append, hrs, ← hms']
    rfl
  have hlt' : d.index < (o.settings t).source.length := by rwa [Options.settings, Source.length_ofText]
  refine ⟨⟨u.errors, ?_⟩, hall, fun hcov => ?_, fun hnil => by simpa [hnil] using hall⟩
  · have hg := (group_eq (o := o) hms hlt').trans (bind_error _ hk)
    rw [tokenize_rejected hreach hg, if_pos ht]
  · -- the first of the comments starts with a character that no entry covers
    cases ms with
    | nil => rfl
    | cons m ms =>
      obtain ⟨hle, hlt₁, hle'⟩ := hts'.bounds m.range (by simp)
      obtain ⟨y, hy, hgap, -⟩ := (comments_collected hc hms).starts m (by simp)
      have hy' : t[m.range.start]? = some y := by
        rw [← Source.getElem?_ofText]
        exact Source.getElem?_of_at? hy (show _ < (o.settings t).source.length by omega)
      rcases hcov _ y (by omega) hy' with hg | ⟨e, he, r, hre, hstart, hstop⟩
      · exact absurd hg hgap
      · obtain ⟨r', hr', heq⟩ := exists_of_mem_left (g := id) hrs he
        obtain rfl : r' = r := Option.some.inj (heq.symm.trans hre)
        have := hts.bounds r' hr'
        omega

/-- A character that starts no token, after a name and a comment before it. -/
theorem tokenize_stops_covers_iff_name :
    let o : Options := { tolerant := true, comments := true, range := true }
    let t := Text.ofString "/*a*/b #"
    ∃ es x, Stops o t es [] 7 x ∧ (∃ errors, tokenize t o = .ok (es, errors ++ [x])) ∧ Covers t es 7 := by
  intro o t
  have h : ∃ es x, Stops o t es [] 7 x :=
    ⟨_, _, _, _, _, _, .token .start rfl (by decide) rfl, rfl, rfl, by decide, rfl⟩
  obtain ⟨es, x, h⟩ := h
  obtain ⟨hl, -, hcov⟩ := tokenize_stops_covers_iff rfl rfl rfl h
  exact ⟨es, x, h, hl, hcov.mpr rfl⟩

/-- The comment before a character that starts no token is not listed. -/
theorem tokenize_stops_uncovered : ¬ ∀ o t es ms p x, o.tolerant = true → o.comments = true → o.range = true →
    Stops o t es ms p x → Covers t es p := by
  intro h
  have hstop : ∃ ms x, Stops { tolerant := true, comments := true, range := true } (Text.ofString "/*a*/#") [] ms 5 x :=
    ⟨_, _, _, _, _, _, .start, rfl, rfl, by decide, rfl⟩
  obtain ⟨ms, x, hstop⟩ := hstop
  rcases h _ _ _ _ _ _ rfl rfl rfl hstop 0 0x2F (by decide) rfl with hg | ⟨e, he, -⟩
  · exact absurd hg (by decide)
  · cases he

end ScriptTree.Listing
