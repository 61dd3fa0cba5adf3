import ScriptTree.Proofs.Scan.Blind
import ScriptTree.Proofs.Scan.Listing

/-! # Streams of tokens

In a source in which no substitution opens, the tokens after a place depend on nothing but the place: not
on the brackets that are open there, nor on whether comments are collected. So any scan that takes tokens
one after the other finds the same ones (`Stream`), and in a source without slashes the list of all tokens
is the stream from its start to its end (`reaches_stream`). -/

namespace ScriptTree

variable {st : Settings} {k : Token} {p q : Place}

namespace Scan

variable {st' : Settings} {c d e : Cursor} {ms : List Comment} {r : Place}

/-- Settings for scans of one source that pass over nothing. -/
structure Twin (st st' : Settings) : Prop where
  source : st'.source = st.source
  isModule : st'.isModule = st.isModule
  strict : st.tolerant = false
  strict' : st'.tolerant = false

theorem Twin.agree {α : Type} {f : Scan α} [Steady f] (h : Twin st st') : f st' c = f st c := by
  refine (Steady.agree ⟨h.source, h.isModule, fun ht => ?_⟩).resolve_right fun hg => ?_
  · exact absurd (h.strict.symm.trans ht) (by decide)
  · exact absurd (h.strict'.symm.trans hg.tolerant) (by decide)

/-- The same is skipped whatever brackets are open. -/
theorem comments_twin (hst : Twin st st') (os : List Opener) (h : Returns comments st c ms d) :
    ∃ ms', Returns comments st' { c with openers := os } ms' { d with openers := os } := by
  obtain ⟨found, h₁, -⟩ := returns_comments.mp h
  replace h₁ : Returns _ st' c found d := hst.agree.trans h₁
  obtain ⟨os', h₂⟩ := Blind.blind os h₁
  have hs : os' = os := (blanks_skips h₂).1.openers
  rw [hs, ← hst.source] at h₂
  exact ⟨_, returns_comments.mpr ⟨found, h₂, rfl⟩⟩

/-- From one place to another there are blanks, comments and a token, whatever brackets are open. -/
def Lexes (st : Settings) (p : Place) (k : Token) (q : Place) : Prop :=
  ∀ os, .substitution ∉ os → ∃ ms e os', Returns comments st ⟨p, os, []⟩ ms e ∧
    e.index < st.source.length ∧ Returns next st e k ⟨q, os', []⟩ ∧ .substitution ∉ os'

/-- After a place there are blanks and comments only. -/
def Exhausts (st : Settings) (p : Place) : Prop :=
  ∀ os, ∃ ms e, Returns comments st ⟨p, os, []⟩ ms e ∧ st.source.length ≤ e.index ∧ e.errors = []

/-- A cursor without complaints, and without open substitutions. -/
structure Clean (c : Cursor) : Prop where
  quiet : c.errors = []
  closed : .substitution ∉ c.openers

theorem Clean.comments (hc : Clean c) (hs : st.tolerant = false) (h : Returns comments st c ms d) :
    Clean d := by
  obtain ⟨found, h₁, -⟩ := returns_comments.mp h
  refine ⟨by rw [Steady.quiet h₁ hs, hc.quiet], ?_⟩
  rw [(blanks_skips h₁).1.openers]
  exact hc.closed

theorem Clean.next (hc : Clean c) (hs : st.tolerant = false)
    (hsub : ¬ st.source.Has (Text.ofString "$\x7b")) (h : Returns next st c k d) : Clean d :=
  ⟨(Steady.quiet h hs).trans hc.quiet,
    fun hm => hsub (next_opened h (fun hm => absurd hm hc.closed) hm)⟩

/-- What one scan takes any other takes. -/
theorem Lexes.of_returns (hst : Twin st st') (hsub : ¬ st.source.Has (Text.ofString "$\x7b"))
    (hc : Clean c) (h₁ : Returns comments st c ms e) (hlt : e.index < st.source.length)
    (h₂ : Returns Scan.next st e k d) : Lexes st' c.toPlace k d.toPlace := by
  intro os ho
  obtain ⟨ms', h₁'⟩ := comments_twin hst os h₁
  have he := hc.comments hst.strict h₁
  have hd := he.next hst.strict hsub h₂
  obtain ⟨os', h₂'⟩ := next_blind he.closed ho (hst.agree.trans h₂ : Returns Scan.next st' e k d)
  have hcursor : ({ c with openers := os } : Cursor) = ⟨c.toPlace, os, []⟩ := by rw [← hc.quiet]
  have hcursor' : ({ d with openers := os' } : Cursor) = ⟨d.toPlace, os', []⟩ := by rw [← hd.quiet]
  rw [hcursor] at h₁'
  rw [hcursor'] at h₂'
  have hclean : Clean { e with openers := os } := ⟨he.quiet, ho⟩
  refine ⟨ms', _, os', h₁', by rw [hst.source]; exact hlt, h₂', ?_⟩
  exact (hclean.next hst.strict' (by rw [hst.source]; exact hsub) h₂').closed

theorem Exhausts.of_returns (hst : Twin st st') (hc : Clean c) (h : Returns Scan.comments st c ms e)
    (hend : st.source.length ≤ e.index) : Exhausts st' c.toPlace := by
  intro os
  obtain ⟨ms', h'⟩ := comments_twin hst os h
  have hcursor : ({ c with openers := os } : Cursor) = ⟨c.toPlace, os, []⟩ := by rw [← hc.quiet]
  rw [hcursor] at h'
  exact ⟨ms', _, h', by rw [hst.source]; exact hend, (hc.comments hst.strict h).quiet⟩

/-- The tokens between two places. -/
inductive Stream (st : Settings) (p : Place) : List Token → Place → Prop
  | done : Stream st p [] p
  | snoc {ks : List Token} {k : Token} {q r : Place} :
      Stream st p ks q → Lexes st q k r → Stream st p (ks ++ [k]) r

end Scan

namespace Listing

open Scan

variable {o : Options} {h : History}

/-- The entry of a token without its location. -/
def bare (o : Options) (src : Source) (k : Token) : Entry := ofToken o src k default default

theorem ofToken_eq_bare {src : Source} (hl : o.location = false) (first last : Position) :
    ofToken o src k first last = bare o src k := by
  simp [bare, ofToken, hl]

/-- The tokens of the stream are read one after the other. -/
theorem reaches_stream (hl : o.location = false) (hc : st.comments = false) (hs : ∀ i, st.source.at? i ≠ some 0x2F)
    {ks : List Token} (hks : Stream st (start st.source).toPlace ks q) : ∃ os, .substitution ∉ os ∧
      Reaches o st (ks.map Token.lexeme) (ks.map (bare o st.source)) ⟨q, os, []⟩ := by
  induction hks with
  | done => exact ⟨[], nofun, .start⟩
  | @snoc ks k q r _ hk ih =>
    obtain ⟨os, ho, hr⟩ := ih
    obtain ⟨ms, e, os', hms, hlt, hk, ho'⟩ := hk os ho
    obtain ⟨found, -, -, hfound⟩ := comments_skip hms
    obtain rfl : ms = [] := by rw [hfound, hc]; rfl
    obtain ⟨x, hx⟩ := Source.exists_at? (Nat.le_of_lt hlt)
    have hne : x ≠ 0x2F := fun h => hs _ (h ▸ hx)
    refine ⟨os', ho', ?_⟩
    have hr' := hr.token hms hlt ((tokenAfter_other hx hne).trans hk)
    simpa [entries, ofToken_eq_bare hl] using hr'

/-- In a source without slashes all tokens up to the end of the stream are listed. -/
theorem tokenize_stream {t : Text} (hl : o.location = false) (hc : o.comments = false)
    (hs : ∀ i, (Source.ofText t).at? i ≠ some 0x2F) {ks : List Token} (hst : st = o.settings t)
    (hks : Stream st (start (.ofText t)).toPlace ks q) (hq : Exhausts st q) :
    tokenize t o = .ok (ks.map (bare o (.ofText t)), []) := by
  subst hst
  obtain ⟨os, -, hr⟩ := reaches_stream hl hc hs hks
  obtain ⟨ms, e, hms, hend, he⟩ := hq os
  obtain ⟨found, -, -, hfound⟩ := comments_skip hms
  obtain rfl : ms = [] := by rw [hfound]; simp [Options.settings, hc]
  rw [tokenize_end hr hms hend, he]
  simp [Options.settings]

end Listing

end ScriptTree
