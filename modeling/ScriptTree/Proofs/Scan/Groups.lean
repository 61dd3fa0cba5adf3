import ScriptTree.Proofs.Scan.Comments
import ScriptTree.Proofs.Scan.Regexes
import ScriptTree.Proofs.Scan.Slashes
import ScriptTree.Proofs.Scan.Steady
import ScriptTree.Proofs.Scan.Tokens

/-! # The groups of a list of tokens

A list of tokens is made of groups, each of which is a token with the comments before it. What a slash starts is told
by the tokens so far (`tokenAfter`). So the list is known from a walk through the source, token after token
(`Reaches`), that goes on until the end of the source or a group that fails (`Reaches.ends`). Main result: when the
list is returned or the program is rejected, and what else it fails for (`tokenize_returns_or_rejects_iff`). -/

namespace ScriptTree.Listing

variable {x : Failure} {α : Type}

open Scan

variable {o : Options} {st : Settings} {c d e u : Cursor} {past : History} {ms : List Comment} {es : List Entry}
  {ls : List Lexeme} {n : Nat} {k : Token}

/-- What is found is not caught. -/
theorem tryCatch_ok {f : Failure → Scan α} {p : Scan α} {a : α} (h : Returns p st c a d) :
    Returns (tryCatch p f) st c a d := by
  change EStateM.tryCatch (p st) (fun e => f e st) c = _
  unfold EStateM.tryCatch
  rw [h]

theorem tryCatch_error {f : Failure → Scan α} {p : Scan α} (h : p st c = .error x d) :
    tryCatch p f st c = f x st d := by
  change EStateM.tryCatch (p st) (fun e => f e st) c = _
  unfold EStateM.tryCatch
  rw [h]
  rfl

theorem bind_congr_at {β : Type} {p q : Scan α} (f : α → Scan β) (h : p st c = q st d) :
    (p >>= f) st c = (q >>= f) st d := by
  change EStateM.bind (p st) (fun a => f a st) c = EStateM.bind (q st) (fun a => f a st) d
  unfold EStateM.bind
  rw [h]

/-! ## One token -/

/-- The token at the cursor, after the tokens so far. -/
def tokenAfter (past : History) : Scan Token := do
  if (← here) == 0x2F then
    match past.opensRegex with
    | .ok true => regexOrNext
    | .ok false => next
    | .error e => throw e
  else next

/-- The entries of a token and of the comments before it. -/
def entries (o : Options) (src : Source) (ms : List Comment) (c : Cursor) (k : Token) (d : Cursor) : List Entry :=
  ms.map (ofComment o src) ++ [ofToken o src k c.toPlace.position d.toPlace.position]

theorem tokenAfter_slash (past : History) (hx : st.source.at? c.index = some 0x2F) : tokenAfter past st c =
    (match past.opensRegex with
    | .ok true => regexOrNext
    | .ok false => next
    | .error e => throw e : Scan Token) st c :=
  bind_ok _ (returns_here.mpr ⟨hx, rfl⟩)

theorem tokenAfter_other {x : Nat} (hx : st.source.at? c.index = some x) (hne : x ≠ 0x2F) :
    tokenAfter past st c = next st c := by
  unfold tokenAfter
  rw [bind_ok _ (returns_here.mpr ⟨hx, rfl⟩), if_neg (by simpa using hne)]

theorem regexOrNext_ok (hr : Returns regex st c k d) : Returns regexOrNext st c k d :=
  (bind_ok _ (rfl : save st c = .ok c.toPlace c)).trans (tryCatch_ok hr)

/-- What is read is a regular expression or the token that the cursor is at, unless the tokens so far do not reach back
far enough. -/
theorem tokenAfter_cases (past : History) (hlt : c.index < st.source.length) :
    tokenAfter past st c = next st c ∨ (∃ k d, Returns regex st c k d ∧ Returns (tokenAfter past) st c k d) ∨
      ∃ x, st.source.at? c.index = some 0x2F ∧ past.opensRegex = .error x ∧ tokenAfter past st c = .error x c := by
  obtain ⟨x, hx⟩ := Source.exists_at? (Nat.le_of_lt hlt)
  by_cases hs : x = 0x2F
  · subst hs
    have hslash := tokenAfter_slash past hx
    cases ho : past.opensRegex with
    | error x => exact .inr (.inr ⟨x, hx, rfl, by rw [hslash, ho]; rfl⟩)
    | ok b =>
      rw [ho] at hslash
      cases b with
      | false => exact .inl hslash
      | true =>
        cases hr : regex st c with
        | ok k d => exact .inr (.inl ⟨k, d, hr, hslash.trans (regexOrNext_ok hr)⟩)
        | error x d => exact .inl (hslash.trans (regexOrNext_eq hr))
  · exact .inl (tokenAfter_other hx hs)

theorem tokenAfter_takes (hlt : c.index < st.source.length) (hk : Returns (tokenAfter past) st c k d) :
    Takes st c k d := by
  rcases tokenAfter_cases past hlt with hn | ⟨k', d', hr, hk'⟩ | ⟨x, -, -, he⟩
  · rcases next_takes (hn.symm.trans hk) with ⟨he, -⟩ | ⟨-, ht⟩
    · omega
    · exact ht
  · cases hk'.symm.trans hk
    exact (regex_takes hr).2.toTakes
  · cases he.symm.trans hk

theorem group_eq (hms : Returns comments st c ms d) (hlt : d.index < st.source.length) : group o past st c = (do
    let k ← tokenAfter past
    let e ← get
    return some (entries o st.source ms d k e, past.push k.lexeme) : Scan _) st d := by
  obtain ⟨x, hx⟩ := Source.exists_at? (Nat.le_of_lt hlt)
  have hfirst : Returns (positionBack 0) st d d.toPlace.position d := by simp [positionBack, Place.position]
  unfold group tokenAfter
  rw [bind_ok _ (rfl : (read : Scan Settings) st c = .ok st c), bind_ok _ hms, bind_ok _ (returns_atEnd.mpr ⟨rfl, rfl⟩),
    if_neg (by simpa using hlt), bind_ok _ hfirst, bind_ok _ (returns_here.mpr ⟨hx, rfl⟩)]
  simp only [bind_assoc]
  rw [bind_ok _ (returns_here.mpr ⟨hx, rfl⟩)]
  by_cases hs : (x == 0x2F) = true
  · rw [if_pos hs, if_pos hs]
    cases past.opensRegex with
    | error e => rfl
    | ok b => cases b <;> simp [entries, positionBack, Place.position]
  · rw [if_neg hs, if_neg hs]
    simp [entries, positionBack, Place.position]

/-- At the end there are at most the comments before it. -/
theorem group_end (hms : Returns comments st c ms d) (hend : st.source.length ≤ d.index) :
    group o past st c = .ok (if ms = [] then none else some (ms.map (ofComment o st.source), past)) d := by
  unfold group
  rw [bind_ok _ (rfl : (read : Scan Settings) st c = .ok st c), bind_ok _ hms, bind_ok _ (returns_atEnd.mpr ⟨rfl, rfl⟩),
    if_pos (by simpa using hend)]
  cases ms <;> rfl

theorem group_fails (hms : comments st c = .error x d) : group o past st c = .error x d := by
  unfold group
  rw [bind_ok _ (rfl : (read : Scan Settings) st c = .ok st c), bind_error _ hms]

theorem groups_some {past' : History} (hg : group o past st c = .ok (some (es, past')) d) :
    groups o (n + 1) past st c = (do return es ++ (← groups o n past')) st d := by
  rw [groups, bind_ok _ (tryCatch_ok hg)]

theorem groups_none (hg : group o past st c = .ok none d) : groups o (n + 1) past st c = .ok [] d := by
  rw [groups, bind_ok _ (tryCatch_ok hg)]
  rfl

/-- An error that is passed over ends the list. -/
theorem groups_rejected {x : SyntaxError} (hg : group o past st c = .error (.rejected x) d) :
    groups o (n + 1) past st c =
      if st.tolerant then .ok [] { d with errors := d.errors ++ [x] } else .error (.rejected x) d := by
  rw [groups]
  cases ht : st.tolerant with
  | true =>
    have hpast : Returns (tolerate x) st d () { d with errors := d.errors ++ [x] } := returns_tolerate.mpr ⟨ht, rfl⟩
    exact bind_ok (a := none) _ ((tryCatch_error hg).trans (bind_ok _ hpast))
  | false =>
    have hstop : tolerate x st d = .error (.rejected x) d := by
      unfold tolerate
      rw [bind_ok _ (rfl : (read : Scan Settings) st d = .ok st d), ht]
      rfl
    exact bind_error _ ((tryCatch_error hg).trans (bind_error _ hstop))

theorem groups_error (hg : group o past st c = .error x d) (hx : ¬ x.IsRejection) :
    groups o (n + 1) past st c = .error x d := by
  rw [groups]
  refine bind_error _ ((tryCatch_error hg).trans ?_)
  cases x with
  | rejected x => exact absurd ⟨x, rfl⟩ hx
  | _ => rfl

/-- What a list comes to when its scan has ended. -/
def result : EStateM.Result Failure Cursor (List Entry) → Except Failure (List Entry × List SyntaxError)
  | .ok es d => .ok (es, d.errors)
  | .error x _ => .error x

/-- The settings for the list of the tokens of a text. -/
def Options.settings (o : Options) (t : Text) : Settings :=
  { source := .ofText t, tolerant := o.tolerant, comments := o.comments }

/-- From the start of the source the tokens are read one after the other up to the cursor. Their entries are listed,
with those of the comments before them. -/
inductive Reaches (o : Options) (st : Settings) : List Lexeme → List Entry → Cursor → Prop
  | start : Reaches o st [] [] (Scan.start st.source)
  | token {ls : List Lexeme} {es : List Entry} {c d e : Cursor} {ms : List Comment} {k : Token} :
    Reaches o st ls es c → Returns comments st c ms d → d.index < st.source.length →
      Returns (tokenAfter (.ofList ls)) st d k e →
      Reaches o st (ls ++ [k.lexeme]) (es ++ entries o st.source ms d k e) e

namespace Reaches

theorem length_le (h : Reaches o st ls es c) : ls.length ≤ c.index ∧ c.index ≤ st.source.length := by
  induction h with
  | start => exact ⟨Nat.zero_le _, Nat.zero_le _⟩
  | token _ hms hlt hk ih =>
    obtain ⟨found, hs, -⟩ := comments_skip hms
    have ht := tokenAfter_takes hlt hk
    have := hs.index_le
    have := ht.lt
    have := ht.walk.index_le_length (Nat.le_of_lt hlt)
    simp only [List.length_append, List.length_singleton]
    omega

/-- The list goes on with the groups after the tokens. -/
theorem groups (h : Reaches o st ls es c) (n : Nat) : Listing.groups o (ls.length + n) {} st (Scan.start st.source) =
    (do return es ++ (← Listing.groups o n (.ofList ls))) st c := by
  induction h generalizing n with
  | start => simp [History.ofList]
  | @token ls es c d e ms k _ hms hlt hk ih =>
    have hg : group o (.ofList ls) st c = .ok (some (entries o st.source ms d k e, .ofList (ls ++ [k.lexeme]))) e := by
      rw [group_eq hms hlt, bind_ok _ hk, History.ofList_concat]
      rfl
    have hlen : (ls ++ [k.lexeme]).length + n = ls.length + (n + 1) := by simp; omega
    rw [hlen, ih, bind_congr_at _ (groups_some hg)]
    simp

/-- What becomes of the list after the tokens. -/
theorem tokenize_eq {t : Text} (h : Reaches o (o.settings t) ls es c) : ∃ n, tokenize t o =
    result ((do return es ++ (← Listing.groups o (n + 1) (.ofList ls)) : Scan _) (o.settings t) c) := by
  have hle := h.length_le
  obtain ⟨n, hn⟩ : ∃ n, (o.settings t).source.length + 1 = ls.length + (n + 1) :=
    ⟨(o.settings t).source.length - ls.length, by omega⟩
  refine ⟨n, ?_⟩
  rw [← h.groups, ← hn]
  unfold tokenize
  dsimp only
  split <;> next hg => exact (congrArg result hg).symm

end Reaches

/-! ## The end of the list -/

section

variable {t : Text} (hr : Reaches o (o.settings t) ls es c)
include hr

/-- The list goes up to the end of the text. -/
theorem tokenize_end (hms : Returns comments (o.settings t) c ms d) (hend : (o.settings t).source.length ≤ d.index) :
    tokenize t o = .ok (es ++ ms.map (ofComment o (.ofText t)), d.errors) := by
  obtain ⟨n, hn⟩ := hr.tokenize_eq
  have hg : group o (.ofList ls) (o.settings t) c = _ := group_end hms hend
  suffices hall : Listing.groups o (n + 1) (.ofList ls) (o.settings t) c = .ok (ms.map (ofComment o (.ofText t))) d by
    rw [hn, bind_ok _ hall]
    rfl
  by_cases hnil : ms = []
  · subst hnil
    exact groups_none hg
  · rw [if_neg hnil] at hg
    have hrest : Listing.groups o n (.ofList ls) (o.settings t) d = .ok [] d := by
      cases n with
      | zero => rfl
      | succ n => exact groups_none (group_end (comments_settled (settled_of_end hend)) hend)
    rw [groups_some hg, bind_ok _ hrest, List.append_nil]
    rfl

/-- The list ends before a group that is rejected, and is returned if errors are passed over. -/
theorem tokenize_rejected {x : SyntaxError} (hg : group o (.ofList ls) (o.settings t) c = .error (.rejected x) d) :
    tokenize t o = if o.tolerant then .ok (es, d.errors ++ [x]) else .error (.rejected x) := by
  obtain ⟨n, hn⟩ := hr.tokenize_eq
  have hall : Listing.groups o (n + 1) (.ofList ls) (o.settings t) c =
      if o.tolerant then .ok [] { d with errors := d.errors ++ [x] } else .error (.rejected x) d := groups_rejected hg
  cases ht : o.tolerant with
  | true =>
    rw [ht, if_pos rfl] at hall
    rw [hn, bind_ok _ hall, List.append_nil]
    rfl
  | false =>
    rw [ht, if_neg (by decide)] at hall
    rw [hn, bind_error _ hall]
    rfl

theorem tokenize_error (hg : group o (.ofList ls) (o.settings t) c = .error x d) (hx : ¬ x.IsRejection) :
    tokenize t o = .error x := by
  obtain ⟨n, hn⟩ := hr.tokenize_eq
  rw [hn, bind_error _ (groups_error hg hx)]
  rfl

end

theorem tokenAfter_grows (hlt : c.index < st.source.length) (hk : Returns (tokenAfter past) st c k d)
    (hc : c.errors ≠ []) : d.errors ≠ [] := by
  rcases tokenAfter_cases past hlt with hn | ⟨k', d', hr, hk'⟩ | ⟨x, -, -, he⟩
  · exact Steady.grows (hn.symm.trans hk : Returns next st c k d) hc
  · cases hk'.symm.trans hk
    exact Steady.grows hr hc
  · cases he.symm.trans hk

/-- Tokens are read until the end is reached or a group fails. What is complained about stays on the list. -/
theorem Reaches.ends (h : Reaches o st ls es c) : ∃ ls es e, Reaches o st ls es e ∧ (c.errors ≠ [] → e.errors ≠ []) ∧
    ((∃ ms d, Returns comments st e ms d ∧ st.source.length ≤ d.index) ∨
      ∃ x d, group o (.ofList ls) st e = .error x d) := by
  -- each token takes a character
  induction hn : st.source.length - c.index using Nat.strongRecOn generalizing ls es c with
  | ind n ih =>
    cases hms : comments st c with
    | error x d => exact ⟨ls, es, c, h, id, .inr ⟨x, d, group_fails hms⟩⟩
    | ok ms d =>
      rcases Nat.lt_or_ge d.index st.source.length with hlt | hge
      · cases hk : tokenAfter (.ofList ls) st d with
        | error x e => exact ⟨ls, es, c, h, id, .inr ⟨x, e, (group_eq hms hlt).trans (bind_error _ hk)⟩⟩
        | ok k e =>
          obtain ⟨found, hs, -⟩ := comments_skip hms
          have := hs.index_le
          have := (tokenAfter_takes hlt hk).lt
          obtain ⟨ls', es', e', hr, hgrows, hends⟩ := ih _ (by omega) (h.token hms hlt hk) rfl
          obtain ⟨_, hb, -⟩ := returns_comments.mp hms
          exact ⟨ls', es', e', hr, fun hc => hgrows (tokenAfter_grows hlt hk (Steady.grows hb hc)), hends⟩
      · exact ⟨ls, es, c, h, id, .inl ⟨ms, d, hms, hge⟩⟩

/-- A list that is returned without passing over errors goes up to the end of the text. -/
theorem tokenize_reaches {t : Text} {errors : List SyntaxError} (ht : o.tolerant = false)
    (h : tokenize t o = .ok (es, errors)) : ∃ ls es' c ms d, Reaches o (o.settings t) ls es' c ∧
      Returns comments (o.settings t) c ms d ∧ (o.settings t).source.length ≤ d.index ∧
      es = es' ++ ms.map (ofComment o (.ofText t)) ∧ errors = d.errors := by
  have hstart : Reaches o (o.settings t) [] [] _ := .start
  obtain ⟨ls, es', c, hr, -, ⟨ms, d, hms, hend⟩ | ⟨x, d, hg⟩⟩ := hstart.ends
  · cases (tokenize_end hr hms hend).symm.trans h
    exact ⟨ls, es', c, ms, d, hr, hms, hend, rfl, rfl⟩
  · by_cases hx : x.IsRejection
    · obtain ⟨x, rfl⟩ := hx
      rw [tokenize_rejected hr hg, ht] at h
      cases h
    · cases (tokenize_error hr hg hx).symm.trans h

section

variable (hr : o.range = true) (hc : st.comments = true)
include hr hc

theorem tiles_comments (hms : Returns comments st c ms d) :
    (ms.map (ofComment o st.source)).map Entry.range = (ms.map Comment.range).map some ∧
      Tiles st.source c.index (ms.map Comment.range) d.index :=
  ⟨by simp [ofComment, hr, Function.comp_def], (comments_collected hc hms).tiles⟩

/-- The entries cover what the cursor has passed. -/
theorem Reaches.tiles (h : Reaches o st ls es c) :
    ∃ rs, es.map Entry.range = rs.map some ∧ Tiles st.source 0 rs c.index := by
  induction h with
  | start => exact ⟨[], rfl, .done⟩
  | @token _ _ _ d e ms k _ hms hlt hk ih =>
    obtain ⟨rs, hrs, ht⟩ := ih
    obtain ⟨hms', hts⟩ := tiles_comments hr hc hms
    have hk' := tokenAfter_takes hlt hk
    refine ⟨rs ++ (ms.map Comment.range ++ [⟨d.index, e.index⟩]), ?_, ht.append (hts.snoc hk'.lt)⟩
    simp only [entries, List.map_append, hrs, hms']
    simp [ofToken, hr, hk'.start, hk'.stop]

end

/-- A group that fails rejects the program, or the tokens before a slash do not reach back far enough. -/
theorem group_error (hg : group o (.ofList ls) st c = .error x d) : x.IsRejection ∨
    x = .shortHistory ∧ History.RunsShort ls ∧
      ∃ ms e, Returns comments st c ms e ∧ st.source.at? e.index = some 0x2F := by
  cases hms : comments st c with
  | error y e =>
    cases (group_fails hms).symm.trans hg
    exact .inl (comments_raises ⟨d, hms⟩)
  | ok ms e =>
    rcases Nat.lt_or_ge e.index st.source.length with hlt | hge
    · rw [group_eq hms hlt] at hg
      rcases bind_fails hg with hk | ⟨k, u, -, hk⟩
      · rcases tokenAfter_cases (.ofList ls) hlt with hn | ⟨k, u, -, hr⟩ | ⟨y, hx, ho, he⟩
        · exact .inl (next_raises ⟨d, hn.symm.trans hk⟩)
        · cases hr.symm.trans hk
        · cases he.symm.trans hk
          obtain rfl := History.opensRegex_raises ho
          exact .inr ⟨rfl, (History.opensRegex_fails_iff ls).mp ho, ms, _, hms, hx⟩
      · cases hk
    · cases (group_end hms hge).symm.trans hg

/-- A slash follows tokens that do not reach back far enough to tell whether it opens a regular expression. -/
def LooksTooFar (o : Options) (t : Text) : Prop :=
  ∃ ls es c ms d, Reaches o (o.settings t) ls es c ∧ Returns comments (o.settings t) c ms d ∧
    t[d.index]? = some 0x2F ∧ History.RunsShort ls

/-- The list of tokens is returned, or the program is rejected where errors are not passed over, if and only if no
slash is met after tokens that do not reach back far enough. If one is, this is what the list fails for. -/
theorem tokenize_returns_or_rejects_iff (t : Text) (o : Options) :
    (((∃ r, tokenize t o = .ok r) ∨ o.tolerant = false ∧ ∃ x, tokenize t o = .error (.rejected x)) ↔
        ¬ LooksTooFar o t) ∧
      (LooksTooFar o t ↔ tokenize t o = .error .shortHistory) := by
  have hfar : LooksTooFar o t → tokenize t o = .error .shortHistory := by
    rintro ⟨ls, es, c, ms, d, hr, hms, hx, hs⟩
    have hlt := (List.getElem?_eq_some_iff.mp hx).1
    have hlt' : d.index < (o.settings t).source.length := by
      rwa [Options.settings, Source.length_ofText]
    have hx' : (o.settings t).source.at? d.index = some 0x2F := by
      rw [Source.at?_of_lt hlt', ← hx]
      exact Source.getElem?_ofText t d.index
    have hk : tokenAfter (.ofList ls) (o.settings t) d = .error .shortHistory d := by
      rw [tokenAfter_slash _ hx', (History.opensRegex_fails_iff ls).mpr hs]
      rfl
    exact tokenize_error hr ((group_eq hms hlt').trans (bind_error _ hk)) (by rintro ⟨x, ⟨⟩⟩)
  have hends : LooksTooFar o t ∨ (∃ r, tokenize t o = .ok r) ∨
      o.tolerant = false ∧ ∃ x, tokenize t o = .error (.rejected x) := by
    have hstart : Reaches o (o.settings t) [] [] _ := .start
    obtain ⟨ls, es, c, hr, -, ⟨ms, d, hms, hend⟩ | ⟨x, d, hg⟩⟩ := hstart.ends
    · exact .inr (.inl ⟨_, tokenize_end hr hms hend⟩)
    · rcases group_error hg with ⟨x, rfl⟩ | ⟨-, hs, ms, e, hms, hx⟩
      · have hl := tokenize_rejected hr hg
        cases ht : o.tolerant with
        | true => exact .inr (.inl ⟨_, by rwa [ht] at hl⟩)
        | false => exact .inr (.inr ⟨rfl, x, by rwa [ht] at hl⟩)
      · have hget := Source.getElem?_of_at?_ne hx (by decide)
        exact .inl ⟨ls, es, c, ms, e, hr, hms, (Source.getElem?_ofText t e.index).symm.trans hget, hs⟩
  refine ⟨⟨fun hok h => ?_, hends.resolve_left⟩, hfar, fun h => hends.resolve_right ?_⟩
  · rcases hok with ⟨r, hr⟩ | ⟨-, x, hx⟩
    · cases (hfar h).symm.trans hr
    · cases (hfar h).symm.trans hx
  · rintro (⟨r, hr⟩ | ⟨-, x, hx⟩)
    · cases h.symm.trans hr
    · cases h.symm.trans hx

/-- A slash after nothing but a closing parenthesis. -/
theorem tokenize_looks_too_far : tokenize (Text.ofString ")/a/") { tolerant := true } = .error .shortHistory := by
  rfl

end ScriptTree.Listing
