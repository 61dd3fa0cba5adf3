import ScriptTree.Lexeme.Listing
import ScriptTree.Proofs.Scan.Built
import ScriptTree.Proofs.Scan.Escapes

/-! # Regular expressions in a program

A slash may start a regular expression, and whether it does is found out by reading one. The body is read exactly
where the grammar has one (`regexBody_delimits`). Where none can be read, the attempt is undone: the brackets and
complaints of the scan are still those from before, and the place is restored (`group_after_failed_regex`). -/

namespace ScriptTree.Scan

variable {e : Failure} {inSet : Bool} {α : Type} {E : Failure → Prop} {st : Settings} {b c d : Cursor} {n x : Nat}
  {t rest : Text}

/-! ## Bodies -/

/-- What stands in brackets: escapes, and characters that do not close them. -/
inductive InBrackets : Text → Prop
  | nil : InBrackets []
  | escape {x : Nat} {t : Text} : Text.isLineTerminator x = false → InBrackets t → InBrackets (0x5C :: x :: t)
  | char {x : Nat} {t : Text} : x ∉ [0x5C, 0x5D] → Text.isLineTerminator x = false → InBrackets t → InBrackets (x :: t)

/-- A body: escapes, sets in brackets, and characters that neither open a set nor end the body. -/
inductive IsBody : Text → Prop
  | nil : IsBody []
  | escape {x : Nat} {t : Text} : Text.isLineTerminator x = false → IsBody t → IsBody (0x5C :: x :: t)
  | set {s t : Text} : InBrackets s → IsBody t → IsBody (0x5B :: (s ++ 0x5D :: t))
  | char {x : Nat} {t : Text} : x ∉ [0x2F, 0x5B, 0x5C] → Text.isLineTerminator x = false → IsBody t → IsBody (x :: t)

/-- From inside brackets a body goes on with the rest of the set. -/
def Continues : Bool → Text → Prop
  | false, t => IsBody t
  | true, t => ∃ s u, t = s ++ 0x5D :: u ∧ InBrackets s ∧ IsBody u

theorem Goes.continues (h : Goes inSet t) : Continues inSet t := by
  induction h with
  | done => exact .nil
  | @escape inSet x t hx _ ih =>
    cases inSet with
    | false => exact .escape hx ih
    | true =>
      obtain ⟨s, u, rfl, hs, hu⟩ := ih
      exact ⟨0x5C :: x :: s, u, rfl, .escape hx hs, hu⟩
  | @inside x t hx hl _ ih =>
    by_cases hc : x = 0x5D
    · subst hc
      exact ⟨[], t, rfl, .nil, ih⟩
    · rw [bne_iff_ne.mpr hc] at ih
      obtain ⟨s, u, rfl, hs, hu⟩ := ih
      exact ⟨x :: s, u, rfl, .char (by simp [hx, hc]) hl hs, hu⟩
  | @outside x t hx hl hslash _ ih =>
    by_cases hc : x = 0x5B
    · subst hc
      obtain ⟨s, u, rfl, hs, hu⟩ := ih
      exact .set hs hu
    · rw [beq_false_of_ne hc] at ih
      exact .char (by simp [hx, hc, hslash]) hl ih

theorem InBrackets.goes {s : Text} (h : InBrackets s) (ht : Goes false t) : Goes true (s ++ 0x5D :: t) := by
  induction h with
  | nil => exact .inside (by decide) rfl ht
  | escape hx _ ih => exact .escape hx ih
  | char hx hl _ ih =>
    simp only [List.mem_cons, List.not_mem_nil, or_false, not_or] at hx
    refine .inside hx.1 hl ?_
    rwa [bne_iff_ne.mpr hx.2]

theorem IsBody.goes (h : IsBody t) : Goes false t := by
  induction h with
  | nil => exact .done
  | escape hx _ ih => exact .escape hx ih
  | set hs _ ih => exact .outside (by decide) rfl (by decide) (hs.goes ih)
  | char hx hl _ ih =>
    simp only [List.mem_cons, List.not_mem_nil, or_false, not_or] at hx
    refine .outside hx.2.2 hl hx.1 ?_
    rwa [beq_false_of_ne hx.2.1]

/-- A body is read up to the slash behind it. Each round takes one character or one escape. -/
theorem regexTail_reads (hg : Goes inSet t) (hn : t.length < n)
    (h : st.source.chars.toList.drop c.index = t ++ 0x2F :: rest) : Gives E st c (regexTail n inSet) fun r d =>
      r = t ∧ d = { c with index := c.index + t.length + 1 } := by
  induction hg generalizing c n with
  | done =>
    obtain ⟨n, rfl⟩ := Nat.exists_eq_add_one_of_ne_zero (Nat.ne_of_gt hn)
    exact .ongoing h <| .taken (Source.at?_of_drop h) <| .neg (by decide) <| .neg (by decide) <| .neg (by decide) <|
      .pos rfl <| .pure ⟨rfl, rfl⟩
  | escape hx _ ih =>
    obtain ⟨n, rfl⟩ := Nat.exists_eq_add_one_of_ne_zero (Nat.ne_of_gt (Nat.zero_lt_of_lt hn))
    have h' := Source.drop_succ_of_drop h
    refine .ongoing h <| .taken (Source.at?_of_drop h) <| .pos rfl <| .taken (Source.at?_of_drop h') <|
      .neg (by simp [hx]) <| .bind (ih (by simp at hn; omega) (Source.drop_succ_of_drop h')) ?_
    rintro _ _ ⟨rfl, rfl⟩
    exact .pure ⟨rfl, by simp [Nat.add_assoc, Nat.add_comm 2]⟩
  | inside hx hl _ ih =>
    obtain ⟨n, rfl⟩ := Nat.exists_eq_add_one_of_ne_zero (Nat.ne_of_gt (Nat.zero_lt_of_lt hn))
    refine .ongoing h <| .taken (Source.at?_of_drop h) <| .neg (by simpa using hx) <| .neg (by simp [hl]) <| .pos rfl <|
      .bind (ih (Nat.lt_of_succ_lt_succ hn) (Source.drop_succ_of_drop h)) ?_
    rintro _ _ ⟨rfl, rfl⟩
    exact .pure ⟨rfl, by simp [Nat.add_assoc, Nat.add_comm 1]⟩
  | outside hx hl hs _ ih =>
    obtain ⟨n, rfl⟩ := Nat.exists_eq_add_one_of_ne_zero (Nat.ne_of_gt (Nat.zero_lt_of_lt hn))
    refine .ongoing h <| .taken (Source.at?_of_drop h) <| .neg (by simpa using hx) <| .neg (by simp [hl]) <|
      .neg (by decide) <| .neg (by simpa using hs) <|
      .bind (ih (Nat.lt_of_succ_lt_succ hn) (Source.drop_succ_of_drop h)) ?_
    rintro _ _ ⟨rfl, rfl⟩
    exact .pure ⟨rfl, by simp [Nat.add_assoc, Nat.add_comm 1]⟩

theorem regexBody_reads (ht : IsBody t) (h : st.source.chars.toList.drop c.index = 0x2F :: rest) (hp : t ++ [0x2F] <+: rest) :
    Returns regexBody st c t { c with index := c.index + t.length + 2 } := by
  obtain ⟨more, rfl⟩ := hp
  have h' := Source.drop_succ_of_drop h
  have hlen := Source.length_of_drop h'
  have hread : Gives (fun _ => False) st c regexBody fun r d => r = t ∧ d = { c with index := c.index + t.length + 2 } := by
    refine .known (Source.at?_of_drop h) <| .pos rfl <| .advance <| .ahead <|
      (regexTail_reads ht.goes (by simp at hlen ⊢; omega) (by simpa using h')).mono fun ⟨hr, hd⟩ => ⟨hr, ?_⟩
    simp [hd, Nat.add_assoc, Nat.add_comm 1]
  obtain ⟨_, _, hr, rfl, rfl⟩ := hread.total
  exact hr

theorem regexBody_goes (h : st.source.chars.toList.drop c.index = 0x2F :: rest) :
    Gives Failure.IsRejection st c regexBody fun t _ => IsBody t ∧ t ++ [0x2F] <+: rest := by
  refine .known (Source.at?_of_drop h) <| .pos rfl <| .advance <| .ahead <| (regexTail_goes (.refl st _)).mono fun ht => ?_
  rw [Source.drop_succ_of_drop h] at ht
  exact ⟨ht.2.1.continues, ht.2.2⟩

/-- At a slash the body of a regular expression is read if and only if there is one with a slash behind it. There is
only one then, it is what is returned, and the cursor ends behind its slash. Else the program is rejected. -/
theorem regexBody_delimits (st : Settings) (c : Cursor) (rest : Text)
    (h : st.source.chars.toList.drop c.index = 0x2F :: rest) :
    ((∃ t d, Returns regexBody st c t d) ↔ ∃ t, IsBody t ∧ t ++ [0x2F] <+: rest) ∧
    (∀ t, IsBody t → t ++ [0x2F] <+: rest → Returns regexBody st c t { c with index := c.index + t.length + 2 } ∧
      ∀ t', IsBody t' → t' ++ [0x2F] <+: rest → t' = t) ∧
    ((¬ ∃ t, IsBody t ∧ t ++ [0x2F] <+: rest) → ∃ x, Raises regexBody st c (.rejected x)) := by
  refine ⟨⟨fun ⟨t, d, hr⟩ => ⟨t, (regexBody_goes h).returns hr⟩, fun ⟨t, ht, hp⟩ => ⟨t, _, regexBody_reads ht h hp⟩⟩,
    fun t ht hp => ⟨regexBody_reads ht h hp, fun t' ht' hp' => ?_⟩, fun hn => ?_⟩
  · have := (regexBody_reads ht' h hp').symm.trans (regexBody_reads ht h hp)
    exact (EStateM.Result.ok.inj this).1
  · cases hr : regexBody st c with
    | ok t d => exact absurd ⟨t, (regexBody_goes h).returns hr⟩ hn
    | error e d =>
      obtain ⟨x, rfl⟩ := (regexBody_goes h).raises ⟨d, hr⟩
      exact ⟨x, d, hr⟩

/-- A slash and an escaped bracket in a set. -/
theorem regexBody_delimits_set :
    let st : Settings := { source := .ofText [0x2F, 0x5B, 0x2F, 0x5C, 0x5D, 0x5D, 0x2F, 0x67] }
    Returns regexBody st {} [0x5B, 0x2F, 0x5C, 0x5D, 0x5D] { index := 7 } := by
  intro st
  have hs : InBrackets [0x2F, 0x5C, 0x5D] := .char (by decide) rfl (.escape rfl .nil)
  exact ((regexBody_delimits st {} _ rfl).2.1 _ (.set hs .nil) ⟨[0x67], rfl⟩).1

/-! ## Attempts -/

/-- Whatever comes of the step, the open brackets and the complaints are as before. -/
def Still (st : Settings) (p : Scan α) : Prop :=
  ∀ c, match p st c with
    | .ok _ d | .error _ d => d.openers = c.openers ∧ d.errors = c.errors

/-- A step that opens no brackets, and complains only where that rejects the program. -/
theorem Made.still {t : Bool} {p : Scan α} [h : Made false t p] (ht : t = true → st.tolerant = false) : Still st p := by
  induction h with
  | returns a => exact fun _ => ⟨rfl, rfl⟩
  | fails e => exact fun _ => ⟨rfl, rfl⟩
  | @sequence _ _ p f _ _ hp hf =>
    intro c
    have hc := hp c
    cases hr : p st c with
    | error e d =>
      rw [bind_error f hr]
      simpa [hr] using hc
    | ok a d =>
      rw [bind_ok f hr]
      simp only [hr] at hc
      have hd := hf a d
      rwa [hc.1, hc.2] at hd
  | reads _ _ hf => exact fun c => hf st c
  | asks q h =>
    intro c
    rw [h]
    exact ⟨rfl, rfl⟩
  | moves f => exact fun _ => ⟨rfl, rfl⟩
  | opens f h => cases h
  | tolerates e h =>
    intro c
    unfold tolerate
    rw [bind_ok _ (rfl : (read : Scan Settings) st c = .ok st c), ht h]
    exact ⟨rfl, rfl⟩

/-- In a tolerant scan only the body fails, before anything is complained about. In another one nothing is
complained about that does not fail. -/
theorem regex_still (h : regex st c = .error e d) : { d with toPlace := c.toPlace } = c := by
  suffices hs : d.openers = c.openers ∧ d.errors = c.errors by rw [hs.1, hs.2]
  cases ht : st.tolerant with
  | false =>
    have hs := Made.still (t := true) (p := regex) (fun _ => ht) c
    rwa [h] at hs
  | true =>
    rcases bind_fails ((bind_ok _ (rfl : index st c = .ok c.index c)).symm.trans h) with hb | ⟨t, u, -, hr⟩
    · have hs : Still st regexBody := Made.still (t := false) (by simp)
      replace hs := hs c
      rwa [hb] at hs
    · have : Tolerates (fun _ => False) st := ⟨fun hf => by simp [ht] at hf⟩
      refine (Gives.raises (E := fun _ => False) (Q := fun _ _ => True) ?_ ⟨d, hr⟩).elim
      exact .ahead <| .bind (regexFlags_glides (.refl st _)) fun hf => .bind (checkRegex_glides hf) fun _ => .token trivial

theorem regexOrNext_eq (h : regex st c = .error e d) : Listing.regexOrNext st c = next st c := by
  unfold Listing.regexOrNext
  rw [bind_ok _ (rfl : save st c = .ok c.toPlace c)]
  change EStateM.tryCatch (regex st) _ c = _
  unfold EStateM.tryCatch
  rw [h]
  exact bind_ok (a := ()) _ (returns_restore.mpr (regex_still h).symm)

/-- Where a regular expression may start at a slash but none can be read, the attempt leaves no trace, be the scan
tolerant or not. With the place restored the cursor is the one from before, and the token that is listed is the one
that is read from it. -/
theorem group_after_failed_regex (o : Listing.Options) (past : History) (st : Settings) (b c d : Cursor)
    (ms : List Comment) (e : Failure) (hms : Returns comments st b ms c) (hx : st.source.at? c.index = some 0x2F)
    (hp : past.opensRegex = .ok true) (h : regex st c = .error e d) :
    { d with toPlace := c.toPlace } = c ∧ Listing.regexOrNext st c = next st c ∧
    Listing.group o past st b = (do
      let t ← next
      let last ← positionBack 0
      return some (ms.map (Listing.ofComment o st.source) ++
        [Listing.ofToken o st.source t c.toPlace.position last], past.push t.lexeme) : Scan _) st c := by
  refine ⟨regex_still h, regexOrNext_eq h, ?_⟩
  have hlt := Source.lt_length_of_at? hx (by decide)
  have hfirst : Returns (positionBack 0) st c c.toPlace.position c := by simp [positionBack, Place.position]
  unfold Listing.group
  rw [bind_ok _ (rfl : (read : Scan Settings) st b = .ok st b), bind_ok _ hms, bind_ok _ (returns_atEnd.mpr ⟨rfl, rfl⟩),
    if_neg (by simpa using hlt), bind_ok _ hfirst, bind_ok _ (returns_here.mpr ⟨hx, rfl⟩), hp, if_pos (by decide)]
  change EStateM.bind (Listing.regexOrNext st) _ c = EStateM.bind (next st) _ c
  unfold EStateM.bind
  rw [regexOrNext_eq h]

/-- In a tolerant scan, a set that is not closed. -/
theorem group_after_failed_regex_set :
    let st : Settings := { source := .ofText [0x20, 0x2F, 0x5B, 0x2F], tolerant := true }
    let c : Cursor := { index := 1, line := 1 }
    ∃ e d, regex st c = .error e d ∧ { d with toPlace := c.toPlace } = c ∧ Listing.regexOrNext st c = next st c ∧
      Listing.group {} {} st { line := 1 } = (do
        let t ← next
        let last ← positionBack 0
        return some ([Listing.ofToken {} st.source t ⟨1, 1⟩ last], History.push {} t.lexeme) : Scan _) st c := by
  intro st c
  have h : regex st c = .error _ _ := rfl
  exact ⟨_, _, h, group_after_failed_regex {} {} st { line := 1 } c _ [] _ rfl rfl rfl h⟩

end ScriptTree.Scan
