import Mathlib.Data.List.Induction
import ScriptTree.Lexeme.Slash

/-! # Slashes after the tokens so far

Whether a slash may start a regular expression is told by the tokens before it. Of these only the words and marks are
remembered, and where the last opening brace and the last opening parenthesis stand (`History.ofList`). After a closing
mark one looks back from the opening one, which may be farther than there are tokens (`History.opensRegex_fails_iff`),
and which need not be its partner (`History.opensRegex_closed_iff`). -/

namespace ScriptTree

def Lexeme.word? : Lexeme → Option String
  | .punctuator mark => some mark
  | .keyword word => some word
  | _ => none

namespace History

variable {e : Failure} {ls : List Lexeme} {l : Lexeme} {h : History} {mark : String} {i : Int}

def ofList (ls : List Lexeme) : History := ls.foldl push {}

theorem ofList_concat (ls : List Lexeme) (l : Lexeme) : ofList (ls ++ [l]) = (ofList ls).push l := by
  simp [ofList]

theorem push_values (h : History) (l : Lexeme) : (h.push l).values = h.values.push l.word? := by
  cases l <;> rfl

theorem push_brace (h : History) (l : Lexeme) :
    (h.push l).brace = if l = .punctuator "\x7b" then (h.values.size : Int) else h.brace := by
  cases l <;> simp [push]

theorem push_parenthesis (h : History) (l : Lexeme) :
    (h.push l).parenthesis = if l = .punctuator "(" then (h.values.size : Int) else h.parenthesis := by
  cases l <;> simp [push]

theorem values_ofList (ls : List Lexeme) : (ofList ls).values = (ls.map Lexeme.word?).toArray := by
  induction ls using List.reverseRecOn with
  | nil => rfl
  | append_singleton ls l ih => simp [ofList_concat, push_values, ih]

theorem size_ofList (ls : List Lexeme) : (ofList ls).values.size = ls.length := by simp [values_ofList]

/-- The place that is remembered of a mark: that of the last one, if there is one. -/
def IsLast (mark : String) (ls : List Lexeme) (i : Int) : Prop :=
  i = -1 ∧ .punctuator mark ∉ ls ∨
    ∃ j : Nat, i = j ∧ ls[j]? = some (.punctuator mark) ∧ ∀ k, j < k → ls[k]? ≠ some (.punctuator mark)

theorem IsLast.concat (h : IsLast mark ls i) :
    IsLast mark (ls ++ [l]) (if l = .punctuator mark then (ls.length : Int) else i) := by
  split
  · next hl => exact .inr ⟨ls.length, rfl, by simp [hl], fun k hk => by grind⟩
  · next hl =>
    rcases h with ⟨hi, hm⟩ | ⟨j, hi, hj, hlater⟩
    · exact .inl ⟨hi, by simp [hm, Ne.symm hl]⟩
    · refine .inr ⟨j, hi, by grind, fun k hk => ?_⟩
      have := hlater k hk
      grind

theorem isLast_of {f : History → Int} (h₀ : f {} = -1)
    (hpush : ∀ h l, f (h.push l) = if l = .punctuator mark then (h.values.size : Int) else f h) (ls : List Lexeme) :
    IsLast mark ls (f (ofList ls)) := by
  induction ls using List.reverseRecOn with
  | nil => exact .inl ⟨h₀, by simp⟩
  | append_singleton ls l ih =>
    rw [ofList_concat, hpush, size_ofList]
    exact ih.concat

theorem isLast_brace (ls : List Lexeme) : IsLast "\x7b" ls (ofList ls).brace := isLast_of rfl push_brace ls

theorem isLast_parenthesis (ls : List Lexeme) : IsLast "(" ls (ofList ls).parenthesis :=
  isLast_of rfl push_parenthesis ls

/-! ## Looking back -/

/-- What is at a place. Negative places count from the end. -/
def seen (h : History) (i : Int) : Option (Option String) :=
  let place := if i < 0 then i + h.values.size else i
  if place < 0 then none else h.values[place.toNat]?

theorem at?_eq (h : History) (i : Int) : h.at? i = (h.seen i).elim (.error .shortHistory) .ok := by
  unfold at? seen
  extract_lets place
  split
  · rfl
  · cases h.values[place.toNat]? <;> rfl

theorem seen_eq_none_iff : h.seen i = none ↔ i < -(h.values.size : Int) ∨ (h.values.size : Int) ≤ i := by
  grind [seen]

theorem afterBrace_fails_iff : h.afterBrace = .error e ↔ e = .shortHistory ∧
    3 ≤ h.values.size ∧ (h.seen (h.brace - 3) = none ∨
      h.seen (h.brace - 3) = some (some "function") ∧ h.seen (h.brace - 4) = none ∨
      h.seen (h.brace - 3) ≠ some (some "function") ∧ 4 ≤ h.values.size ∧ (h.seen (h.brace - 4) = none ∨
        h.seen (h.brace - 4) = some (some "function") ∧ h.seen (h.brace - 5) = none)) := by
  unfold afterBrace
  simp only [at?_eq]
  generalize hv₃ : h.seen (h.brace - 3) = v₃
  generalize hv₄ : h.seen (h.brace - 4) = v₄
  generalize hv₅ : h.seen (h.brace - 5) = v₅
  simp only [bind, Except.bind, pure, Except.pure]
  rcases v₃ with _ | w₃ <;> rcases v₄ with _ | w₄ <;> rcases v₅ with _ | w₅ <;> simp only [Option.elim] <;> grind

theorem opensRegex_raises (he : h.opensRegex = .error e) : e = .shortHistory := by
  unfold opensRegex at he
  split at he
  · cases he
  · cases he
  · simp only [at?_eq] at he
    split at he
    · cases he
    split at he
    · cases hs : h.seen (h.parenthesis - 1) with
      | none =>
        rw [hs] at he
        cases he
        rfl
      | some v =>
        rw [hs] at he
        cases v <;> cases he
    split at he
    · exact (afterBrace_fails_iff.mp he).1
    · cases he

/-- The tokens do not reach back as far as the last of them makes one look. -/
def RunsShort (ls : List Lexeme) : Prop :=
  ls.map Lexeme.word? = [some ")"] ∨
  (ls.map Lexeme.word?).getLast? = some (some "\x7d") ∧ .punctuator "\x7b" ∉ ls ∧
    (ls.length = 3 ∨ ls.length = 4 ∨
      ls.length = 5 ∧ ls[0]?.bind Lexeme.word? = some "function" ∧ ls[1]?.bind Lexeme.word? ≠ some "function")

theorem IsLast.place (hi : IsLast mark ls i) (hne : i ≠ -1) : ∃ j : Nat, i = j ∧ j < ls.length ∧
    ls[j]? = some (.punctuator mark) := by
  rcases hi with ⟨hi, -⟩ | ⟨j, hi, hj, -⟩
  · exact absurd hi hne
  · exact ⟨j, hi, (List.getElem?_eq_some_iff.mp hj).1, hj⟩

/-- After a closing parenthesis one looks back too far only if nothing stands before it. -/
theorem parenthesis_short_iff (hl : (ls.map Lexeme.word?).getLast? = some (some ")")) :
    (ofList ls).seen ((ofList ls).parenthesis - 1) = none ↔ ls.map Lexeme.word? = [some ")"] := by
  have hlast := isLast_parenthesis ls
  rw [seen_eq_none_iff, size_ofList]
  constructor
  · intro h
    obtain ⟨l, rfl⟩ : ∃ l, ls = [l] := by
      rw [← List.length_eq_one_iff]
      have hne : ls ≠ [] := by
        rintro rfl
        simp at hl
      have := List.length_pos_iff.mpr hne
      by_cases hp : (ofList ls).parenthesis = -1
      · omega
      · obtain ⟨j, _, _, _⟩ := hlast.place hp
        omega
    simpa using hl
  · intro h
    obtain ⟨l, rfl, hw⟩ : ∃ l, ls = [l] ∧ l.word? = some ")" := by simpa using h
    have hp : (ofList [l]).parenthesis = -1 := by
      cases l <;> simp_all [ofList, push, Lexeme.word?]
    simp [hp]

/-- Where an opening brace is known one does not look back too far from it. -/
theorem brace_short_iff (ls : List Lexeme) : (ofList ls).afterBrace = .error .shortHistory ↔ .punctuator "\x7b" ∉ ls ∧
    (ls.length = 3 ∨ ls.length = 4 ∨
      ls.length = 5 ∧ ls[0]?.bind Lexeme.word? = some "function" ∧ ls[1]?.bind Lexeme.word? ≠ some "function") := by
  have hsize := size_ofList ls
  have hlast := isLast_brace ls
  rw [afterBrace_fails_iff, and_iff_right rfl]
  by_cases hb : (ofList ls).brace = -1
  · have hm : .punctuator "\x7b" ∉ ls := by
      rcases hlast with ⟨-, hm⟩ | ⟨j, hi, -⟩
      · exact hm
      · omega
    have hseen (k : Nat) (i : Int) (hi : i = k - ls.length) (hk : i < 0) :
        (ofList ls).seen i = some (some "function") ↔ ls[k]?.bind Lexeme.word? = some "function" := by
      have hp : i + ls.length = k := by omega
      simp [seen, hk, hp, values_ofList, Option.bind_eq_some_iff]
    simp only [hb, hm, not_false_eq_true, true_and, seen_eq_none_iff, hsize]
    have h0 := hseen 0 (-1 - 5)
    have h1 := hseen 1 (-1 - 4)
    have h2 := hseen 0 (-1 - 4)
    grind
  · obtain ⟨j, hj, hlt, hv⟩ := hlast.place hb
    have hm : .punctuator "\x7b" ∈ ls := List.mem_of_getElem? hv
    -- as many places back as there are tokens is the brace itself
    have hself (k : Nat) (hk : ls.length = k) : (ofList ls).seen ((ofList ls).brace - k) ≠ some (some "function") := by
      have hi : (j : Int) - k < 0 := by omega
      have hp : (j : Int) - k + ls.length = j := by omega
      simp [seen, hj, hi, hp, hv, values_ofList, Lexeme.word?]
    simp only [hm, not_true_eq_false, false_and, iff_false, seen_eq_none_iff, hsize]
    have h3 := hself 3
    have h4 := hself 4
    grind

theorem opensRegex_fails_iff (ls : List Lexeme) : (ofList ls).opensRegex = .error .shortHistory ↔ RunsShort ls := by
  have hback : (ofList ls).values.back? = (ls.map Lexeme.word?).getLast? := by simp [values_ofList]
  unfold opensRegex RunsShort
  rw [hback]
  cases hl : (ls.map Lexeme.word?).getLast? with
  | none =>
    obtain rfl : ls = [] := by simpa using hl
    simp [pure, Except.pure]
  | some w =>
    have hone {v} (h : ls.map Lexeme.word? = [v]) : w = v := by simpa [h, eq_comm] using hl
    rcases w with _ | w
    · have : ls.map Lexeme.word? ≠ [some ")"] := fun h => by cases hone h
      simp [pure, Except.pure, this]
    by_cases hp : w = ")"
    · subst hp
      rw [← parenthesis_short_iff hl]
      simp [at?_eq]
      cases (ofList ls).seen ((ofList ls).parenthesis - 1) <;> simp [bind, Except.bind, pure, Except.pure]
      split <;> simp
    · have : ls.map Lexeme.word? ≠ [some ")"] := fun h => hp (Option.some.inj (hone h))
      by_cases hb : w = "\x7d"
      · subst hb
        simp [brace_short_iff, this]
      · simp [this, hp, hb]
        split <;> simp [pure, Except.pure]

/-! ## After a closing parenthesis -/

/-- How many parentheses are open after the tokens, unless a closing one has no partner. -/
def openAfter (n : Nat) : List Lexeme → Option Nat
  | [] => some n
  | l :: ls =>
    if l = .punctuator "(" then openAfter (n + 1) ls
    else if l = .punctuator ")" then if n = 0 then none else openAfter (n - 1) ls
    else openAfter n ls

def Balanced (ls : List Lexeme) : Prop := openAfter 0 ls = some 0

/-- The last token closes the parenthesis that is opened at a place. -/
def ClosesAt (ls : List Lexeme) (k : Nat) : Prop :=
  ∃ before inside, ls = before ++ .punctuator "(" :: inside ++ [.punctuator ")"] ∧ before.length = k ∧ Balanced inside

/-- Does a word that takes a head in parentheses stand at a place? -/
def takesHeadAt (ls : List Lexeme) (i : Nat) : Bool :=
  (ls[i]?.bind Lexeme.word?).any ["if", "while", "for", "with"].contains

/-- After a closing parenthesis a slash opens a regular expression if a word that takes a head stands before the
parenthesis that was opened last. This is the partner of the closing one only if none is opened between them, so the
word before the partner decides only if both words do or both do not take a head. -/
theorem opensRegex_closed_iff {ls : List Lexeme} {k : Nat} (hk : 1 ≤ k) (h : ClosesAt ls k) :
    ∃ j, k ≤ j ∧ ls[j]? = some (.punctuator "(") ∧ (∀ i, j < i → ls[i]? ≠ some (.punctuator "(")) ∧
      (ofList ls).opensRegex = .ok (takesHeadAt ls (j - 1)) ∧
      (((ofList ls).opensRegex = .ok true ↔ takesHeadAt ls (k - 1) = true) ↔
        takesHeadAt ls (j - 1) = takesHeadAt ls (k - 1)) := by
  obtain ⟨before, inside, rfl, rfl, -⟩ := h
  set ls := before ++ .punctuator "(" :: inside ++ [.punctuator ")"] with hls
  rcases isLast_parenthesis ls with ⟨-, hm⟩ | ⟨j, hi, hj, hlater⟩
  · simp [hls] at hm
  have hle : before.length ≤ j := by
    by_contra hlt
    exact hlater before.length (by omega) (by simp [hls])
  have hopens : (ofList ls).opensRegex = .ok (takesHeadAt ls (j - 1)) := by
    have hback : (ofList ls).values.back? = some (some ")") := by
      rw [hls, ofList_concat, push_values, Array.back?_push]
      rfl
    have hseen : (ofList ls).seen ((j : Int) - 1) = some (ls[j - 1]?.bind Lexeme.word?) := by
      have hlt := (List.getElem?_eq_some_iff.mp hj).1
      have hpos : ¬ (j : Int) - 1 < 0 := by omega
      have hget : ls[j - 1]? = some ls[j - 1] := List.getElem?_eq_getElem (by omega)
      simp [seen, hpos, values_ofList, hget]
    unfold opensRegex
    rw [hback]
    simp only [at?_eq, hi, hseen, takesHeadAt]
    cases ls[j - 1]?.bind Lexeme.word? <;> rfl
  refine ⟨j, hle, hj, hlater, hopens, ?_⟩
  rw [hopens]
  simp

/-- A call in the head of a loop. -/
theorem opensRegex_closed_iff_call :
    let ls : List Lexeme := [.keyword "while", .punctuator "(", .identifier [0x61], .punctuator "(", .punctuator ")",
      .punctuator ")"]
    ClosesAt ls 1 ∧ ∃ j, 1 ≤ j ∧ (ofList ls).opensRegex = .ok (takesHeadAt ls (j - 1)) := by
  intro ls
  have h : ClosesAt ls 1 := ⟨[.keyword "while"], [.identifier [0x61], .punctuator "(", .punctuator ")"], rfl, rfl, rfl⟩
  obtain ⟨j, hj, -, -, ho, -⟩ := opensRegex_closed_iff (Nat.le_refl 1) h
  exact ⟨h, j, hj, ho⟩

/-- In `if ((a))` the word before the partner takes a head, but a slash after it opens no regular expression. -/
theorem opensRegex_nested : ¬ ∀ ls k, Balanced ls → 1 ≤ k → ClosesAt ls k →
    ((ofList ls).opensRegex = .ok true ↔ takesHeadAt ls (k - 1) = true) := by
  intro h
  let inside : List Lexeme := [.punctuator "(", .identifier [0x61], .punctuator ")"]
  let ls : List Lexeme := .keyword "if" :: .punctuator "(" :: inside ++ [.punctuator ")"]
  have hif := h ls 1 rfl (Nat.le_refl 1) ⟨[.keyword "if"], inside, rfl, rfl, rfl⟩
  cases hif.mpr rfl

end History

end ScriptTree
