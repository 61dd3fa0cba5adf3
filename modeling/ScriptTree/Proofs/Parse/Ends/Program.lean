import ScriptTree.Proofs.Parse.Ends.Expression
import ScriptTree.Proofs.Parse.Ends.Module
import ScriptTree.Proofs.Parse.Mirror.Program

/-! # How whole programs end

A rule of rank `k` over rules nested to a depth is a member of rank `k + 1` over rules nested one deeper. So
by induction on the depth two grammars come to the same wherever the smaller of them is deep enough, and a
program never needs more than eight rules for each of its characters. -/

namespace ScriptTree

namespace Parse

variable {e : Failure} {env : Env} {n k lo : Nat} {s : State}

section

variable {α : Type} [Knowable α]

theorem Front.shallow (h : Front env (n + 1) (k + 1) lo s) : Front env n k lo s :=
  ⟨h.toPoised, h.lower, by have := h.room; omega⟩

theorem Front.deep (h : Front env n k lo s) : Front env (n + 1) k lo s :=
  ⟨h.toPoised, h.lower, Nat.le_succ_of_le h.room⟩

theorem Tag.shallow (h : Tag env (n + 1) (k + 1) lo s) : Tag env n k lo s :=
  ⟨h.toTagged, h.lower, by have := h.room; omega⟩

theorem Tag.deep (h : Tag env n k lo s) : Tag env (n + 1) k lo s :=
  ⟨h.toTagged, h.lower, Nat.le_succ_of_le h.room⟩

/-- A rule becomes a member of a grammar. -/
theorem Ends.nest (p p' : Parse α) [h : Fronts env n k p p'] (lo : Nat) :
    Ends env (Front env (n + 1) (k + 1) lo) p p' (Read env (Front env (n + 1)) (lo + 1)) :=
  .conclude (.weaken (fun _ => Front.shallow) (h.advances lo)) fun _ _ hs => ⟨hs.1.deep, hs.2⟩

end

theorem grammar_add_succ (n d : Nat) : grammar (n + 1 + d) = .over fun _ => grammar (n + d) := by
  rw [Nat.succ_add_eq_add_succ]
  rfl

/-- The rules of a deeper grammar come to the same as long as there is depth enough. -/
instance grammar_serves (n d : Nat) : Serves env n (grammar n) (grammar (n + d)) := by
  induction n with
  | zero =>
    -- at this depth there is no room for any member
    constructor <;> intros <;> intro s hs <;> exact absurd hs.room (by omega)
  | succ n ih =>
    rw [grammar_add_succ]
    constructor
    case call => exact .nest (call (grammar n)) (call (grammar (n + d)))
    case callee =>
      intro lo
      have h : Ends env (FrontIn env n 0 lo) (callee (grammar n)) (callee (grammar (n + d)))
          (Onwards env n lo) := callee_rule_ends
      exact .conclude (.weaken (fun _ hs => ⟨hs.toFront.shallow, hs.allowIn⟩) h) fun _ _ hs => ⟨hs.1.deep, hs.2⟩
    case pattern => exact fun kind => .nest (pattern (grammar n) kind) (pattern (grammar (n + d)) kind)
    case element =>
      intro _ lo
      have h : Ends env (Tag env n 0 lo) (element (grammar n)) (element (grammar (n + d)))
          (Read env (Tag env n) (lo + 1)) := .only
      exact .conclude (.weaken (fun _ => Tag.shallow) h) fun _ _ hs => ⟨hs.1.deep, hs.2⟩
    case unary => exact .nest (unary (grammar n)) (unary (grammar (n + d)))
    case power => exact .nest (power (grammar n)) (power (grammar (n + d)))
    case assignment => exact .nest (assignment (grammar n)) (assignment (grammar (n + d)))
    case statement => exact .nest (statement (grammar n)) (statement (grammar (n + d)))
    case item => exact .nest (item (grammar n)) (item (grammar (n + d)))

/-! ## Programs -/

theorem program_ends {g g' : Grammar} [Serves env n g g'] :
    Ends env (Tag env n 8 0) (program g) (program g') (Read env (Front env n) 0) := by
  refine .resumes <| .stay fun last => .past <| .options ?_
  extract_lets isModule rest rest'
  have hrest : Ends env (Front env n 8 0) (rest ()) (rest' ()) (Read env (Front env n) 0) :=
    .past <| .on <| .on .last
  exact .fork (.sets hrest) hrest

theorem start_tag (h : 8 * env.source.length + 8 ≤ n) : Tag env n 8 0 (.start env.source) where
  bound := Nat.zero_le _
  opened := nofun
  cover := ⟨inferInstanceAs (Known env (none : Option Token))⟩
  flush := by
    have hline (h : env.source.OneLine) : (Scan.start env.source).line = 1 := if_pos h.pos
    have hmark : Known env (⟨0, (Scan.start env.source).line, 0⟩ : Mark) := ⟨fun h => ⟨Nat.zero_le _, hline h, rfl⟩⟩
    exact ⟨fun h => ⟨Nat.zero_le _, hline h, rfl, nofun⟩, hmark, hmark⟩
  lower := Nat.zero_le _
  room := h

/-- What the rules come to on a whole text if they may nest to a depth. -/
def outcomeTo (n : Nat) (t : Text) (o : Options) : EStateM.Result Failure State Node :=
  program (grammar n) ⟨.ofText t, o⟩ (.start (.ofText t))

variable {t : Text} {o : Options}

/-- Eight rules for each character, and eight for the end, are always enough. -/
theorem outcomeTo_ends (h : 8 * t.length + 8 ≤ n) (d : Nat) : outcomeTo (n + d) t o = outcomeTo n t o ∧
    (∀ e s, outcomeTo n t o = .error e s → Justified ⟨.ofText t, o⟩ e) ∧
    ∀ root s, outcomeTo n t o = .ok root s → Flush ⟨.ofText t, o⟩ s := by
  have hstart : Tag ⟨.ofText t, o⟩ n 8 0 (.start (.ofText t)) :=
    start_tag (by rw [Source.length_ofText]; exact h)
  have hends : Ends ⟨.ofText t, o⟩ (Tag ⟨.ofText t, o⟩ n 8 0) (program (grammar n)) (program (grammar (n + d)))
      (Read ⟨.ofText t, o⟩ (Front ⟨.ofText t, o⟩ n) 0) := program_ends
  obtain ⟨heq, hreturn, hraise⟩ := hends _ hstart
  exact ⟨heq, fun e s he => hraise e ⟨s, he⟩, fun root s h => (hreturn root s h).1.flush⟩

theorem le_depth (t : Text) : 8 * t.length + 8 ≤ depth (.ofText t) := by
  unfold depth
  rw [Source.length_ofText]
  omega

theorem outcomeTo_eq (h : 8 * t.length + 8 ≤ n) : outcomeTo n t o = outcome t o := by
  have hleast {m : Nat} (hm : 8 * t.length + 8 ≤ m) : outcomeTo m t o = outcomeTo (8 * t.length + 8) t o := by
    obtain ⟨d, rfl⟩ := Nat.exists_eq_add_of_le hm
    exact (outcomeTo_ends (Nat.le_refl _) d).1
  calc outcomeTo n t o
    _ = outcomeTo (8 * t.length + 8) t o := hleast h
    _ = outcomeTo (depth (.ofText t)) t o := (hleast (le_depth t)).symm

/-- A failure of a whole program is explained. -/
theorem outcome_explained {s : State} (h : outcome t o = .error e s) : Explained ⟨.ofText t, o⟩ e :=
  ((outcomeTo_ends (le_depth t) 0).2.1 e s h).explained

theorem Explained.ne_exhausted (h : Explained env e) : e ≠ .exhausted := by
  rintro rfl
  rcases h with ⟨x, h⟩ | h
  · cases h
  · cases h with
    | reference _ _ hb => rcases hb with h | h | h <;> cases h

end Parse

/-- A program with rules nested to a depth. -/
def parseTo (n : Nat) (t : Text) (o : Parse.Options) : Except Failure Program :=
  match Parse.outcomeTo n t o with
  | .error e _ => .error e
  | .ok root s => .ok (.ofRun o root s)

/-- A parse ends: from a depth on that depends on the length of the program only, it does not run out of
steps, and what it comes to does not depend on the depth any more. -/
theorem parseTo_eq_parse {n : Nat} {t : Text} {o : Parse.Options} (h : 8 * t.length + 8 ≤ n) :
    parseTo n t o = parse t o ∧ parseTo n t o ≠ .error .exhausted := by
  unfold parseTo
  rw [parse_eq, Parse.outcomeTo_eq h]
  refine ⟨rfl, ?_⟩
  cases hr : Parse.outcome t o with
  | ok root s => nofun
  | error e s =>
    intro he
    exact (Parse.outcome_explained hr).ne_exhausted (Except.error.inj he)

/-- Markup, a regular expression and a template, with the least depth that is known to be enough. -/
theorem parseTo_eq_parse_markup :
    let t := Text.ofString "<a>\x7b/b/g\x7d</a>, `$\x7bc\x7d`"
    8 * t.length + 8 ≤ 216 ∧ parseTo 216 t { jsx := true } = parse t { jsx := true } ∧
      parseTo 216 t { jsx := true } ≠ .error .exhausted :=
  ⟨by decide, parseTo_eq_parse (by decide)⟩

/-- A parse returns a program, or rejects the text, or something in the text or in the options accounts for
another failure: a substitution in a template, a delegate that renames the word for a new object, a number of
thousands of digits, a reference in markup to a character that does not exist, or comments that are put
beside nodes. -/
theorem parse_returns_or_rejects (t : Text) (o : Parse.Options) :
    (∃ p, parse t o = .ok p) ∨ (∃ x, parse t o = .error (.rejected x)) ∨
      ∃ e, parse t o = .error e ∧ Parse.Stray ⟨.ofText t, o⟩ e := by
  rw [parse_eq]
  cases hr : Parse.outcome t o with
  | ok root s => exact .inl ⟨_, rfl⟩
  | error e s =>
    rcases Parse.outcome_explained hr with ⟨x, rfl⟩ | h
    · exact .inr (.inl ⟨x, rfl⟩)
    · exact .inr (.inr ⟨e, rfl, h⟩)

/-- A substitution without an expression in it neither parses nor is rejected. -/
theorem parse_empty_substitution :
    let t := Text.ofString "`$\x7b\x7d`"
    parse t {} = .error (.broken "Template literal must start with a template head") ∧
      ¬ ((∃ p, parse t {} = .ok p) ∨ ∃ x, parse t {} = .error (.rejected x)) := by
  intro t
  have hbroken : failure? (parse t {}) = some (.broken "Template literal must start with a template head") := by
    decide +kernel
  rw [failure?_eq_some] at hbroken
  refine ⟨hbroken, ?_⟩
  rw [hbroken]
  rintro (⟨p, hp⟩ | ⟨x, hx⟩)
  · cases hp
  · cases hx

end ScriptTree
