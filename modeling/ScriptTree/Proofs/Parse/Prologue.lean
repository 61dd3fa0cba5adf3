import ScriptTree.Proofs.Parse.Context.Program

/-! # Directives

A program and the body of a function start with directives. These are read one after the other (`Openings`), and
the code after them is strict if one of them tells so. A statement that is an empty string is no directive: it ends
the directives, whatever strings come after it (`prologue_strict_iff`). -/

namespace ScriptTree

def Node.isDirective (n : Node) : Bool :=
  match n.shape with
  | .directive .. => true
  | _ => false

namespace Parse

/-- Statements that are read one after the other from where a string is ahead, each with that string. What may be
done between two of them does not move the scan. -/
inductive Openings (env : Env) (g : Grammar) (s : State) : List (Token × Node) → State → Prop
  | none : Openings env g s [] s
  | still {l : List (Token × Node)} {u v : State} : Openings env g s l u → v.lookahead = u.lookahead →
      v.cursor.toPlace = u.cursor.toPlace → Openings env g s l v
  | read {l : List (Token × Node)} {u v : State} {n : Node} : Openings env g s l u →
      u.lookahead.lexeme.kindName = "String" → Returns (directive g) env u n v →
      Openings env g s (l ++ [(u.lookahead, n)]) v

variable {env : Env} {g : Grammar} {s s' u v : State} {n : Node} {ns : List Node} {l : List (Token × Node)}

/-- A statement is a directive if it is the string that it starts with, and not an empty one. -/
def Says (src : Source) (x : Token × Node) : Prop :=
  ∃ e : Node, x.2.shape = if e.isLiteral && !(src.quoted x.1).isEmpty then .directive e (src.quoted x.1)
    else .expressionStatement e

/-- The statement is a directive for strict code. -/
def Hardening (src : Source) (x : Token × Node) : Prop :=
  x.2.isDirective = true ∧ src.quoted x.1 = Text.ofString "use strict"

/-- The directives that have been read. -/
structure Prefaced (env : Env) (g : Grammar) (s : State) (l : List (Token × Node)) (u : State) : Prop where
  reads : Openings env g s l u
  directives : ∀ x ∈ l, x.2.isDirective = true
  strict : u.context.strict = true ↔ s.context.strict = true ∨ ∃ x ∈ l, Hardening env.source x

theorem Openings.says (h : Openings env g s l u) : ∀ x ∈ l, Says env.source x := by
  induction h with
  | none => simp
  | still _ _ _ ih => exact ih
  | read _ _ hd ih =>
    intro x hx
    rcases List.mem_append.mp hx with hx | hx
    · exact ih x hx
    · rw [List.mem_singleton.mp hx]
      exact Steps.directive_says hd

instance (t : Token) (m : Option Message) : Keeps env (Prefaced env g s l) (complainToken t m) where
  leads u _ v hu h := by
    obtain ⟨x, w, h₁, h₂⟩ := Returns.bind h
    obtain rfl := Inspects.eq h₁
    obtain ⟨d, hd, rfl⟩ := returns_scan.mp h₂
    obtain ⟨-, rfl⟩ := Scan.returns_tolerate.mp hd
    exact ⟨hu.reads.still rfl rfl, hu.directives, hu.strict⟩

instance : Keeps env (Prefaced env g s l) context where
  leads u _ v hu h := by
    obtain rfl := Inspects.eq h
    exact hu

/-- The statement that is no directive ends the directives. -/
structure Ended (env : Env) (g : Grammar) (s : State) (l : List (Token × Node)) (u : State) : Prop where
  reads : Openings env g s l u
  directives : ∀ x ∈ l.dropLast, x.2.isDirective = true
  stops : (∀ x ∈ l, x.2.isDirective = true) → u.lookahead.lexeme.kindName ≠ "String"
  strict : u.context.strict = true ↔ s.context.strict = true ∨ ∃ x ∈ l, Hardening env.source x

variable [Restoring env g]

/-- Directives are read as long as there are any. -/
theorem prologue_ended : Leads env (· = s) (prologue g) fun ns u => ∃ l, Ended env g s l u ∧ l.map Prod.snd = ns := by
  let I (found : List Node) (u : State) := ∃ l, Prefaced env g s l u ∧ l.map Prod.snd = found.reverse
  let Q (found : List Node) (u : State) := ∃ l, Ended env g s l u ∧ l.map Prod.snd = found.reverse
  refine .loops (Q := Q) (fun x => I x.1) ?_ ?_ fun found => .pure
  · rintro _ rfl
    exact ⟨[], ⟨.none, by simp, by simp⟩, rfl⟩
  rintro ⟨found, octal⟩ u r v ⟨l, hl, hfound⟩ h
  replace h := Returns.first h rfl
  dsimp only at h
  split at h
  · next value octal' hstring =>
    have hk : u.lookahead.lexeme.kindName = "String" := by rw [hstring]; rfl
    obtain ⟨n, w, hd, h⟩ := h.bind
    have hread := hl.reads.read hk hd
    have hsame : w.context.strict = u.context.strict := (Restores.since hd).strict
    have hmap : (l ++ [(u.lookahead, n)]).map Prod.snd = (n :: found).reverse := by simp [hfound]
    obtain ⟨e, hsays⟩ := Steps.directive_says hd
    split at h
    · next e' text hshape =>
      have hdirective : n.isDirective = true := by simp [Node.isDirective, hshape]
      have htext : text = env.source.quoted u.lookahead := by
        rw [hshape] at hsays
        split at hsays <;> cases hsays
        rfl
      have hall : ∀ x ∈ l ++ [(u.lookahead, n)], x.2.isDirective = true := by
        simpa [or_imp, forall_and, hdirective] using hl.directives
      rcases h.ite with ⟨hstrict, h⟩ | ⟨hstrict, h⟩
      · have htold : Hardening env.source (u.lookahead, n) := ⟨hdirective, htext ▸ beq_iff_eq.mp hstrict⟩
        have hnow : Prefaced env g s (l ++ [(u.lookahead, n)]) { w with context := { w.context with strict := true } } :=
          ⟨hread.still rfl rfl, hall, by simp [htold]⟩
        replace h := Returns.first h rfl
        refine (?rest : Leads env (Prefaced env g s (l ++ [(u.lookahead, n)])) _
          fun r v => r.Satisfies (fun x => I x.1 v) (Q · v)) _ r v hnow h
        cases octal with
        | none => exact .past <| .pastIf <| .pure fun _ h => ⟨_, h, hmap⟩
        | some t => exact .past <| .past <| .pastIf <| .pure fun _ h => ⟨_, h, hmap⟩
      · obtain ⟨rfl, rfl⟩ := h.ended
        have hnot : ¬ Hardening env.source (u.lookahead, n) := fun hh => hstrict (beq_iff_eq.mpr (htext.trans hh.2))
        exact ⟨_, ⟨hread, hall, by simp [hsame, hl.strict, or_and_right, exists_or, hnot]⟩, hmap⟩
    · next hshape =>
      obtain ⟨rfl, rfl⟩ := h.ended
      have hdirective : n.isDirective = false := by
        unfold Node.isDirective
        split
        · exact (hshape _ _ ‹_›).elim
        · rfl
      refine ⟨_, ⟨hread, by simpa using hl.directives, fun hall => ?_, ?_⟩, hmap⟩
      · have := hall (u.lookahead, n) (by simp)
        simp [hdirective] at this
      · simp [hsame, hl.strict, or_and_right, exists_or, Hardening, hdirective]
  · next hstring =>
    obtain ⟨rfl, rfl⟩ := h.ended
    refine ⟨l, ⟨hl.reads, fun x hx => hl.directives x (List.dropLast_subset _ hx), fun _ hk => ?_, hl.strict⟩, hfound⟩
    cases hx : v.lookahead.lexeme <;> simp_all [Lexeme.kindName]

/-- At the start of a program or of the body of a function, statements that start with a string are read up to the
first that is no directive. The code after them is strict if it was before or if one of them is a directive whose
string, as it is written between its quotes, tells so. -/
theorem prologue_strict_iff {k : Nat} (h : Returns (prologue (grammar k)) env s ns s') :
    ∃ l, Openings env (grammar k) s l s' ∧ l.map Prod.snd = ns ∧ (∀ x ∈ l, Says env.source x) ∧
      (∀ x ∈ l.dropLast, x.2.isDirective = true) ∧
      ((∀ x ∈ l, x.2.isDirective = true) → s'.lookahead.lexeme.kindName ≠ "String") ∧
      (s'.context.strict = true ↔ s.context.strict = true ∨ ∃ x ∈ l, Hardening env.source x) := by
  obtain ⟨l, hl, hns⟩ := prologue_ended s ns s' rfl h
  exact ⟨l, hl.reads, hns, hl.reads.says, hl.directives, hl.stops, hl.strict⟩

/-- The second of two directives makes the rest of a program strict. -/
theorem prologue_strict_iff_second :
    let t := Text.ofString "'a'; \"use strict\"; b"
    let env : Env := ⟨.ofText t, {}⟩
    ∃ ns s', Returns (prologue (grammar 40)) env (.opened t {}) ns s' ∧ ns.length = 2 ∧ s'.context.strict = true ∧
      ∃ l, Openings env (grammar 40) (.opened t {}) l s' ∧ l.map Prod.snd = ns ∧
        ∃ x ∈ l, Hardening env.source x := by
  intro t env
  have hopened : (State.opened t {}).context.strict = false := by decide
  obtain ⟨ns, s', h, hs'⟩ := exists_returns (p := prologue (grammar 40)) (r := env) (s := .opened t {})
    (q := fun ns s' => ns.length == 2 && s'.context.strict) (by decide +kernel)
  simp only [Bool.and_eq_true, beq_iff_eq] at hs'
  obtain ⟨l, hl, hns, -, -, -, hstrict⟩ := prologue_strict_iff h
  rw [hopened] at hstrict
  exact ⟨ns, s', h, hs'.1, hs'.2, l, hl, hns, (hstrict.mp hs'.2).resolve_left Bool.false_ne_true⟩

end Parse

/-- The empty string ends the directives, so the one after it does not make the code strict, and the program is not
rejected. Without the empty string it is. -/
theorem parse_strict_after_empty :
    failure? (parse (Text.ofString "''; 'use strict'; with (a) \x7b\x7d")) = none ∧
      failure? (parse (Text.ofString "' '; 'use strict'; with (a) \x7b\x7d")) =
        some (.rejected ⟨18, 1, 19, Text.ofString "Strict mode code may not include a with statement"⟩) := by
  constructor <;> decide +kernel

end ScriptTree
