import ScriptTree.Proofs.Parse.Mirror.Expression
import ScriptTree.Proofs.Parse.Mirror.Module

/-! # Whole programs on two sides -/

namespace ScriptTree

namespace Parse

variable {K : Comparison}

instance grammar_mirroring [K.Lawful] (n : Nat) : Mirroring K (grammar n) := by
  induction n with
  | zero =>
    have hempty {α : Type} [Relabels α] : Mirrored K (throw .exhausted : Parse α) :=
      inferInstance
    constructor <;> intros <;> exact hempty
  | succ n ih => constructor <;> intros <;> simp only [grammar_succ] <;> infer_instance

theorem program_mirrors [K.Lawful] (g : Grammar) [Mirroring K g] : Mirrored K (program g) := by
  refine .past <| .step fun last => .changes {} fun _ => ?_
  refine .ofOptions ?_
  rw [Comparison.Fair.isModule]
  refine .guard fun _ => .step fun start => .bind fun directives => ?_
  refine .andThen (.until' inferInstance inferInstance) fun items => .finish ?_
  exact congrArg (Shape.program _) (relabel_append ..).symm

/-- The scan finds comments whether they are asked for or not. -/
theorem takeComments_eq : takeComments = (do
    let found ← scan do Scan.blanks (← Scan.ahead) ((← Scan.index) == 0)
    let o ← options
    for c in if o.comments || o.attach then found else [] do takeComment c) := by
  let found : Scan (List Comment) := do Scan.blanks (← Scan.ahead) ((← Scan.index) == 0)
  have hcomments : Scan.comments = found >>= fun found => do return if (← read).comments then found else [] := by
    simp only [Scan.comments, found, bind_assoc]
  have hscan : scan Scan.comments = (do
      let found ← scan found
      let o ← options
      return if o.comments || o.attach then found else []) := by
    funext env s
    cases h : found (settings env s) s.cursor with
    | error e c =>
      rw [bind_error _ (scan_error h)]
      refine scan_error ?_
      rw [hcomments]
      exact bind_error _ h
    | ok a c =>
      rw [bind_ok _ (returns_scan.mpr ⟨c, h, rfl⟩)]
      refine returns_scan.mpr ⟨c, ?_, rfl⟩
      rw [hcomments]
      exact returns_bind.mpr ⟨a, c, h, rfl⟩
  unfold takeComments
  rw [hscan]
  simp only [bind_assoc, pure_bind, found]

end Parse

/-- The program of a run that returned a tree. -/
def Program.ofRun (o : Parse.Options) (root : Node) (s : Parse.State) : Program where
  root := if o.attach then root.annotate s.attachment.remarksOf else root
  source := o.source
  comments := if o.comments then some s.remarks.toList else none
  tokens := if o.tokens then some s.tokens.toList else none
  errors := if o.tolerant then some s.cursor.errors else none
  log := s.log.toList

/-- What the rules come to on a whole text. -/
def Parse.outcome (t : Text) (o : Parse.Options) : EStateM.Result Failure Parse.State Node :=
  Parse.program (Parse.grammar (Parse.depth (.ofText t))) ⟨.ofText t, o⟩ (.start (.ofText t))

theorem parse_eq (t : Text) (o : Parse.Options) : parse t o = match Parse.outcome t o with
      | .error e _ => .error e
      | .ok root s => .ok (.ofRun o root s) := rfl

theorem parse_eq_ok_iff {t : Text} {o : Parse.Options} {p : Program} :
    parse t o = .ok p ↔ ∃ root s, Parse.outcome t o = .ok root s ∧ p = .ofRun o root s := by
  rw [parse_eq]
  cases Parse.outcome t o with
  | error e s => simp
  | ok root s =>
    constructor
    · intro h
      exact ⟨root, s, rfl, (Except.ok.inj h).symm⟩
    · rintro ⟨_, _, h, rfl⟩
      cases h
      rfl

end ScriptTree
