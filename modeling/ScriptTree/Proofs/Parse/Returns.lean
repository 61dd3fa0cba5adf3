import ScriptTree.Parse.Knot
import ScriptTree.Proofs.Returns

/-! # Runs of a parse

How a rule uses the scan below it. -/

namespace ScriptTree

namespace Parse

variable {α β : Type} {env : Env} {s s' : State}

/-- What the scan below a state is about. -/
def settings (env : Env) (s : State) : Scan.Settings :=
  { source := env.source
    tolerant := env.options.tolerant
    comments := env.options.comments || env.options.attach
    isModule := s.context.isModule }

/-- How a step ends after the scan below it. -/
def scanned (s : State) : EStateM.Result Failure Scan.Cursor α → EStateM.Result Failure State α
  | .ok a c => .ok a { s with cursor := c }
  | .error e c => .error e { s with cursor := c }

theorem scan_eq (p : Scan α) : scan p env s = scanned s (p (settings env s) s.cursor) := rfl

theorem returns_scan {p : Scan α} {a : α} : Returns (scan p) env s a s' ↔
      ∃ d, Returns p (settings env s) s.cursor a d ∧ s' = { s with cursor := d } := by
  unfold Returns
  rw [scan_eq]
  cases h : p (settings env s) s.cursor with
  | ok b c => simp [scanned, eq_comm, and_assoc]
  | error e c => simp [scanned]

/-- The members of a grammar are the rules over the one below it. -/
theorem grammar_succ (n : Nat) : grammar (n + 1) =
    { assignment := assignment (grammar n), unary := unary (grammar n), power := power (grammar n)
      call := call (grammar n), callee := callee (grammar n), pattern := pattern (grammar n)
      statement := statement (grammar n), item := item (grammar n), element := element (grammar n) } := rfl

end Parse

end ScriptTree
