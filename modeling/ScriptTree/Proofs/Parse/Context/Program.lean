import ScriptTree.Proofs.Parse.Context.Expression
import ScriptTree.Proofs.Parse.Context.Module

/-! # The grammar as a whole restores the context

Main results: after a statement, a declaration or an expression the context is as before
(`context_restored`), but for the permission for yields, which a getter outside of functions takes away
(`yield_permission_after`). -/

namespace ScriptTree.Parse

/-- Rules nested to any depth restore the context. -/
instance grammar_restoring (env : Env) (n : Nat) : Restoring env (grammar n) := by
  induction n with
  | zero =>
    constructor <;> intros <;> exact ⟨fun h => absurd h returns_throw⟩
  | succ n ih => constructor <;> intros <;> simp only [grammar_succ] <;> infer_instance

variable {n : Nat} {env : Env} {s s' : State} {a : Node} {p : Parse Node}

/-- Whatever state a statement, a declaration or an expression starts from, all of the context but the flags
of what was read last and the permission for yields is as before when it has been read: strictness, the
permissions, what the code is inside of, and the labels. -/
theorem context_restored
    (hp : p ∈ [item (grammar n), statement (grammar n), expression (grammar n), assignment (grammar n)])
    (h : Returns p env s a s') : Kept s.context s'.context := by
  have hrestores : Restores env p := by
    simp only [List.mem_cons, List.not_mem_nil, or_false] at hp
    rcases hp with rfl | rfl | rfl | rfl <;> infer_instance
  exact (hrestores.since h).toKept

/-- The state after a first token has been looked at. -/
def State.opened (t : Text) (c : Context) : State :=
  let source := Source.ofText t
  match skip ⟨source, {}⟩ { State.start source with context := c } with
  | .ok _ s | .error _ s => s

/-- A label, a loop and a switch around strict code, in code that is itself inside of others. -/
theorem context_restored_label :
    let t := Text.ofString "a: for (const b of function () \x7b 'use strict' \x7d) switch (c) \x7b default: break a \x7d"
    let c : Context := { allowIn := false, inIteration := true, labels := [Text.ofString "z"] }
    ∃ n s', Returns (item (grammar 40)) ⟨Source.ofText t, {}⟩ (.opened t c) n s' ∧ Kept c s'.context := by
  intro t c
  have hopened : (State.opened t c).context = c := by decide +kernel
  obtain ⟨n, s', h, -⟩ := exists_returns (p := item (grammar 40)) (r := ⟨Source.ofText t, {}⟩) (s := .opened t c)
    (q := fun _ _ => true) (by decide +kernel)
  have hkept := context_restored (n := 40) (List.mem_cons_self ..) h
  rw [hopened] at hkept
  exact ⟨n, s', h, hkept⟩

/-- After a statement, a declaration or an expression the permission for yields is as before, if the tree shows
no getter that takes it away and hides nothing. After such a getter it is gone, and it never comes into
being. -/
theorem yield_permission_after (hp : p ∈ [item (grammar n), assignment (grammar n)])
    (h : Returns p env s a s') :
    (a.residue = ∅ → s'.context.allowYield = s.context.allowYield) ∧
      (a.residue.getter = true → s'.context.allowYield = false) ∧
      (s'.context.allowYield = true → s.context.allowYield = true) := by
  have hrestores : Restores env p := by
    simp only [List.mem_cons, List.not_mem_nil, or_false] at hp
    rcases hp with rfl | rfl <;> infer_instance
  have hpermits := (hrestores.since h).allowYield
  exact ⟨hpermits.kept, hpermits.taken, hpermits.mono⟩

/-- A setter, a generator and a getter inside of a function leave the permission as it is. -/
theorem yield_permission_after_setter :
    let t := Text.ofString "f(\x7bset a(b) \x7b \x7d, *c() \x7b yield \x7d, d: function () \x7b return \x7bget e() \x7b \x7d\x7d \x7d\x7d)"
    ∃ n s', Returns (item (grammar 40)) ⟨Source.ofText t, {}⟩ (.opened t {}) n s' ∧ n.residue = ∅ ∧
      s'.context.allowYield = true := by
  intro t
  have hopened : (State.opened t {}).context.allowYield = true := by decide +kernel
  obtain ⟨n, s', h, hresidue⟩ := exists_returns (p := item (grammar 40)) (r := ⟨Source.ofText t, {}⟩)
    (s := .opened t {}) (q := fun n _ => decide (n.residue = ∅)) (by decide +kernel)
  have hnone : n.residue = ∅ := of_decide_eq_true hresidue
  have hsame := (yield_permission_after (n := 40) (List.mem_cons_self ..) h).1 hnone
  exact ⟨n, s', h, hnone, hsame.trans hopened⟩

end Parse

/-- The types of the expressions that the statements of a program consist of. -/
def Program.expressionTypes (p : Program) : List String :=
  p.body.flatMap fun statement => statement.shape.children.map (·.shape.typeName)

/-- After a getter a name that may be one elsewhere is read as a yield expression. After a setter it is not. -/
theorem parse_yield_after_getter :
    (parse (Text.ofString "(\x7bget a() \x7b \x7d\x7d); yield;")).toOption.map Program.expressionTypes =
        some ["ObjectExpression", "YieldExpression"] ∧
      (parse (Text.ofString "(\x7bset a(b) \x7b \x7d\x7d); yield;")).toOption.map Program.expressionTypes =
        some ["ObjectExpression", "Identifier"] := by
  constructor <;> decide +kernel

end ScriptTree
