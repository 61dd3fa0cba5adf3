import ScriptTree.Proofs.Parse.Context.Object

/-! # Statements, imports and exports restore the context

Loops, switches and labels change what the jumps inside them may do, and undo it after their bodies. -/

namespace ScriptTree.Parse

open Parts

variable {α : Type} {env : Env} {g : Grammar} [Restoring env g] {c : Context}

namespace Restores

instance : Restores env (block g) := .routine

end Restores

instance (id : Node) : Neutral (checkVariableName id) := by
  refine Neutral.bind fun _ => ?_
  split
  · split <;> infer_instance
  · infer_instance

namespace Restores

instance (kind : DeclarationKind) (inFor : Bool) : Restores env (lexicalBinding g kind inFor) := .routine

instance (p : Parse Node) [Restores env p] : Restores env (separated p) := .routine

instance : Restores env (lexicalDeclaration g) := .routine

instance (inFor : Bool) : Restores env (variableBinding g inFor) := .routine

instance : Restores env (variableStatement g) := .routine

instance : Restores env emptyStatement := .routine

instance : Restores env (expressionStatement g) := .routine

instance (missing body : Parse α) [Neutral missing] [Neutral body] : Neutral (withBody missing body) := .bind

instance [Leaves α] (missing body : Parse α) [Restores env missing] [Restores env body] :
    Restores env (withBody missing body) := .routine

instance : Restores env missingStatement := .routine

end Restores

/-- A body that a rule without a name reads. -/
theorem Leads.bodied {β : Type} [Leaves α] {r : Residue} {missing body : Parse α} {f : α → Parse β}
    {R : β → State → Prop} (hm : Restores env missing) (hb : Restores env body)
    (hf : ∀ a, Leads env (After c (r ∪ residue a)) (f a) R) :
    Leads env (After c r) (withBody missing body >>= f) R :=
  .leaves hf

namespace Restores

instance : Restores env (branch g) := .routine

instance : Restores env (ifStatement g) := by
  refine .after fun c => .past <| .past <| .leaves fun test => ?_
  refine .bodied .routine .routine fun (consequent, alternate) => .ends ?_
  simp

instance (body : Parse Node) [Restores env body] : Restores env (loopBody body) := .routine

instance : Restores env (doWhileStatement g) := .routine

instance : Restores env (whileStatement g) := .routine

instance [Leaves α] (p : Parse α) [Restores env p] : Restores env (withoutIn p) := .routine

end Restores

instance : Leaves LoopHead where
  residue
    | .steps init test update => residue init ∪ residue test ∪ residue update
    | .over _ left right => left.residue ∪ right.residue

@[simp] theorem residue_steps (init test update : Option Node) :
    residue (LoopHead.steps init test update) = residue init ∪ residue test ∪ residue update := rfl
@[simp] theorem residue_over (isOf : Bool) (left right : Node) :
    residue (LoopHead.over isOf left right) = left.residue ∪ right.residue := rfl

section

variable {left : Node}

instance (init : Option Node) : Carries env (residue init) (loopSteps g init) := .routine

instance : Carries env left.residue (loopIn g left) := .routine

instance : Carries env left.residue (loopOf g left) := .routine

end

namespace Restores

instance : Restores env (loopVar g) := .routine

instance (kind : DeclarationKind) : Restores env (loopLexical g kind) := .routine

instance : Restores env (loopExpression g) := .routine

instance : Restores env (loopHead g) := .routine

instance : Restores env (forStatement g) := .routine

instance : Restores env jumpLabel := .routine

instance : Restores env continueStatement := .routine

instance : Restores env breakStatement := .routine

instance : Restores env (returnStatement g) := .routine

instance : Restores env (throwStatement g) := .routine

instance : Restores env (withStatement g) := .routine

instance : Restores env (switchCase g) := .routine

instance : Restores env (switchStatement g) := .routine

instance : Restores env (labelledBody g) := .routine

instance : Restores env (labelledStatement g) := .routine

end Restores

instance (names : List Token) (known : List Text) : Neutral (checkDistinct names known) := by
  induction names generalizing known with
  | nil => exact inferInstanceAs (Neutral (pure ()))
  | cons t rest ih =>
    unfold checkDistinct
    infer_instance

namespace Restores

instance : Restores env (catchClause g) := .routine

instance : Restores env (tryStatement g) := .routine

instance : Restores env debuggerStatement := .routine

instance (word : String) : Restores env (wordStatement g word) := by
  unfold wordStatement
  split <;> infer_instance

instance : Restores env (statement g) := .routine

end Restores

end ScriptTree.Parse
