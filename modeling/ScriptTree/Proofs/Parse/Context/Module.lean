import ScriptTree.Proofs.Parse.Context.Statement

/-! # Imports, exports and items restore the context -/

namespace ScriptTree.Parse

open Parts

variable {α : Type} {env : Env} {g : Grammar} [Restoring env g] {c : Context}

namespace Restores

instance : Restores env moduleSpecifier := .routine

instance : Restores env fromClause := .routine

instance : Restores env importSpecifier := .routine

instance [Leaves α] (p : Parse α) [Restores env p] : Restores env (inBraces p) := .routine

instance : Restores env importDefault := .routine

instance : Restores env importNamespace := .routine

instance : Restores env importSpecifiers := .routine

instance : Restores env importDeclaration := .routine

instance : Restores env exportSpecifier := .routine

instance : Restores env exportDefaultSpecifier := .routine

instance : Restores env (exportDefault g) := .routine

instance (word : String) : Restores env (exportedDeclaration g word) := by
  refine .of_leads fun c => .fork .left <| .fork .left .fails

instance (start : Mark) : Restores env (exportNames start) := .routine

instance : Restores env (exportDeclaration g) := .routine

instance : Restores env (item g) := by
  have hflags : Neutral (setContext fun c => { c with isTarget := true, isBinding := true }) :=
    Neutral.of_setContext fun _ => { Same.refl _ with }
  refine .after fun c => .keeps fun _ => ?_
  split
  · exact .past <| .pastIf .left
  · refine .past <| .fork .left <| .past <| .pastIf .left
  · exact .left
  · exact .left
  · exact .left
  · exact .past .left
  · exact .left

end Restores

end ScriptTree.Parse
