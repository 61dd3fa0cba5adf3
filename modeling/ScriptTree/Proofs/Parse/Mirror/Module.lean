import ScriptTree.Proofs.Parse.Mirror.Statement

/-! # Imports, exports and items on two sides -/

namespace ScriptTree.Parse

variable {α : Type} {K : Comparison} [K.Lawful] {g : Grammar} [Mirroring K g]

instance : Mirrored K moduleSpecifier := .routine

instance [Relabels α] : Mirrors K (rejectMissingFrom : Parse α) rejectMissingFrom := .routine

instance : Mirrored K fromClause := .routine

instance : Mirrored K importSpecifier := .routine

instance [Relabels α] (p : Parse α) [Mirrored K p] : Mirrored K (inBraces p) := .routine

instance : Mirrored K importDefault := .routine

instance : Mirrored K importNamespace := .routine

instance : Mirrored K importSpecifiers := .routine

instance : Mirrored K importDeclaration := .routine

instance : Mirrored K exportSpecifier := .routine

instance : Mirrored K exportDefaultSpecifier := .routine

instance : Mirrored K (exportDefault g) := .routine

instance (word : String) : Mirrored K (exportedDeclaration g word) :=
  .ite inferInstance (.ite inferInstance inferInstance)

instance (start : Mark) : Mirrored K (exportNames start) := by
  refine .step fun _ => ?_
  extract_lets rest
  have hrest (first : Option Node) : Mirrors K (rest first) (rest (relabel K.labels first)) := by
    have hnone : (relabel K.labels first).isNone = first.isNone := Option.isNone_map ..
    have hsome : (relabel K.labels first).isSome = first.isSome := Option.isSome_map ..
    refine .step fun comma => ?_
    rw [hnone, hsome]
    extract_lets expectMore named listed named' listed'
    have hnamed (more : List (Node × Bool)) : Mirrors K (named more) (named' (relabel K.labels more)) := by
      have hspecifiers : (relabel K.labels first).toList ++ (relabel K.labels more).map Prod.fst =
          (first.toList ++ more.map Prod.fst).map K.labels.node := by
        cases first <;> simp [relabel]
      have hdefault : (relabel K.labels more).any Prod.snd = more.any Prod.snd := List.any_map ..
      unfold named named'
      rw [hspecifiers, hdefault]
      exact .routine
    have hlisted (u : Unit) : Mirrors K (listed u) (listed' u) := .either inferInstance (.pure) hnamed
    exact .guard hlisted
  exact .routine

instance : Mirrored K (exportDeclaration g) := .routine

instance : Mirrored K (item g) := .routine

end ScriptTree.Parse
