import ScriptTree.Proofs.Parse.Ends.Statement

/-! # How imports and exports end -/

namespace ScriptTree.Parse

variable {env : Env} {n k : Nat} {g g' : Grammar} [Serves env n g g']

instance : Trails env n moduleSpecifier moduleSpecifier := .routine

instance : Trails env n fromClause fromClause := .routine

instance : Fronts env n 0 importSpecifier importSpecifier := .routine

instance {α : Type} [Knowable α] (item : Parse α) [h : Fronts env n k item item] :
    Fronts env n 0 (inBraces item) (inBraces item) where
  advances lo := by
    have hk := h.le
    refine .first fun _ => .gathers (fun lo => .first (fun _ _ => ?_) hk) fun _ => .on .result
    exact .past <| .goUnless .result

instance : Fronts env n 0 importDefault importDefault := .routine

instance : Fronts env n 0 importNamespace importNamespace := .routine

instance : Trails env n importSpecifiers importSpecifiers := .routine

instance : Fronts env n 0 importDeclaration importDeclaration := .routine

instance : Fronts env n 0 exportSpecifier exportSpecifier := .routine

instance : Fronts env n 0 exportDefaultSpecifier exportDefaultSpecifier := .routine

instance : Trails env n (exportDefault g) (exportDefault g') := .routine

theorem exportedDeclaration_ends {lo : Nat} {t : Token} {word : String} (ht : t.lexeme = .keyword word) :
    Ends env (Sights env n 8 lo t) (exportedDeclaration g word) (exportedDeclaration g' word)
      (Read env (Front env n) lo) := by
  refine .ite (fun h => .settle (lexicalDeclaration_ends ?_)) fun _ => .front <| .fork .last .fails
  rw [ht]
  rcases Bool.or_eq_true_iff.mp h with h | h
  · rw [beq_iff_eq.mp h]
    nofun
  · rw [beq_iff_eq.mp h]
    nofun

instance (start : Mark) : Trails env n (exportNames start) (exportNames start) := .routine

instance : Fronts env n 0 (exportDeclaration g) (exportDeclaration g') := by
  refine .of fun lo => .past <| .stayIf <| .past <| .first fun _ => .look fun t _ => .ask ?_
  split
  · exact .front <| .on <| .on .last
  · exact .front <| .on <| .on <| .on .last
  next h => exact .bind (exportedDeclaration_ends h) fun _ => .fact fun _ => .last
  · exact .front <| .past <| .fork (.on .last) .last

instance : Fronts env n 5 (item g) (item g') := by
  refine .of fun lo => .sets <| .look fun t _ => .ask ?_
  split
  · exact .front <| .past <| .stayIf .only
  · exact .front <| .past <| .fork .only <| .past <| .stayIf .only
  next h => exact lexicalDeclaration_ends (by rw [h]; nofun)
  · exact .only
  · exact .only
  next h => exact .past <| .fork (lexicalDeclaration_ends (by rw [h]; nofun)) .only
  · exact .only

end ScriptTree.Parse
