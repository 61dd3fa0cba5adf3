import ScriptTree.Proofs.Parse.Nest.Expression
import ScriptTree.Proofs.Parse.Nest.Statement

/-! # Imports, exports and the grammar as a whole read nodes -/

namespace ScriptTree.Parse

variable {env : Env} [Ranged env] {g : Grammar} [Parses env g]

instance : Held (List (Node × Bool)) := ⟨fun ns => ns.map Prod.fst⟩

@[simp] theorem nodes_flagged (ns : List (Node × Bool)) : Held.nodes ns = ns.map Prod.fst := rfl

namespace Reads

instance : Reads env moduleSpecifier := .routine

instance : Reads env fromClause := .routine

instance : Reads env importSpecifier := .routine

theorem inBraces_reads {α : Type} [Held α] [Held (List α)] {item : Parse α} [Reads env item] [Steps false item]
    (hnodes : ∀ items : List α, items.flatMap Held.nodes = Held.nodes items) : Reads env (inBraces item) where
  leads _ := by
    refine .takes fun _ => .collects ⟨fun _ => ?_⟩ fun items => .keeps fun _ => ?_
    · exact .first fun _ => .past <| .pastUnless .result
    · exact .done fun h => hnodes items ▸ h.1

instance (item : Parse Node) [Reads env item] [Steps false item] : Reads env (inBraces item) := inBraces_reads flatMap_nodes

instance (item : Parse (Node × Bool)) [Reads env item] [Steps false item] : Reads env (inBraces item) :=
  inBraces_reads (flatMap_nodes_pair nodes_bool)

instance : Reads env importDefault := .routine

instance : Reads env importNamespace := .routine

instance : Reads env importSpecifiers := by
  refine ⟨fun lo => .past <| .fork (leads lo) <| .past <| .fork ?_ ?_⟩
  · exact .first fun _namespace => .result
  refine .past <| .past <| .fork ?_ <| .takes fun _ => .fails
  refine .first fun _default => .past <| .fork ?_ .result
  refine .past <| .past <| .fork ?_ ?_
  · exact .follows fun _namespace => .result
  · exact .past <| .fork (.follows fun _names => .result) .fails

instance : Reads env importDeclaration := .routine

instance : Reads env exportSpecifier := .routine

instance : Reads env exportDefaultSpecifier := .routine

instance : Reads env (exportDefault g) := .routine

instance (word : String) : Reads env (exportedDeclaration g word) := by
  unfold exportedDeclaration
  infer_instance

theorem exportNames_follows {lo : Nat} {m : Mark} (hm : Starts env lo m) :
    Leads env (Holds env lo []) (exportNames m) (Yields env lo) := by
  refine .keeps fun _ => ?_
  extract_lets rest
  have hrest first : Leads env (Holds env lo [Held.nodes first]) (rest first) (Yields env lo) := by
    refine .past <| .pastIf ?_
    extract_lets named
    have hnamed more : Leads env (Holds env lo [Held.nodes first ++ Held.nodes more]) (named more) (Yields env lo) := by
      refine .past <| .fork ?_ <| .fork .fails ?_
      · refine .reads fun _source => .keeps fun _ => ?_
        exact .finish hm fun ⟨hsource, h, _⟩ => ⟨.nil, h, hsource, trivial⟩
      · exact .past <| .finish hm fun h => ⟨.nil, h.1, .nil, trivial⟩
    exact .fork (.follows hnamed) <| .pure_bind (.followsNone (hnamed []))
  exact .fork (.reads hrest) <| .pure_bind (.empty (hrest none))

instance : Reads env (exportDeclaration g) := by
  refine ⟨fun _ => .past <| .when <| .mark fun _ hm => .takes fun _ => .keeps fun _ => ?_⟩
  split
  · exact .past <| .reads fun _declaration => .finish hm id
  · exact .past <| .reads fun _source => .past <| .finish hm id
  · exact .reads fun _declaration => .finish hm fun h => ⟨h.1, .nil, .nil, trivial⟩
  · refine .past <| .fork ?_ <| exportNames_follows hm
    exact .reads fun _declaration => .finish hm fun h => ⟨h.1, .nil, .nil, trivial⟩

instance : Reads env (item g) := .routine

end Reads

/-- Rules nested to any depth read nodes. -/
instance grammar_parses (n : Nat) : Parses env (grammar n) := by
  induction n with
  | zero =>
    constructor <;> intros <;> exact inferInstanceAs (Reads env (throw Failure.exhausted))
  | succ n ih => constructor <;> intros <;> simp only [grammar_succ] <;> infer_instance

end ScriptTree.Parse
