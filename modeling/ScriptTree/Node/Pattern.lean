import ScriptTree.Node.Basic

/-!
Patterns: expressions that turn out to be patterns, and the names that a pattern binds.
-/

namespace ScriptTree.Node

mutual

/-- An expression as a pattern. What has no form of a pattern stays as it is. -/
def asPattern : Node → Node
  | ⟨info, .spreadElement argument⟩ =>
    ⟨{ info with cover := some .spread }, .restElement (asPattern argument)⟩
  | ⟨info, .arrayExpression elements⟩ =>
    ⟨{ info with cover := some .array }, .arrayPattern (asPatterns elements)⟩
  | ⟨info, .objectExpression properties⟩ =>
    ⟨{ info with cover := some .object }, .objectPattern (asPatternProperties properties)⟩
  | ⟨info, .assignmentExpression _ left right⟩ =>
    ⟨{ info with cover := some .assignment }, .assignmentPattern (asPattern left) right⟩
  | n => n

def asPatterns : List (Option Node) → List (Option Node)
  | [] => []
  | none :: rest => none :: asPatterns rest
  | some n :: rest => some (asPattern n) :: asPatterns rest

def asPatternProperties : List Node → List Node
  | [] => []
  | ⟨info, .spreadElement argument⟩ :: rest =>
    ⟨{ info with cover := some .spread }, .restElement (asPattern argument)⟩ :: asPatternProperties rest
  | ⟨info, .property kind key computed value method shorthand⟩ :: rest =>
    ⟨info, .property kind key computed (asPattern value) method shorthand⟩ :: asPatternProperties rest
  | n :: rest => n :: asPatternProperties rest

end

mutual

/-- The names that a pattern binds, in their order. -/
def boundNames : Node → List Text
  | ⟨_, .identifier name⟩ => [name]
  | ⟨_, .restElement argument⟩ => boundNames argument
  | ⟨_, .assignmentPattern left _⟩ => boundNames left
  | ⟨_, .arrayPattern elements⟩ => boundNamesOfElements elements
  | ⟨_, .objectPattern properties⟩ => boundNamesOfProperties properties
  | _ => []

def boundNamesOfElements : List (Option Node) → List Text
  | [] => []
  | none :: rest => boundNamesOfElements rest
  | some n :: rest => boundNames n ++ boundNamesOfElements rest

def boundNamesOfProperties : List Node → List Text
  | [] => []
  | ⟨_, .restElement argument⟩ :: rest => boundNames argument ++ boundNamesOfProperties rest
  | ⟨_, .property _ _ _ value _ _⟩ :: rest => boundNames value ++ boundNamesOfProperties rest
  | _ :: rest => boundNamesOfProperties rest

end

def yieldAsName (n : Node) : Node := ⟨{ n.info with cover := some .yield }, .identifier "yield"⟩

end ScriptTree.Node
