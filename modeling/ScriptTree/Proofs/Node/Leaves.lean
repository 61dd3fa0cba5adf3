import ScriptTree.Proofs.Node.Scope

/-! # Leaves of patterns

A pattern takes a value apart down to its leaves (`Node.leaves`), and it is the leaves that are assigned to
or bound. An expression that may turn out to be a pattern is judged by the leaves of that pattern
(`Node.AllTargets`), which are those of the parts of the expression. -/

namespace ScriptTree

namespace Shape

variable {α β : Type}

def isName : Shape α → Bool
  | .identifier _ => true
  | _ => false

/-- What a value can be assigned to. -/
def isReference : Shape α → Bool
  | .identifier _ | .memberExpression .. => true
  | _ => false

/-- Expressions that pass for names, as nothing is noted against them when they are read. -/
def isLoose : Shape α → Bool
  | .templateLiteral .. | .taggedTemplate .. | .metaProperty .. | .awaitExpression _ | .yieldExpression ..
  | .functionExpression .. | .classExpression .. | .arrowFunction _ _ _ false | .jsxElement .. => true
  | _ => false

def passesAsTarget (s : Shape α) : Bool := s.isReference || s.isLoose

def passesAsName (s : Shape α) : Bool := s.isName || s.isLoose

/-- Expressions that become patterns. -/
def isCover : Shape α → Bool
  | .spreadElement _ | .arrayExpression _ | .objectExpression _ | .assignmentExpression .. => true
  | _ => false

/-- Patterns that have parts of their own. -/
def isPattern : Shape α → Bool
  | .restElement _ | .assignmentPattern .. | .arrayPattern _ | .objectPattern _ => true
  | _ => false

/-- Members of an object that is an expression. -/
def isMember : Shape α → Bool
  | .spreadElement _ | .property .. => true
  | _ => false

theorem passesAsName_of_isName {s : Shape α} (h : s.isName = true) : s.passesAsName = true := by
  rw [passesAsName, h, Bool.true_or]

theorem passesAsTarget_of_isName {s : Shape α} (h : s.isName = true) : s.passesAsTarget = true := by
  cases s with
  | identifier => rfl
  | _ => cases h

/-! None of this depends on what is below. -/

section

variable (f : α → β) (s : Shape α)

theorem isName_map : (s.map f).isName = s.isName := by cases s <;> rfl

theorem isReference_map : (s.map f).isReference = s.isReference := by cases s <;> rfl

theorem isLoose_map : (s.map f).isLoose = s.isLoose := by
  cases s with
  | arrowFunction _ _ _ isExpression => cases isExpression <;> rfl
  | _ => rfl

theorem passesAsTarget_map : (s.map f).passesAsTarget = s.passesAsTarget := by
  simp only [passesAsTarget, isReference_map, isLoose_map]

theorem passesAsName_map : (s.map f).passesAsName = s.passesAsName := by
  simp only [passesAsName, isName_map, isLoose_map]

theorem isCover_map : (s.map f).isCover = s.isCover := by cases s <;> rfl

theorem isPattern_map : (s.map f).isPattern = s.isPattern := by cases s <;> rfl

theorem isMember_map : (s.map f).isMember = s.isMember := by cases s <;> rfl

end

end Shape

namespace Node

mutual

/-- The parts of a pattern that are no patterns, in their order. -/
def leaves : Node → List Node
  | ⟨_, .restElement argument⟩ => leaves argument
  | ⟨_, .assignmentPattern left _⟩ => leaves left
  | ⟨_, .arrayPattern elements⟩ => leavesOfElements elements
  | ⟨_, .objectPattern properties⟩ => leavesOfProperties properties
  | n => [n]

def leavesOfElements : List (Option Node) → List Node
  | [] => []
  | none :: rest => leavesOfElements rest
  | some n :: rest => leaves n ++ leavesOfElements rest

def leavesOfProperties : List Node → List Node
  | [] => []
  | n :: rest => leavesOfProperty n ++ leavesOfProperties rest

/-- The leaves of a member of an object. An accessor or a method is a leaf. -/
def leavesOfProperty : Node → List Node
  | ⟨_, .restElement argument⟩ => leaves argument
  | ⟨_, .property .init _ _ value false _⟩ => leaves value
  | n => [n]

end

theorem leavesOfElements_eq (ns : List (Option Node)) : leavesOfElements ns = (ns.filterMap id).flatMap leaves := by
  induction ns with
  | nil => rfl
  | cons n ns ih =>
    cases n with
    | none => exact ih
    | some n => exact congrArg (n.leaves ++ ·) ih

theorem leavesOfProperties_eq (ns : List Node) : leavesOfProperties ns = ns.flatMap leavesOfProperty := by
  induction ns with
  | nil => rfl
  | cons n ns ih => exact congrArg (n.leavesOfProperty ++ ·) ih

theorem leaves_of_not_pattern {n : Node} (h : n.shape.isPattern = false) : n.leaves = [n] := by
  obtain ⟨info, shape⟩ := n
  cases shape <;> first | rfl | cases h

theorem asPattern_of_not_cover {n : Node} (h : n.shape.isCover = false) : n.asPattern = n := by
  obtain ⟨info, shape⟩ := n
  cases shape <;> first | rfl | cases h

theorem isCover_asPattern (n : Node) : n.asPattern.shape.isCover = false := by
  obtain ⟨info, shape⟩ := n
  cases shape <;> rfl

@[simp] theorem asPattern_asPattern (n : Node) : n.asPattern.asPattern = n.asPattern :=
  asPattern_of_not_cover (isCover_asPattern n)

open Parts in
/-- The leaves of a pattern with other labels. -/
theorem leaves_of_map {r : Node → Node} {label : Info → Info}
    (node_mk : ∀ info shape, r ⟨info, shape⟩ = ⟨label info, shape.map r⟩) (n : Node) :
    (r n).leaves = n.leaves.map r := by
  suffices h : (r n).leaves = n.leaves.map r ∧ (r n).leavesOfProperty = n.leavesOfProperty.map r from h.1
  induction n using Node.induction with
  | h info shape ih =>
    cases shape with
    | restElement argument => simp [leaves, leavesOfProperty, node_mk, Shape.map, (ih argument (by simp)).1]
    | assignmentPattern left => simp [leaves, leavesOfProperty, node_mk, Shape.map, (ih left (by simp)).1]
    | arrayPattern elements =>
      have hmap : (elements.map (Option.map r)).filterMap id = (elements.filterMap id).map r := by
        rw [List.filterMap_map, List.map_filterMap]
        rfl
      have hall : leavesOfElements (elements.map (Option.map r)) = (leavesOfElements elements).map r := by
        rw [leavesOfElements_eq, leavesOfElements_eq, hmap, List.flatMap_map, List.map_flatMap]
        exact congrArg List.flatten (List.map_congr_left fun n hn => (ih n (by simpa using hn)).1)
      simp [leaves, leavesOfProperty, node_mk, Shape.map, Functor.map, hall]
    | objectPattern properties =>
      have hall : properties.flatMap (fun n => (r n).leavesOfProperty) = properties.flatMap (·.leavesOfProperty.map r) :=
        congrArg List.flatten (List.map_congr_left fun n hn => (ih n (by simpa using hn)).2)
      simp [leaves, leavesOfProperty, node_mk, Shape.map, leavesOfProperties_eq, Functor.map, List.flatMap_map,
        List.map_flatMap, hall]
    | property kind _ _ value method =>
      have hvalue := (ih value (by simp)).1
      cases kind <;> cases method <;> simp [leaves, leavesOfProperty, node_mk, Shape.map, hvalue]
    | _ => simp [leaves, leavesOfProperty, node_mk, Shape.map]

def AllLeaves (p : Shape Node → Bool) (n : Node) : Prop := ∀ l ∈ n.leaves, p l.shape = true

/-- The leaves of the pattern that the expression becomes have shapes of a kind. -/
def AllTargets (p : Shape Node → Bool) (e : Node) : Prop := e.asPattern.AllLeaves p

def AllMemberTargets (p : Shape Node → Bool) (m : Node) : Prop :=
  ∀ l ∈ m.asPatternProperty.leavesOfProperty, p l.shape = true

section

variable {argument n left right : Node} {elements : List (Option Node)} {properties : List Node}
  {p q : Shape Node → Bool} {info : Info}

instance : Decidable (n.AllLeaves p) := inferInstanceAs (Decidable (∀ l ∈ n.leaves, p l.shape = true))

theorem allLeaves_of_not_pattern (h : n.shape.isPattern = false) : n.AllLeaves p ↔ p n.shape = true := by
  simp [AllLeaves, leaves_of_not_pattern h]

@[simp] theorem allLeaves_rest : AllLeaves p ⟨info, .restElement argument⟩ ↔ argument.AllLeaves p := .rfl

@[simp] theorem allLeaves_default :
    AllLeaves p ⟨info, .assignmentPattern left right⟩ ↔ left.AllLeaves p := .rfl

@[simp] theorem allLeaves_array :
    AllLeaves p ⟨info, .arrayPattern elements⟩ ↔ ∀ n ∈ elements.filterMap id, n.AllLeaves p := by
  show (∀ l ∈ leavesOfElements elements, _) ↔ _
  rw [leavesOfElements_eq, List.forall_mem_flatMap]
  rfl

theorem allLeaves_object : AllLeaves p ⟨info, .objectPattern properties⟩ ↔
      ∀ m ∈ properties, ∀ l ∈ m.leavesOfProperty, p l.shape = true := by
  show (∀ l ∈ leavesOfProperties properties, _) ↔ _
  rw [leavesOfProperties_eq, List.forall_mem_flatMap]

theorem allTargets_of_plain (hc : n.shape.isCover = false) (hp : n.shape.isPattern = false) :
    n.AllTargets p ↔ p n.shape = true := by
  rw [AllTargets, asPattern_of_not_cover hc, allLeaves_of_not_pattern hp]

/-- An expression that passes for a name does so as a pattern. -/
theorem allTargets_of_isLoose (h : n.shape.isLoose = true) :
    n.AllTargets Shape.passesAsTarget ∧ n.AllTargets Shape.passesAsName := by
  obtain ⟨info, shape⟩ := n
  have hc : shape.isCover = false ∧ shape.isPattern = false := by
    cases shape <;> first | exact ⟨rfl, rfl⟩ | cases h
  rw [allTargets_of_plain hc.1 hc.2, allTargets_of_plain hc.1 hc.2, Shape.passesAsTarget, Shape.passesAsName, h,
    Bool.or_true, Bool.or_true]
  exact ⟨rfl, rfl⟩

@[simp] theorem allTargets_asPattern : n.asPattern.AllTargets p ↔ n.AllTargets p := by
  rw [AllTargets, asPattern_asPattern, AllTargets]

@[simp] theorem allTargets_array :
    AllTargets p ⟨info, .arrayExpression elements⟩ ↔ ∀ n ∈ elements.filterMap id, n.AllTargets p := by
  rw [AllTargets, asPattern, allLeaves_array, asPatterns_nodes, List.forall_mem_map]
  rfl

@[simp] theorem allTargets_object :
    AllTargets p ⟨info, .objectExpression properties⟩ ↔ ∀ m ∈ properties, m.AllMemberTargets p := by
  rw [AllTargets, asPattern, allLeaves_object, asPatternProperties_eq_map, List.forall_mem_map]
  rfl

@[simp] theorem allTargets_assignment {operator : String} :
    AllTargets p ⟨info, .assignmentExpression operator left right⟩ ↔ left.AllTargets p := by
  rw [AllTargets, asPattern, allLeaves_default]
  rfl

@[simp] theorem allTargets_spread : AllTargets p ⟨info, .spreadElement argument⟩ ↔ argument.AllTargets p := by
  rw [AllTargets, asPattern, allLeaves_rest]
  rfl

end

section

variable {label : Info → Info} {p : Shape Node → Bool}

theorem allLeaves_relabel (hp : ∀ s : Shape Node, p (s.map (relabel label)) = p s) (n : Node) :
    (n.relabel label).AllLeaves p ↔ n.AllLeaves p := by
  rw [AllLeaves, leaves_of_map relabel_mk, List.forall_mem_map]
  simp only [shape_relabel, hp]
  rfl

theorem allTargets_relabel (hl : ∀ i c, label { i with cover := c } = { label i with cover := c })
    (hp : ∀ s : Shape Node, p (s.map (relabel label)) = p s) (n : Node) :
    (n.relabel label).AllTargets p ↔ n.AllTargets p := by
  rw [AllTargets, ← asPattern_of_map relabel_mk hl, allLeaves_relabel hp]
  rfl

end

end Node

end ScriptTree
