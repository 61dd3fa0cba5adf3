import Mathlib.Tactic.DeriveTraversable
import ScriptTree.Parse.Markup
import ScriptTree.Proofs.Node.Nesting

/-! # Trees with other labels

A relabelling changes what is noted about the place of each node and leaves the shapes alone. Nothing that
is asked about a node looks at its place, so the answers are those for the node before, and an expression
can be relabelled before or after it is turned into a pattern. -/

namespace ScriptTree

deriving instance Functor for Shape

theorem Shape.map_id (s : Shape Node) : s.map (fun n => n) = s := by
  have hlist (l : List Node) : l.map (fun n => n) = l := List.map_id' l
  have hoption (o : Option Node) : o.map (fun n => n) = o := Option.map_id'
  have hholes (l : List (Option Node)) : l.map (Option.map fun n => n) = l := by simp
  cases s <;> simp only [Shape.map, Functor.map, hlist, hoption, hholes]

namespace Node

variable {label : Info → Info}

theorem foldShape_eq_map {β : Type} (f : Info → Shape β → β) (s : Shape Node) : foldShape f s = s.map (fold f) := by
  have hlist : foldList f = List.map (fold f) := funext (foldList_eq_map f)
  have hoption : foldOption f = Option.map (fold f) := funext (foldOption_eq_map f)
  have hholes : foldHoles f = List.map (foldOption f) := by
    rw [hoption]
    exact funext (foldHoles_eq_map f)
  cases s <;> simp only [Shape.map, Functor.map, ← hlist, ← hoption, ← hholes] <;> rfl

open Parts in
/-- The names that a pattern binds do not depend on its labels. -/
theorem boundNames_of_map {r : Node → Node}
    (node_mk : ∀ info shape, r ⟨info, shape⟩ = ⟨label info, shape.map r⟩) (n : Node) :
    (r n).boundNames = n.boundNames := by
  -- the names of a property are asked for in front of those of the others
  suffices h : (r n).boundNames = n.boundNames ∧ ∀ ns ns', boundNamesOfProperties ns = boundNamesOfProperties ns' →
      boundNamesOfProperties (r n :: ns) = boundNamesOfProperties (n :: ns') from h.1
  induction n using Node.induction with
  | h info shape ih =>
    rw [node_mk]
    cases shape with
    | restElement argument =>
      have ha := (ih argument (by simp)).1
      exact ⟨ha, fun _ _ h => congrArg₂ (· ++ ·) ha h⟩
    | assignmentPattern left => exact ⟨(ih left (by simp)).1, fun _ _ h => h⟩
    | property _ _ _ value => exact ⟨rfl, fun _ _ h => congrArg₂ (· ++ ·) (ih value (by simp)).1 h⟩
    | arrayPattern elements =>
      refine ⟨?_, fun _ _ h => h⟩
      show boundNamesOfElements (elements.map (Option.map r)) = boundNamesOfElements elements
      induction elements with
      | nil => rfl
      | cons e es ihe =>
        have hes := ihe fun c hc => ih c (by simp_all)
        cases e with
        | none => exact hes
        | some e => exact congrArg₂ (· ++ ·) (ih e (by simp)).1 hes
    | objectPattern properties =>
      refine ⟨?_, fun _ _ h => h⟩
      show boundNamesOfProperties (properties.map r) = boundNamesOfProperties properties
      induction properties with
      | nil => rfl
      | cons m ms ihm => exact (ih m (by simp)).2 _ _ (ihm fun c hc => ih c (List.mem_cons_of_mem m hc))
    | _ => exact ⟨rfl, fun _ _ h => h⟩

open Parts in
/-- An expression can be relabelled before or after it is turned into a pattern. -/
theorem asPattern_of_map {r : Node → Node} (node_mk : ∀ info shape, r ⟨info, shape⟩ = ⟨label info, shape.map r⟩)
    (label_cover : ∀ i c, label { i with cover := c } = { label i with cover := c }) (n : Node) :
    r n.asPattern = (r n).asPattern := by
  suffices h : r n.asPattern = (r n).asPattern ∧ r n.asPatternProperty = (r n).asPatternProperty from h.1
  induction n using Node.induction with
  | h info shape ih =>
    have hcover (c : Cover) (s : Shape Node) :
        r ⟨{ info with cover := some c }, s⟩ = ⟨{ label info with cover := some c }, s.map r⟩ := by
      rw [node_mk, label_cover]
    rw [node_mk]
    cases shape with
    | spreadElement argument =>
      have hrest := (hcover .spread (.restElement argument.asPattern)).trans
        (congrArg (Node.mk _ <| .restElement ·) (ih argument (by simp)).1)
      exact ⟨hrest, hrest⟩
    | property kind key computed value method shorthand =>
      refine ⟨node_mk _ _, (node_mk _ _).trans ?_⟩
      exact congrArg (Node.mk _ <| .property kind (r key) computed · method shorthand) (ih value (by simp)).1
    | assignmentExpression operator left right =>
      refine ⟨(hcover _ _).trans ?_, node_mk _ _⟩
      exact congrArg (Node.mk _ <| .assignmentPattern · (r right)) (ih left (by simp)).1
    | arrayExpression elements =>
      have hall : (asPatterns elements).map (Option.map r) = asPatterns (elements.map (Option.map r)) := by
        rw [asPatterns_eq_map, asPatterns_eq_map, List.map_map, List.map_map]
        refine List.map_congr_left fun e he => ?_
        cases e with
        | none => rfl
        | some e => exact congrArg some (ih e (by simpa using he)).1
      exact ⟨(hcover _ _).trans (congrArg (Node.mk _ <| .arrayPattern ·) hall), node_mk _ _⟩
    | objectExpression properties =>
      have hall : (asPatternProperties properties).map r = asPatternProperties (properties.map r) := by
        rw [asPatternProperties_eq_map, asPatternProperties_eq_map, List.map_map, List.map_map]
        exact List.map_congr_left fun n hn => (ih n (by simpa using hn)).2
      exact ⟨(hcover _ _).trans (congrArg (Node.mk _ <| .objectPattern ·) hall), node_mk _ _⟩
    | _ => exact ⟨node_mk _ _, node_mk _ _⟩

/-- A change of the labels in a tree that keeps the forms that nodes were read as. -/
structure Relabelling where
  label : Info → Info
  node : Node → Node
  node_mk : ∀ info shape, node ⟨info, shape⟩ = ⟨label info, shape.map node⟩
  label_empty : label {} = {}
  cover_label : ∀ i, (label i).cover = i.cover
  label_cover : ∀ i c, label { i with cover := c } = { label i with cover := c }

namespace Relabelling

instance : CoeFun Relabelling fun _ => Node → Node := ⟨node⟩

/-- All labels stay. -/
def id : Relabelling where
  label i := i
  node n := n
  node_mk _ shape := by rw [shape.map_id]
  label_empty := rfl
  cover_label _ := rfl
  label_cover _ _ := rfl

def unplaceLabel (i : Info) : Info := { i with range := none, location := none }

/-- No place is left. -/
def unplace : Relabelling where
  label := unplaceLabel
  node := fold fun i shape => ⟨unplaceLabel i, shape⟩
  node_mk _ shape := congrArg (Node.mk _) (foldShape_eq_map _ shape)
  label_empty := rfl
  cover_label _ := rfl
  label_cover _ _ := rfl

variable (r : Relabelling)

theorem node_shape (n : Node) : (r n).shape = n.shape.map r := by
  cases n
  rw [r.node_mk]

theorem node_info (n : Node) : (r n).info = r.label n.info := by
  cases n
  rw [r.node_mk]

@[simp] theorem node_bare (shape : Shape Node) : r (bare shape) = bare (shape.map r) := by
  rw [bare, r.node_mk, r.label_empty]
  rfl

@[simp] theorem node_cover (n : Node) : (r n).info.cover = n.info.cover := by
  rw [node_info, r.cover_label]

@[simp] theorem node_name? (n : Node) : (r n).name? = n.name? := by
  unfold name?
  rw [node_shape]
  cases n.shape <;> rfl

@[simp] theorem node_isIdentifier (n : Node) : (r n).isIdentifier = n.isIdentifier := by
  simp only [isIdentifier, node_name?]

@[simp] theorem node_isNamed (n : Node) (name : String) : (r n).isNamed name = n.isNamed name := by
  unfold isNamed
  rw [node_shape]
  cases n.shape <;> rfl

@[simp] theorem node_asPattern (n : Node) : r n.asPattern = (r n).asPattern :=
  asPattern_of_map r.node_mk r.label_cover n

@[simp] theorem node_yieldAsName (n : Node) : r n.yieldAsName = (r n).yieldAsName := by
  rw [yieldAsName, yieldAsName, r.node_mk, r.label_cover, node_info]
  rfl

@[simp] theorem boundNames_node (n : Node) : (r n).boundNames = n.boundNames :=
  boundNames_of_map r.node_mk n

end Relabelling

end Node

open Parts in
theorem Parse.qualifiedName_of_map {f : Node → Node} {label : Node.Info → Node.Info}
    (hf : ∀ info shape, f ⟨info, shape⟩ = ⟨label info, shape.map f⟩) (n : Node) :
    qualifiedName (f n) = qualifiedName n := by
  induction n using Node.induction with
  | h info shape ih =>
    rw [hf]
    cases shape with
    | jsxNamespacedName | jsxMemberExpression => simp_all [qualifiedName, Shape.map]
    | _ => rfl

end ScriptTree
