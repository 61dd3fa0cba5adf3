import ScriptTree.Proofs.Node.Nesting

/-! # What a piece of a program leaves behind

Reading a getter takes a permission away that is not given back: from then on the word for yields is no
name. The permission does come back at the end of a function, after the initial value in a binding pattern
and after a yield expression. So what the code after a node feels of it depends on the getters that stand
outside of these (`Node.residue`). Two kinds of nodes do not show all that was read for them: elements of
markup that are never closed, and asynchronous arrow functions, of which what stands before the parameters
is dropped.

Turning an expression into a pattern changes nothing about it (`residue_asPattern`). -/

namespace ScriptTree

/-- What is left of the pieces of a program that have been read. -/
structure Residue where
  /-- A getter has been read, and nothing around it has given the permission back. -/
  getter : Bool := false
  /-- Something that was read may be missing in the tree. -/
  hides : Bool := false
deriving DecidableEq, Repr, Inhabited

namespace Residue

instance : EmptyCollection Residue := ⟨⟨false, false⟩⟩

instance : Union Residue := ⟨fun a b => ⟨a.getter || b.getter, a.hides || b.hides⟩⟩

@[simp] theorem getter_empty : (∅ : Residue).getter = false := rfl
@[simp] theorem hides_empty : (∅ : Residue).hides = false := rfl
@[simp] theorem getter_union (a b : Residue) : (a ∪ b).getter = (a.getter || b.getter) := rfl
@[simp] theorem hides_union (a b : Residue) : (a ∪ b).hides = (a.hides || b.hides) := rfl

theorem ext' {a b : Residue} (hg : a.getter = b.getter) (hu : a.hides = b.hides) : a = b := by
  cases a
  cases b
  simp_all

theorem union_comm (a b : Residue) : a ∪ b = b ∪ a :=
  ext' (Bool.or_comm ..) (Bool.or_comm ..)

theorem union_assoc (a b c : Residue) : a ∪ b ∪ c = a ∪ (b ∪ c) :=
  ext' (Bool.or_assoc ..) (Bool.or_assoc ..)

@[simp] theorem union_self (a : Residue) : a ∪ a = a :=
  ext' (Bool.or_self _) (Bool.or_self _)

@[simp] theorem empty_union (a : Residue) : ∅ ∪ a = a := rfl

@[simp] theorem union_empty (a : Residue) : a ∪ ∅ = a :=
  ext' (Bool.or_false _) (Bool.or_false _)

theorem union_eq_empty {a b : Residue} : a ∪ b = ∅ ↔ a = ∅ ∧ b = ∅ := by
  constructor
  · intro h
    have hg := Bool.or_eq_false_iff.mp (congrArg getter h)
    have hh := Bool.or_eq_false_iff.mp (congrArg hides h)
    exact ⟨ext' hg.1 hh.1, ext' hg.2 hh.2⟩
  · rintro ⟨rfl, rfl⟩
    rfl

instance : Std.Commutative (α := Residue) (· ∪ ·) := ⟨union_comm⟩
instance : Std.Associative (α := Residue) (· ∪ ·) := ⟨union_assoc⟩
instance : Std.IdempotentOp (α := Residue) (· ∪ ·) := ⟨union_self⟩
instance : Std.LawfulIdentity (α := Residue) (· ∪ ·) ∅ where
  left_id := empty_union
  right_id := union_empty

/-- What is left of several pieces. -/
def unions : List Residue → Residue
  | [] => ∅
  | a :: rest => a ∪ unions rest

@[simp] theorem unions_nil : unions [] = ∅ := rfl
@[simp] theorem unions_cons (a : Residue) (as : List Residue) : unions (a :: as) = a ∪ unions as := rfl

@[simp] theorem unions_append (as bs : List Residue) : unions (as ++ bs) = unions as ∪ unions bs := by
  induction as with
  | nil => simp
  | cons a as ih => simp [ih, union_assoc]

@[simp] theorem unions_reverse (as : List Residue) : unions as.reverse = unions as := by
  induction as with
  | nil => rfl
  | cons a as ih => simp [ih, union_comm]

end Residue

namespace Node

/-- What is known of a node for the residue of those above it: its own residue, that of the initial value
after a binding pattern, and whether it is a tag that closes itself. -/
structure Summary where
  own : Residue := ∅
  initial : Residue := ∅
  selfClosing : Bool := false
deriving DecidableEq, Repr, Inhabited

/-- The summary of a node, given those of the nodes below. -/
def summarize (info : Info) (shape : Shape Summary) : Summary :=
  match shape with
  | .property .get .. | .methodDefinition _ _ _ .get _ => { own := { getter := true } }
  | .property _ key _ value _ shorthand =>
    -- a name with an initial value may stand in an expression, where nothing is given back after it
    { own := key.own ∪ value.own ∪ if shorthand then value.initial else ∅ }
  | .functionDeclaration .. | .functionExpression .. | .yieldExpression .. => {}
  | .arrowFunction isAsync params _ _ | .arrowParameters isAsync params =>
    { own := .unions (params.map Summary.own) ∪ { hides := isAsync } }
  | .assignmentPattern left right =>
    if info.cover.isSome then { own := left.own ∪ right.own } else { own := left.own, initial := right.own }
  | .jsxOpeningElement _ selfClosing _ =>
    { own := .unions (shape.children.map Summary.own), selfClosing }
  | .jsxElement opening _ closing =>
    { own := .unions (shape.children.map Summary.own) ∪
        { hides := closing.isNone && !opening.selfClosing } }
  | _ => { own := .unions (shape.children.map Summary.own) }

/-- What is known of a node for the residue of those above it. -/
def summary (n : Node) : Summary := n.fold summarize

def residue (n : Node) : Residue := n.summary.own

end Node

/-- The shapes whose residue is that of all nodes below. -/
def Shape.isOrdinary {α : Type} : Shape α → Bool
  | .property .. | .methodDefinition .. | .functionDeclaration .. | .functionExpression ..
  | .yieldExpression .. | .arrowFunction .. | .arrowParameters .. | .assignmentPattern ..
  | .jsxElement .. => false
  | _ => true

namespace Node

variable {children params : List Node} {isAsync computed method shorthand : Bool} {opening key value : Node}
  {s : Shape Node} {info : Info}

theorem children_foldShape {β : Type} (f : Info → Shape β → β) (s : Shape Node) :
    (foldShape f s).children = s.children.map (fold f) := by
  unfold Shape.children
  rw [parts_foldShape, List.map_flatMap, List.flatMap_map]
  simp only [nodes_foldPart]

theorem summary_mk (s : Shape Node) : summary ⟨info, s⟩ = summarize info (foldShape summarize s) := by
  simp [summary, fold]

/-- Of what is known besides the shape only the form that the node was read as matters. -/
theorem summary_congr {info info' : Info} (h : info.cover = info'.cover) : summary ⟨info, s⟩ = summary ⟨info', s⟩ := by
  rw [summary_mk, summary_mk]
  unfold summarize
  rw [h]

theorem own_children (s : Shape Node) :
    ((foldShape summarize s).children.map Summary.own) = s.children.map residue := by
  rw [children_foldShape, List.map_map]
  rfl

theorem residue_ordinary (hs : s.isOrdinary = true := by rfl) :
    residue ⟨info, s⟩ = .unions (s.children.map residue) := by
  rw [← own_children]
  unfold residue
  rw [summary_mk]
  cases s <;> first | rfl | simp [Shape.isOrdinary] at hs

@[simp] theorem residue_getter :
    (bare (.property .get key computed value method shorthand)).residue = { getter := true } := rfl

@[simp] theorem residue_init :
    (bare (.property .init key computed value method shorthand)).residue =
      key.residue ∪ value.residue ∪ if shorthand then value.summary.initial else ∅ := rfl

@[simp] theorem residue_set :
    (bare (.property .set key computed value method shorthand)).residue =
      key.residue ∪ value.residue ∪ if shorthand then value.summary.initial else ∅ := rfl

theorem residue_method {kind : MethodKind} {computed isStatic : Bool} :
    (bare (.methodDefinition key computed value kind isStatic)).residue =
      if kind = .get then { getter := true } else key.residue ∪ value.residue := by
  unfold residue bare
  rw [summary_mk]
  cases kind with
  | get => rfl
  | constructor | method | set =>
    have hsum : ∀ a b : Residue, Residue.unions [a, b] = a ∪ b := by simp
    exact hsum key.residue value.residue

theorem own_list (ns : List Node) : (foldList summarize ns).map Summary.own = ns.map residue := by
  rw [foldList_eq_map, List.map_map]
  rfl

theorem residue_arrow {isExpression : Bool} {body : Node} :
    (bare (.arrowFunction isAsync params body isExpression)).residue =
      .unions (params.map residue) ∪ { hides := isAsync } := by
  rw [← own_list]
  rfl

theorem residue_arrowParameters :
    residue ⟨info, .arrowParameters isAsync params⟩ = .unions (params.map residue) ∪ { hides := isAsync } := by
  rw [← own_list]
  rfl

theorem residue_pattern {left right : Node} : residue ⟨info, .assignmentPattern left right⟩ =
      left.residue ∪ if info.cover.isSome then right.residue else ∅ := by
  have hs : summary ⟨info, .assignmentPattern left right⟩ =
      if info.cover.isSome then { own := left.residue ∪ right.residue }
      else { own := left.residue, initial := right.residue } := summary_mk _
  unfold residue
  rw [hs]
  split
  · rfl
  · exact (Residue.union_empty _).symm

/-- An initial value of a binding is given back. -/
@[simp] theorem residue_binding {left right : Node} :
    (bare (.assignmentPattern left right)).residue = left.residue := rfl

theorem residue_element {closing : Option Node} : (bare (.jsxElement opening children closing)).residue =
      .unions ((Shape.jsxElement opening children closing).children.map residue) ∪
        { hides := closing.isNone && !opening.summary.selfClosing } := by
  rw [← own_children]
  unfold residue bare
  rw [summary_mk]
  cases closing <;> rfl

theorem residue_closed {tag : Node} : (bare (.jsxElement opening children (some tag))).residue =
      opening.residue ∪ (.unions (children.map residue) ∪ tag.residue) := by
  refine residue_element.trans ((Residue.union_empty _).trans ?_)
  simp [Shape.children, Shape.parts, Part.nodes]

theorem residue_selfClosing (h : opening.summary.selfClosing = true) :
    (bare (.jsxElement opening [] none)).residue = opening.residue := by
  rw [residue_element, h]
  exact (Residue.union_empty _).trans (Residue.union_empty _)

section

variable {β : Type} {f : Info → Shape β → β}

/-- What makes no difference between an expression and the pattern that it turns out to be. -/
structure IgnoresCover (f : Info → Shape β → β) : Prop where
  spread : ∀ info b, f { info with cover := some .spread } (.restElement b) = f info (.spreadElement b)
  array : ∀ info bs, f { info with cover := some .array } (.arrayPattern bs) = f info (.arrayExpression bs)
  object : ∀ info bs,
    f { info with cover := some .object } (.objectPattern bs) = f info (.objectExpression bs)
  assignment : ∀ info operator b c,
    f { info with cover := some .assignment } (.assignmentPattern b c) =
      f info (.assignmentExpression operator b c)

open Parts in
theorem IgnoresCover.asPattern (hf : IgnoresCover f) (n : Node) : n.asPattern.fold f = n.fold f := by
  suffices h : n.asPattern.fold f = n.fold f ∧ n.asPatternProperty.fold f = n.fold f from h.1
  induction n using Node.induction with
  | h info shape ih =>
    cases shape with
    | spreadElement argument =>
      have hrest := (congrArg (f _ <| .restElement ·) (ih argument (by simp)).1).trans (hf.spread info _)
      exact ⟨hrest, hrest⟩
    | property kind key computed value method shorthand =>
      exact ⟨rfl, congrArg (f info <| .property kind (key.fold f) computed · method shorthand) (ih value (by simp)).1⟩
    | assignmentExpression operator left right =>
      have hleft := congrArg (f { info with cover := some .assignment } <| .assignmentPattern · (right.fold f))
        (ih left (by simp)).1
      exact ⟨hleft.trans (hf.assignment info operator _ _), rfl⟩
    | arrayExpression elements =>
      have hall : foldHoles f (asPatterns elements) = foldHoles f elements := by
        rw [asPatterns_eq_map, foldHoles_eq_map, foldHoles_eq_map, List.map_map]
        refine List.map_congr_left fun e he => ?_
        cases e with
        | none => rfl
        | some e => exact congrArg some (ih e (by simpa using he)).1
      exact ⟨(congrArg (f _ <| .arrayPattern ·) hall).trans (hf.array info _), rfl⟩
    | objectExpression properties =>
      have hall : foldList f (asPatternProperties properties) = foldList f properties := by
        rw [asPatternProperties_eq_map, foldList_eq_map, foldList_eq_map, List.map_map]
        exact List.map_congr_left fun n hn => (ih n (by simpa using hn)).2
      exact ⟨(congrArg (f _ <| .objectPattern ·) hall).trans (hf.object info _), rfl⟩
    | _ => exact ⟨rfl, rfl⟩

end

theorem summary_asPattern (n : Node) : n.asPattern.summary = n.summary := by
  have hcover : IgnoresCover summarize := by
    refine ⟨fun _ _ => rfl, fun _ _ => rfl, fun _ _ => rfl, fun info operator left right => ?_⟩
    show Summary.mk (left.own ∪ right.own) ∅ false = Summary.mk (left.own ∪ (right.own ∪ ∅)) ∅ false
    rw [Residue.union_empty]
  exact hcover.asPattern n

@[simp] theorem residue_asPattern (n : Node) : n.asPattern.residue = n.residue :=
  congrArg Summary.own (summary_asPattern n)

end Node

end ScriptTree
