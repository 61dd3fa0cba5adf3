import ScriptTree.Proofs.Node.Relabel
import ScriptTree.Proofs.Node.Residue

/-! # Scopes

On the way down a tree a node comes to lie in loops, in cases of a switch, behind labels and in functions,
and code becomes strict (`Node.Lies`). For jumps the body of each function is a world of its own. A tree is
sound if jumps find what they jump to, functions of strict code have the parameters that they may have, and
imports and exports stand in lists of statements outside of functions (`Sound`). Soundness is kept when an expression becomes a pattern and when comments are put beside nodes. -/

namespace ScriptTree

variable {shape : Shape Node} {c n : Node} {kind : FunctionKind}

/-- What encloses a node up to the body of its function, and whether its code is strict. -/
structure Scope where
  /-- The labels of the statements that it lies in. -/
  labels : List Text := []
  /-- It lies in the body of a loop. -/
  inLoop : Bool := false
  /-- It lies in a case of a switch. -/
  inSwitch : Bool := false
  /-- It lies in the body of a function. -/
  inFunction : Bool := false
  /-- Its code is strict. -/
  strict : Bool := false
deriving DecidableEq, Repr

namespace Node

def isStrictDirective (n : Node) : Bool :=
  match n.shape with
  | .directive _ text => text.is "use strict"
  | _ => false

/-- Is the node the body of a function with a directive for strict code? -/
def isStrictBody (n : Node) : Bool :=
  match n.shape with
  | .blockStatement body => body.any isStrictDirective
  | _ => false

end Node

namespace Shape

/-- The nodes in a function: its name, its parameters and its body. Of what is around the function nothing
but that its code is strict matters to the parameters and the body. -/
def enclosedByFunction (sc : Scope) (id : Option Node) (params : List Node) (body : Node) :
    List (Scope × Node) :=
  let inner : Scope := { strict := sc.strict || body.isStrictBody }
  id.toList.map (sc, ·) ++ params.map (inner, ·) ++ [({ inner with inFunction := true }, body)]

/-- The nodes in a shape, each with what encloses it. -/
def enclosed (sc : Scope) : Shape Node → List (Scope × Node)
  | .doWhileStatement body test => [({ sc with inLoop := true }, body), (sc, test)]
  | .whileStatement test body => [(sc, test), ({ sc with inLoop := true }, body)]
  | .forStatement init test update body =>
    (init.toList ++ test.toList ++ update.toList).map (sc, ·) ++ [({ sc with inLoop := true }, body)]
  | .forInStatement left right body | .forOfStatement left right body =>
    [(sc, left), (sc, right), ({ sc with inLoop := true }, body)]
  | .switchCase test consequent =>
    test.toList.map (sc, ·) ++ consequent.map ({ sc with inSwitch := true }, ·)
  | .labeledStatement label body =>
    [(sc, label), ({ sc with labels := label.name?.toList ++ sc.labels }, body)]
  | .functionDeclaration _ id params body | .functionExpression _ id params body =>
    enclosedByFunction sc id params body
  | .arrowFunction _ params body _ => enclosedByFunction sc none params body
  | .classDeclaration id superClass body | .classExpression id superClass body =>
    (id.toList ++ superClass.toList ++ [body]).map ({ sc with strict := true }, ·)
  | .program isModule body =>
    body.map ({ sc with strict := sc.strict || isModule || body.any Node.isStrictDirective }, ·)
  | shape => shape.children.map (sc, ·)

/-- A jump lies inside what it jumps to, and a label is not that of a statement around it. -/
def Jumps (sc : Scope) : Shape Node → Prop
  | .breakStatement (some label) | .continueStatement (some label) =>
    ∃ name ∈ sc.labels, label.name? = some name
  | .breakStatement none => sc.inLoop = true ∨ sc.inSwitch = true
  | .continueStatement none => sc.inLoop = true
  | .labeledStatement label _ => ∃ name, label.name? = some name ∧ name ∉ sc.labels
  | .returnStatement _ => sc.inFunction = true
  | _ => True

/-- Parameters bind no name twice, and no name that strict code may not bind. -/
def StrictParameters (params : List Node) : Prop :=
  (params.flatMap Node.boundNames).Nodup ∧
    ∀ name ∈ params.flatMap Node.boundNames, name ≠ Text.ofString "eval" ∧ name ≠ Text.ofString "arguments"

/-- A function of strict code has parameters that strict code may have. -/
def Binds (sc : Scope) : Shape Node → Prop
  | .functionDeclaration _ _ params body | .functionExpression _ _ params body
  | .arrowFunction _ params body _ => (sc.strict || body.isStrictBody) = true → StrictParameters params
  | _ => True

/-- Imports and exports. -/
def isModuleItem {α : Type} : Shape α → Bool
  | .importDeclaration .. | .exportNamedDeclaration .. | .exportDefaultDeclaration .. | .exportAllDeclaration .. =>
    true
  | _ => false

/-- The shapes with a list of statements in them. -/
def isList {α : Type} : Shape α → Bool
  | .program .. | .blockStatement .. | .switchCase .. => true
  | _ => false

/-- An import or an export lies in no function, and only lists of statements have one as a member. -/
def Hosts (sc : Scope) (shape : Shape Node) : Prop :=
  (shape.isModuleItem = true → sc.inFunction = false) ∧
    (shape.isList = false → ∀ c ∈ shape.children, c.shape.isModuleItem = false)

/-- The shapes that leave the scope as it is, and are no jumps, bodies, directives, imports or exports. -/
def isPlain {α : Type} : Shape α → Bool
  | .doWhileStatement .. | .whileStatement .. | .forStatement .. | .forInStatement .. | .forOfStatement ..
  | .switchCase .. | .labeledStatement .. | .functionDeclaration .. | .functionExpression ..
  | .arrowFunction .. | .classDeclaration .. | .classExpression .. | .program .. | .breakStatement ..
  | .continueStatement .. | .returnStatement .. | .blockStatement .. | .directive .. | .importDeclaration ..
  | .exportNamedDeclaration .. | .exportDefaultDeclaration .. | .exportAllDeclaration .. => false
  | _ => true

section

variable {sc : Scope}

theorem enclosed_plain (h : shape.isPlain = true) : shape.enclosed sc = shape.children.map (sc, ·) := by
  cases shape <;> first | rfl | cases h

theorem jumps_plain (h : shape.isPlain = true) : shape.Jumps sc := by
  cases shape <;> trivial

theorem binds_plain (h : shape.isPlain = true) : shape.Binds sc := by
  cases shape <;> trivial

theorem isModuleItem_plain (h : shape.isPlain = true) : shape.isModuleItem = false := by
  cases shape <;> first | rfl | cases h

theorem inFunction_of_isList {x : Scope × Node} (hl : shape.isList = true) (hx : x ∈ shape.enclosed sc) :
    x.1.inFunction = sc.inFunction := by
  cases shape with
  | program isModule body =>
    obtain ⟨n, _, rfl⟩ := List.mem_map.mp hx
    rfl
  | blockStatement body =>
    obtain ⟨n, _, rfl⟩ := List.mem_map.mp hx
    rfl
  | switchCase test consequent =>
    rcases List.mem_append.mp hx with hx | hx <;> obtain ⟨n, _, rfl⟩ := List.mem_map.mp hx <;> rfl
  | _ => cases hl

theorem hosts_inner (hm : shape.isModuleItem = false) (h : ∀ c ∈ shape.children, c.shape.isModuleItem = false) :
    shape.Hosts sc :=
  ⟨fun h' => absurd (hm.symm.trans h') Bool.false_ne_true, fun _ => h⟩

/-- The nodes in a function are the same, whatever its kind. -/
theorem children_functionDeclaration {id : Option Node} {params : List Node} {body : Node} :
    (functionDeclaration kind id params body).children = id.toList ++ params ++ [body] := by
  cases kind <;> simp [children, parts, functionParts, Part.nodes, Part.flag]

/-- Each node in a shape has something that encloses it. -/
theorem exists_enclosed {c : Node} (h : c ∈ shape.children) : ∃ sc', (sc', c) ∈ shape.enclosed sc := by
  suffices hs : c ∈ (shape.enclosed sc).map Prod.snd by
    obtain ⟨⟨sc', c'⟩, hc, rfl⟩ := List.mem_map.mp hs
    exact ⟨sc', hc⟩
  by_cases hs : shape.isPlain = true
  · rw [enclosed_plain hs]
    simpa using h
  · cases shape with
    | functionDeclaration | functionExpression =>
      change c ∈ (functionDeclaration _ _ _ _).children at h
      rw [children_functionDeclaration] at h
      simpa [enclosed, enclosedByFunction] using h
    | _ => first
      | exact absurd rfl hs
      | simpa [children, parts, classParts, Part.nodes, Part.flag, Part.word, enclosed,
        enclosedByFunction] using h

end

end Shape

/-- The node lies in the tree at a place that is enclosed by a scope. -/
inductive Node.Lies (root : Node) : Scope → Node → Prop
  | root : Lies root {} root
  | child {sc sc' : Scope} {n c : Node} : Lies root sc n → (sc', c) ∈ n.shape.enclosed sc → Lies root sc' c

/-- Every node of a tree lies somewhere in it. -/
theorem Node.Below.lies {root n : Node} (h : root.Below n) : ∃ sc, root.Lies sc n := by
  induction h with
  | root => exact ⟨{}, .root⟩
  | child _ hc ih =>
    obtain ⟨sc, ih⟩ := ih
    obtain ⟨sc', hc⟩ := Shape.exists_enclosed hc
    exact ⟨sc', .child ih hc⟩

/-- In a place that is enclosed by a scope, jumps find what they jump to, functions of strict code have
parameters that they may have, and imports and exports are where they may be, here and further down. -/
inductive Sound : Scope → Node → Prop
  | node {sc : Scope} {info : Node.Info} {shape : Shape Node} : shape.Jumps sc → shape.Binds sc → shape.Hosts sc →
      (∀ x ∈ shape.enclosed sc, Sound x.1 x.2) → Sound sc ⟨info, shape⟩

namespace Sound

variable {sc sc' : Scope} {root : Node}

theorem jumps (h : Sound sc n) : n.shape.Jumps sc := by
  cases h
  assumption

theorem binds (h : Sound sc n) : n.shape.Binds sc := by
  cases h
  assumption

theorem hosts (h : Sound sc n) : n.shape.Hosts sc := by
  cases h
  assumption

theorem isList (h : Sound sc n) (hc : c ∈ n.shape.children) (hm : c.shape.isModuleItem = true) :
    n.shape.isList = true := by
  cases hl : n.shape.isList with
  | true => rfl
  | false => exact absurd ((h.hosts.2 hl c hc).symm.trans hm) Bool.false_ne_true

/-- In a function there is neither an import nor an export. -/
theorem inner (h : Sound sc n) (hf : sc.inFunction = true) : n.shape.isModuleItem = false := by
  cases hm : n.shape.isModuleItem with
  | false => rfl
  | true => exact absurd ((h.hosts.1 hm).symm.trans hf) Bool.false_ne_true

theorem enclosed (h : Sound sc n) (hc : (sc', c) ∈ n.shape.enclosed sc) : Sound sc' c := by
  cases h with
  | node _ _ _ h => exact h _ hc

/-- From the root soundness goes down to every place. -/
theorem lies (h : Sound {} root) (hn : root.Lies sc n) : Sound sc n := by
  induction hn with
  | root => exact h
  | child _ hc ih => exact ih.enclosed hc

theorem block {info : Node.Info} {body : List Node} (h : ∀ n ∈ body, Sound sc n) :
    Sound sc ⟨info, .blockStatement body⟩ := by
  refine .node trivial trivial ⟨nofun, nofun⟩ fun x hx => ?_
  obtain ⟨n, hn, rfl⟩ := List.mem_map.mp hx
  exact h n (by simpa [Shape.children, Shape.parts, Part.nodes] using hn)

end Sound

/-- The node is sound in its place, and neither an import nor an export. -/
structure Seated (sc : Scope) (n : Node) : Prop where
  sound : Sound sc n
  inner : n.shape.isModuleItem = false

theorem Sound.of_seated {sc : Scope} {info : Node.Info} {shape : Shape Node} (hj : shape.Jumps sc)
    (hb : shape.Binds sc) (h : ∀ x ∈ shape.enclosed sc, Seated x.1 x.2)
    (hm : shape.isModuleItem = false := by rfl) : Sound sc ⟨info, shape⟩ := by
  refine .node hj hb (Shape.hosts_inner hm fun c hc => ?_) fun x hx => (h x hx).sound
  obtain ⟨sc', hc⟩ := Shape.exists_enclosed hc
  exact (h _ hc).inner

/-! ## Nodes that do not depend on their place -/

/-- The node is sound wherever it stands, as long as the code there is strict or not. -/
def Freestanding (strict : Bool) (n : Node) : Prop := ∀ sc : Scope, sc.strict = strict → Sound sc n

section

open Parts

variable {strict : Bool} {info : Node.Info} {sc : Scope}

namespace Freestanding

theorem seated (h : Freestanding strict n) (hs : sc.strict = strict) : Seated sc n :=
  ⟨h sc hs, (h { inFunction := true, strict } rfl).inner rfl⟩

theorem plain_iff (hs : shape.isPlain = true) :
    Freestanding strict ⟨info, shape⟩ ↔ ∀ c ∈ shape.children, Freestanding strict c := by
  constructor
  · intro h c hc sc hsc
    refine (h sc hsc).enclosed ?_
    rw [Shape.enclosed_plain hs]
    exact List.mem_map_of_mem hc
  · intro h sc hsc
    refine .of_seated (Shape.jumps_plain hs) (Shape.binds_plain hs) (fun x hx => ?_) (Shape.isModuleItem_plain hs)
    rw [Shape.enclosed_plain hs] at hx
    obtain ⟨c, hc, rfl⟩ := List.mem_map.mp hx
    exact (h c hc).seated hsc

/-- What has no nodes in it is sound in strict code and elsewhere. -/
theorem leaf (hc : shape.children = [] := by rfl) (hs : shape.isPlain = true := by rfl) :
    Freestanding strict ⟨info, shape⟩ := by
  refine (plain_iff hs).mpr fun c hc' => ?_
  rw [hc] at hc'
  cases hc'

theorem directive {text : Text} (h : Freestanding strict n) : Freestanding strict ⟨info, .directive n text⟩ := by
  intro sc hsc
  refine .of_seated trivial trivial fun x hx => ?_
  obtain rfl := List.mem_singleton.mp hx
  exact h.seated hsc

theorem asPattern (h : Freestanding strict n) : Freestanding strict n.asPattern := by
  suffices h : Freestanding strict n.asPattern ∧ Freestanding strict n.asPatternProperty from h.1
  induction n using Node.induction with
  | h info shape ih =>
    cases shape with
    | spreadElement argument =>
      have ha := (ih argument (by simp) (by simpa using (plain_iff rfl).mp h)).1
      have hrest : Freestanding strict ⟨{ info with cover := some .spread }, .restElement argument.asPattern⟩ :=
        (plain_iff rfl).mpr (by simpa using ha)
      exact ⟨hrest, hrest⟩
    | assignmentExpression operator left right =>
      have hparts : Freestanding strict left ∧ Freestanding strict right := by simpa using (plain_iff rfl).mp h
      exact ⟨(plain_iff rfl).mpr (by simpa using ⟨(ih left (by simp) hparts.1).1, hparts.2⟩), h⟩
    | property kind key computed value =>
      have hparts : Freestanding strict key ∧ Freestanding strict value := by simpa using (plain_iff rfl).mp h
      exact ⟨h, (plain_iff rfl).mpr (by simpa using ⟨hparts.1, (ih value (by simp) hparts.2).1⟩)⟩
    | arrayExpression elements =>
      have hall : ∀ m ∈ (Node.asPatterns elements).filterMap id, Freestanding strict m := by
        rw [Node.asPatterns_nodes, List.forall_mem_map]
        exact fun m hm => (ih m (by simpa using hm) ((plain_iff rfl).mp h m (by simpa using hm))).1
      exact ⟨(plain_iff rfl).mpr fun m hm => hall m (by simpa using hm), h⟩
    | objectExpression properties =>
      have hall := (plain_iff rfl).mp h
      exact ⟨(plain_iff rfl).mpr (by simp_all [Node.asPatternProperties_eq_map]), h⟩
    | _ => exact ⟨h, h⟩

end Freestanding

/-- The node is sound wherever it stands, and neither a directive nor a body with one. -/
structure Fine (strict : Bool) (n : Node) : Prop where
  free : Freestanding strict n
  isStrictBody : n.isStrictBody = false
  isStrictDirective : n.isStrictDirective = false

def Fines (strict : Bool) (ns : List Node) : Prop := ∀ n ∈ ns, Fine strict n

namespace Fines

variable {ns ms : List Node}

@[simp] theorem nil : Fines strict [] := nofun

@[simp] theorem cons_iff : Fines strict (n :: ns) ↔ Fine strict n ∧ Fines strict ns := List.forall_mem_cons

@[simp] theorem append_iff : Fines strict (ns ++ ms) ↔ Fines strict ns ∧ Fines strict ms :=
  List.forall_mem_append

@[simp] theorem reverse_iff : Fines strict ns.reverse ↔ Fines strict ns := by
  simp [Fines]

end Fines

namespace Fine

theorem of_free (h : ∀ c ∈ shape.children, Freestanding strict c) (hs : shape.isPlain = true) :
    Fine strict ⟨info, shape⟩ where
  free := (Freestanding.plain_iff hs).mpr h
  isStrictBody := by cases shape <;> first | rfl | cases hs
  isStrictDirective := by cases shape <;> first | rfl | cases hs

theorem plain (h : Fines strict shape.children) (hs : shape.isPlain = true) : Fine strict ⟨info, shape⟩ :=
  .of_free (fun c hc => (h c hc).free) hs

theorem asPattern (h : Fine strict n) : Fine strict n.asPattern := by
  refine ⟨h.free.asPattern, ?_, ?_⟩
  · have hbody := h.isStrictBody
    obtain ⟨info, shape⟩ := n
    cases shape <;> first | rfl | exact hbody
  · have hdirective := h.isStrictDirective
    obtain ⟨info, shape⟩ := n
    cases shape <;> first | rfl | exact hdirective

end Fine

theorem Fines.asPatterns {ns : List Node} (h : Fines strict ns) : Fines strict (ns.map Node.asPattern) := by
  intro n hn
  obtain ⟨m, hm, rfl⟩ := List.mem_map.mp hn
  exact (h m hm).asPattern

/-- The parameters and the body of a function in strict code or elsewhere. -/
structure Legal (strict : Bool) (params : List Node) (body : Node) : Prop where
  free : ∀ n ∈ params, Freestanding (strict || body.isStrictBody) n
  sound : Sound { inFunction := true, strict := strict || body.isStrictBody } body
  names : (strict || body.isStrictBody) = true → Shape.StrictParameters params

section

variable {id : Option Node} {params : List Node} {body : Node}

theorem Legal.enclosed (h : Legal sc.strict params body) (hid : ∀ n ∈ id, Seated sc n) :
    ∀ x ∈ Shape.enclosedByFunction sc id params body, Seated x.1 x.2 := by
  intro x hx
  rcases List.mem_append.mp hx with hx | hx
  · rcases List.mem_append.mp hx with hx | hx
    · obtain ⟨n, hn, rfl⟩ := List.mem_map.mp hx
      exact hid n (Option.mem_toList.mp hn)
    · obtain ⟨n, hn, rfl⟩ := List.mem_map.mp hx
      exact (h.free n hn).seated rfl
  · obtain rfl := List.mem_singleton.mp hx
    exact ⟨h.sound, h.sound.inner rfl⟩

namespace Fine

theorem functions (hid : Fines strict id.toList) (h : Legal strict params body) :
    Fine strict ⟨info, .functionDeclaration kind id params body⟩ ∧
      Fine strict ⟨info, .functionExpression kind id params body⟩ := by
  constructor <;> refine ⟨?_, rfl, rfl⟩ <;> rintro sc rfl
  all_goals
    exact .of_seated trivial h.names (h.enclosed fun n hn => (hid n (Option.mem_toList.mpr hn)).free.seated rfl)

theorem arrowFunction {isAsync isExpression : Bool} (h : Legal strict params body) :
    Fine strict ⟨info, .arrowFunction isAsync params body isExpression⟩ := by
  refine ⟨fun sc hsc => ?_, rfl, rfl⟩
  subst hsc
  exact .of_seated trivial h.names (h.enclosed nofun)

/-- All code of a class is strict. -/
theorem classes {superClass : Option Node} (h : Fines true (id.toList ++ superClass.toList ++ [body])) :
    Fine strict ⟨info, .classDeclaration id superClass body⟩ ∧
      Fine strict ⟨info, .classExpression id superClass body⟩ := by
  have hall : ∀ sc : Scope, ∀ x ∈ (id.toList ++ superClass.toList ++ [body]).map ({ sc with strict := true }, ·),
      Seated x.1 x.2 := by
    intro sc x hx
    obtain ⟨n, hn, rfl⟩ := List.mem_map.mp hx
    exact (h n hn).free.seated rfl
  exact ⟨⟨fun sc _ => .of_seated trivial trivial (hall sc), rfl, rfl⟩,
    ⟨fun sc _ => .of_seated trivial trivial (hall sc), rfl, rfl⟩⟩

end Fine

end

end

/-! ## Comments beside nodes -/

namespace Node

def relabel (label : Info → Info) : Node → Node := fold fun info shape => ⟨label info, shape⟩

theorem annotate_eq_relabel (remarks : Nat → Remarks) (n : Node) :
    n.annotate remarks = n.relabel fun info => { info with remarks := remarks info.id } := rfl

section

variable {label : Info → Info}

theorem relabel_mk (info : Info) (shape : Shape Node) :
    relabel label ⟨info, shape⟩ = ⟨label info, shape.map (relabel label)⟩ :=
  congrArg (Node.mk _) (foldShape_eq_map _ shape)

theorem shape_relabel (n : Node) : (n.relabel label).shape = n.shape.map (relabel label) := by
  obtain ⟨info, shape⟩ := n
  rw [relabel_mk]

@[simp] theorem name?_relabel (n : Node) : (n.relabel label).name? = n.name? := by
  unfold name?
  rw [shape_relabel]
  cases n.shape <;> rfl

@[simp] theorem boundNames_relabel (n : Node) : (n.relabel label).boundNames = n.boundNames :=
  boundNames_of_map relabel_mk n

@[simp] theorem isStrictDirective_relabel (n : Node) :
    (n.relabel label).isStrictDirective = n.isStrictDirective := by
  unfold isStrictDirective
  rw [shape_relabel]
  cases n.shape <;> rfl

@[simp] theorem isStrictBody_relabel (n : Node) : (n.relabel label).isStrictBody = n.isStrictBody := by
  unfold isStrictBody
  rw [shape_relabel]
  cases n.shape with
  | blockStatement body =>
    show (body.map (relabel label)).any isStrictDirective = body.any isStrictDirective
    simp [List.any_map, Function.comp_def]
  | _ => rfl

end

end Node

namespace Shape

variable {β : Type} {sc : Scope} {label : Node.Info → Node.Info}

@[simp] theorem flatMap_boundNames_relabel (params : List Node) :
    (params.map (Node.relabel label)).flatMap Node.boundNames = params.flatMap Node.boundNames := by
  simp [List.flatMap_map]

theorem jumps_relabel (h : shape.Jumps sc) : (shape.map (Node.relabel label)).Jumps sc := by
  cases shape with
  | breakStatement target | continueStatement target =>
    cases target with
    | none => exact h
    | some target =>
      obtain ⟨name, hname, ht⟩ := h
      exact ⟨name, hname, (Node.name?_relabel target).trans ht⟩
  | labeledStatement target body =>
    obtain ⟨name, ht, hname⟩ := h
    exact ⟨name, (Node.name?_relabel target).trans ht, hname⟩
  | returnStatement => exact h
  | _ => trivial

theorem binds_relabel (h : shape.Binds sc) : (shape.map (Node.relabel label)).Binds sc := by
  cases shape with
  | functionDeclaration kind id params body | functionExpression kind id params body
  | arrowFunction isAsync params body isExpression =>
    intro hstrict
    rw [Node.isStrictBody_relabel] at hstrict
    simpa [StrictParameters, Functor.map] using h hstrict
  | _ => trivial

theorem children_relabel : (shape.map (Node.relabel label)).children = shape.children.map (Node.relabel label) := by
  unfold Node.relabel
  rw [← Node.foldShape_eq_map, Node.children_foldShape]

theorem isModuleItem_map (f : Node → β) : (shape.map f).isModuleItem = shape.isModuleItem := by
  cases shape <;> rfl

theorem hosts_relabel (h : shape.Hosts sc) : (shape.map (Node.relabel label)).Hosts sc := by
  refine ⟨fun hm => h.1 ((isModuleItem_map _).symm.trans hm), fun hl c hc => ?_⟩
  have hl' : shape.isList = false := by
    rw [← hl]
    cases shape <;> rfl
  rw [children_relabel] at hc
  obtain ⟨c', hc', rfl⟩ := List.mem_map.mp hc
  rw [Node.shape_relabel, isModuleItem_map]
  exact h.2 hl' c' hc'

theorem isPlain_map (f : Node → β) : (shape.map f).isPlain = shape.isPlain := by
  cases shape <;> rfl

theorem enclosed_relabel : (shape.map (Node.relabel label)).enclosed sc = (shape.enclosed sc).map fun x =>
      (x.1, x.2.relabel label) := by
  have hsame : (shape.map (Node.relabel label)).children.map (sc, ·) =
      (shape.children.map (sc, ·)).map fun x => (x.1, x.2.relabel label) := by
    rw [children_relabel, List.map_map, List.map_map]
    rfl
  by_cases hs : shape.isPlain = true
  · rw [enclosed_plain hs, enclosed_plain ((isPlain_map _).trans hs), hsame]
  · clear hs
    cases shape <;> first
      | exact hsame
      | simp [Shape.map, enclosed, enclosedByFunction, Functor.map, Function.comp_def, Option.toList_map]

end Shape

/-- Comments beside nodes change nothing. -/
theorem Sound.annotate {sc : Scope} {n : Node} (remarks : Nat → Remarks) (h : Sound sc n) :
    Sound sc (n.annotate remarks) := by
  rw [Node.annotate_eq_relabel]
  induction h with
  | node hj hb hm _ ih =>
    rw [Node.relabel_mk]
    refine .node (Shape.jumps_relabel hj) (Shape.binds_relabel hb) (Shape.hosts_relabel hm) fun x hx => ?_
    rw [Shape.enclosed_relabel] at hx
    obtain ⟨y, hy, rfl⟩ := List.mem_map.mp hx
    exact ih y hy

end ScriptTree
