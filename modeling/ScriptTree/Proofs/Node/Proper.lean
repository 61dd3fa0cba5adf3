import ScriptTree.Parse.Statement
import ScriptTree.Proofs.Node.Leaves
import ScriptTree.Proofs.Scan.Punctuators

/-! # Trees of accepted programs

What the rules of the grammar keep true of every node of a tree (`Shape.Proper`): what is assigned to, what
parameters bind, which names they bind twice, where lists of parameters are left over, and how many parts of
which kind templates, choices, classes and accessors have (`Shape.Formed`). A tree is `Proper` if that holds
of all its nodes. It is still so when an expression has become a pattern (`Proper.asPattern`),
and when comments are put beside nodes (`Proper.annotate`). -/

namespace ScriptTree

namespace Node

/-- Whether a piece of a template is its last one. -/
def tail? (n : Node) : Option Bool :=
  match n.shape with
  | .templateElement _ _ tail => some tail
  | _ => none

/-- The case of a choice for all other values. -/
def isDefaultCase (n : Node) : Bool :=
  match n.shape with
  | .switchCase test _ => test.isNone
  | _ => false

def isConstructor (n : Node) : Bool :=
  match n.shape with
  | .methodDefinition _ _ _ kind _ => kind == .constructor
  | _ => false

def isAsync (n : Node) : Bool :=
  match n.shape with
  | .functionExpression kind .. => kind == .async
  | _ => false

/-- A pattern that is declared without an initial value. -/
def isBarePattern (n : Node) : Bool :=
  match n.shape with
  | .variableDeclarator id none => !id.isIdentifier
  | _ => false

/-- In declarations of variables, patterns have initial values. -/
def isWhole (n : Node) : Bool :=
  match n.shape with
  | .variableDeclaration declarations kind => kind == .const || declarations.all (!·.isBarePattern)
  | _ => true

def functionParams? (n : Node) : Option (List Node) :=
  match n.shape with
  | .functionExpression _ _ params _ => some params
  | _ => none

end Node

namespace Shape

def isRest {α : Type} : Shape α → Bool
  | .restElement _ => true
  | _ => false

/-- A pattern with an initial value. -/
def isDefault {α : Type} : Shape α → Bool
  | .assignmentPattern .. => true
  | _ => false

def isDeclaration {α : Type} : Shape α → Bool
  | .variableDeclaration .. => true
  | _ => false

def loopHead? {α : Type} : Shape α → Option α
  | .forStatement init _ _ _ => init
  | .forInStatement left _ _ | .forOfStatement left _ _ => some left
  | _ => none

/-- Parts of patterns and objects, which no expression is. -/
def isPart {α : Type} (s : Shape α) : Bool := s.isPattern || s.isMember

/-- No expression that would have become a pattern. -/
def isSettled {α : Type} (s : Shape α) : Bool := !s.isCover

section

variable {α β : Type} (f : α → β) (s : Shape α)

theorem isRest_map : (s.map f).isRest = s.isRest := by cases s <;> rfl

theorem isDefault_map : (s.map f).isDefault = s.isDefault := by cases s <;> rfl

theorem isDeclaration_map : (s.map f).isDeclaration = s.isDeclaration := by cases s <;> rfl

theorem loopHead?_map : (s.map f).loopHead? = s.loopHead?.map f := by cases s <;> rfl

theorem isPart_map : (s.map f).isPart = s.isPart := by simp only [isPart, isPattern_map, isMember_map]

theorem isSettled_map : (s.map f).isSettled = s.isSettled := by simp only [isSettled, isCover_map]

end

/-- No expression becomes the rest of a list. -/
theorem isRest_asPattern {n : Node} (h : n.shape.isPart = false) : n.asPattern.shape.isRest = false := by
  obtain ⟨info, shape⟩ := n
  cases shape <;> first | rfl | cases h

/-- The parameters bind no name twice, or they bind one of the names that strict code may not bind. -/
def NamedApart (params : List Node) : Prop :=
  (params.flatMap Node.boundNames).Nodup ∨
    ∃ name ∈ params.flatMap Node.boundNames, Words.isRestricted name = true ∨ Words.isStrict name = true

/-- The function of an accessor: one that reads takes nothing, and one that writes takes one parameter, which is
not the rest of the arguments. -/
def Accesses (reads writes : Bool) (value : Node) : Prop :=
  (reads = true → value.functionParams? = some []) ∧
    (writes = true → ∃ p, value.functionParams? = some [p] ∧ p.shape.isRest = false)

theorem Accesses.neither {value : Node} : Accesses false false value := ⟨nofun, nofun⟩

/-- What holds of the number and the kinds of the parts of a node. -/
def Formed : Shape Node → Prop
  | .templateLiteral quasis expressions =>
    quasis.map Node.tail? = List.replicate expressions.length (some false) ++ [some true]
  | .switchStatement _ cases => cases.countP Node.isDefaultCase ≤ 1
  | .tryStatement _ handler finalizer => handler.isSome = true ∨ finalizer.isSome = true
  | .classBody body => body.countP Node.isConstructor ≤ 1
  | .methodDefinition _ _ value kind isStatic =>
    (kind = .constructor → Parse.isGenerator value = false ∧ isStatic = false) ∧
      Accesses (kind == .get) (kind == .set) value
  | .property kind _ _ value _ _ => Accesses (kind == .get) (kind == .set) value
  | _ => True

def EndsInTag (src : Source) : Prop := ∃ i, src.length = i + 1 ∧ src.at? i = some 0x3E

/-- An element closes itself, or a tag of the same name closes it, or the program ends before that. -/
def Enclosed (src : Source) (opening : Node) (children : List Node) (closing : Option Node) : Prop :=
  ∃ name selfClosing attributes, opening.shape = .jsxOpeningElement name selfClosing attributes ∧
    if selfClosing then children = [] ∧ closing = none
    else
      (∃ tag name', closing = some tag ∧ tag.shape = .jsxClosingElement name' ∧
        Parse.qualifiedName name' = Parse.qualifiedName name) ∨
      closing = none ∧ EndsInTag src

/-- What holds of each node of a tree. -/
def Proper (src : Source) : Shape Node → Prop
  | .assignmentExpression operator left _ =>
    if operator = "=" then left.AllLeaves passesAsTarget ∧ left.shape.isRest = false
    else left.AllTargets passesAsTarget ∧ left.shape.isPart = false
  | .updateExpression _ argument _ => argument.AllTargets passesAsTarget ∧ argument.shape.isPart = false
  | .forInStatement left _ _ | .forOfStatement left _ _ =>
    left.shape.isDeclaration = true ∨
      left.AllLeaves passesAsTarget ∧ left.shape.isRest = false ∧ left.shape.isDefault = false
  | .functionDeclaration _ _ params _ | .functionExpression _ _ params _ => ∀ p ∈ params, p.AllLeaves isName
  | .arrowFunction isAsync params _ _ =>
    NamedApart params ∧ (∀ p ∈ params, p.AllLeaves isSettled) ∧
      (isAsync = false → src.HasTrailingComma ∨ ∀ p ∈ params, p.AllLeaves passesAsName)
  | .arrowParameters isAsync params => isAsync = false ∧ params ≠ [] ∧ src.HasDanglingComma
  | .restElement argument => argument.AllLeaves isSettled
  | .assignmentPattern left _ => left.AllLeaves isSettled
  | .arrayPattern elements => ∀ n ∈ elements.filterMap id, n.AllLeaves isSettled
  | .objectPattern properties => ∀ m ∈ properties, ∀ l ∈ m.leavesOfProperty, l.shape.isSettled = true
  | .objectExpression properties => ∀ m ∈ properties, m.shape.isMember = true
  | .jsxElement opening children closing => Enclosed src opening children closing
  | shape => shape.Formed

end Shape

/-- A function does not become a pattern. -/
theorem Node.asPattern_of_functionParams {n : Node} {params : List Node} (h : n.functionParams? = some params) :
    n.asPattern = n := by
  refine asPattern_of_not_cover ?_
  obtain ⟨info, shape⟩ := n
  cases shape with
  | functionExpression => rfl
  | _ => cases h

theorem Shape.Accesses.asPattern {reads writes : Bool} {n : Node} (h : Accesses reads writes n) :
    Accesses reads writes n.asPattern := by
  refine ⟨fun hr => ?_, fun hw => ?_⟩
  · rw [Node.asPattern_of_functionParams (h.1 hr)]
    exact h.1 hr
  · obtain ⟨p, hn, hp⟩ := h.2 hw
    rw [Node.asPattern_of_functionParams hn]
    exact ⟨p, hn, hp⟩

/-- A name or an asterisk stands between two offsets. -/
def Source.HasWord (src : Source) (i j : Nat) : Prop :=
  ∃ (st : Scan.Settings) (c d : Scan.Cursor) (t : Token), st.source = src ∧ c.index = i ∧ d.index = j ∧
    (Parse.isNameToken t.lexeme || t.lexeme.isMark "*") = true ∧ Returns Scan.next st c t d

/-- Nothing but names and asterisks stands from one offset to another. -/
inductive Source.Words (src : Source) : Nat → Nat → Prop
  | none {i : Nat} : Words src i i
  | word {i j k l : Nat} : src.HasWord i j → src.Gap j k → Words src k l → Words src i l

/-- A bracket stands at the offset if the key is computed, and else the key. -/
def Source.HasKey (src : Source) (key : Node) (computed : Bool) (i : Nat) : Prop :=
  if computed then src.hasAt i "[" = true else ∀ r ∈ key.info.range, r.start = i

/-- The key comes after names and asterisks. -/
def Source.Keyed (src : Source) (key : Node) (computed : Bool) (i : Nat) : Prop :=
  ∃ j, src.Words i j ∧ src.HasKey key computed j

/-- At the offset there is a word by which a loop runs over members or values. -/
def Source.RunsOver (src : Source) (i : Nat) : Prop :=
  ∃ (st : Scan.Settings) (c d : Scan.Cursor) (t : Token), st.source = src ∧ c.index = i ∧
    (t.lexeme.isWord "in" || t.lexeme.isName "of") = true ∧ Returns Scan.next st c t d

namespace Shape

/-- Neither a name nor a member with a key nor a declaration of variables. -/
def isSimple {α : Type} : Shape α → Bool
  | .identifier .. | .property .. | .methodDefinition .. | .fieldDefinition .. | .variableDeclaration .. => false
  | _ => true

theorem not_isName_of_isSimple {α : Type} {shape : Shape α} (h : shape.isSimple = true) : shape.isName = false := by
  cases shape <;> first | rfl | cases h

/-- What stands where a member starts, and after a constant without a value. No key of a field or of an asynchronous
method of a class is told to be computed, and nothing is known of a static member that starts with a bracket. -/
def Keyed (src : Source) (info : Node.Info) : Shape Node → Prop
  | .property _ key computed _ _ _ => ∀ q ∈ info.range, src.Keyed key computed q.start
  | .methodDefinition key computed value _ isStatic => (value.isAsync = true → computed = false) ∧
    (value.isAsync = false → ∀ q ∈ info.range, (isStatic && src.hasAt q.start "[") = false →
      src.Keyed key computed q.start)
  | .fieldDefinition key computed _ isStatic => computed = false ∧
    ∀ q ∈ info.range, (isStatic && src.hasAt q.start "[") = false → src.Keyed key computed q.start
  | .variableDeclaration declarations kind => kind = .const → ∀ d ∈ declarations,
    Parse.isBareDeclaration [d] = true → ∀ q ∈ d.info.range, ∃ j, src.Gap q.stop j ∧ src.RunsOver j
  | _ => True

theorem Keyed.of_isSimple {src : Source} {info : Node.Info} {shape : Shape Node} (h : shape.isSimple = true) :
    shape.Keyed src info := by
  cases shape <;> trivial

end Shape

/-! ## Trees -/

/-- Each node of the tree is proper by itself, and in declarations that stand outside the heads of loops patterns
have initial values. -/
inductive Orderly (src : Source) : Node → Prop
  | node {info : Node.Info} {shape : Shape Node} : shape.Proper src → shape.Keyed src info →
      (∀ c ∈ shape.children, c.isWhole = true ∨ shape.loopHead? = some c) →
      (∀ c ∈ shape.children, Orderly src c) → Orderly src ⟨info, shape⟩

/-- The tree can stand anywhere. -/
structure Proper (src : Source) (n : Node) : Prop where
  orderly : Orderly src n
  whole : n.isWhole = true

def Propers (src : Source) (ns : List Node) : Prop := ∀ n ∈ ns, Proper src n

section

open Parts

variable {src : Source} {n m : Node} {ns ms : List Node} {info : Node.Info} {shape : Shape Node}

namespace Propers

@[simp] theorem nil : Propers src [] := nofun

@[simp] theorem cons_iff : Propers src (n :: ns) ↔ Proper src n ∧ Propers src ns := List.forall_mem_cons

@[simp] theorem append_iff : Propers src (ns ++ ms) ↔ Propers src ns ∧ Propers src ms :=
  List.forall_mem_append

@[simp] theorem reverse_iff : Propers src ns.reverse ↔ Propers src ns := by
  simp [Propers]

end Propers

namespace Orderly

theorem local' (h : Orderly src n) : n.shape.Proper src := by
  cases h
  assumption

theorem keyed (h : Orderly src n) : n.shape.Keyed src n.info := by
  cases h
  assumption

theorem whole (h : Orderly src n) (hm : m ∈ n.shape.children) : m.isWhole = true ∨ n.shape.loopHead? = some m := by
  cases h with
  | node _ _ hw => exact hw m hm

theorem children (h : Orderly src n) (hm : m ∈ n.shape.children) : Orderly src m := by
  cases h with
  | node _ _ _ hc => exact hc m hm

end Orderly

namespace Proper

theorem local' (h : Proper src n) : n.shape.Proper src := h.orderly.local'

theorem children (h : Proper src n) (hl : n.shape.loopHead? = none := by rfl) : Propers src n.shape.children :=
  fun _ hc => ⟨h.orderly.children hc, (h.orderly.whole hc).resolve_right (by simp [hl])⟩

theorem descend (h : Proper src n) (hm : n.Below m) : Orderly src m := by
  induction hm with
  | root => exact h.orderly
  | child _ hc ih => exact ih.children hc

/-- A loop of proper parts, whose head declares what it likes. -/
theorem loop (h : ∀ c ∈ shape.children, Proper src c ∨ Orderly src c ∧ shape.loopHead? = some c)
    (hs : shape.Proper src) (hk : shape.Keyed src info) (hw : (⟨info, shape⟩ : Node).isWhole = true) :
    Proper src ⟨info, shape⟩ :=
  ⟨.node hs hk (fun c hc => (h c hc).imp Proper.whole And.right)
    fun c hc => (h c hc).elim Proper.orderly And.left, hw⟩

/-- A node of proper parts, of which nothing else is demanded. -/
theorem plain (h : Propers src shape.children) (hs : shape.Proper src := by trivial)
    (hk : shape.Keyed src info := by trivial) (hw : (⟨info, shape⟩ : Node).isWhole = true := by rfl) :
    Proper src ⟨info, shape⟩ :=
  .loop (fun c hc => .inl (h c hc)) hs hk hw

theorem simple (h : Propers src shape.children) (hs : shape.Proper src) (hi : shape.isSimple = true) :
    Proper src ⟨info, shape⟩ := by
  refine .plain h hs (.of_isSimple hi) ?_
  cases shape <;> first | rfl | cases hi

/-- A name. -/
theorem of_isName (h : n.shape.isName = true) : Proper src n := by
  obtain ⟨info, shape⟩ := n
  cases shape with
  | identifier name => exact .plain nofun
  | _ => cases h

/-- In a proper tree patterns have no expression for a leaf that would have become a pattern. -/
theorem settled (h : Proper src n) (hc : n.shape.isCover = false) : n.AllLeaves Shape.isSettled := by
  obtain ⟨info, shape⟩ := n
  have hs := h.local'
  cases shape with
  | restElement | assignmentPattern => exact hs
  | arrayPattern => exact Node.allLeaves_array.mpr hs
  | objectPattern => exact Node.allLeaves_object.mpr hs
  | spreadElement | arrayExpression | objectExpression | assignmentExpression => cases hc
  | _ => exact (Node.allLeaves_of_not_pattern rfl).mpr rfl

/-- Expressions that have become patterns are proper, and their leaves are no such expressions any more. -/
theorem asPattern_settled (h : Proper src n) : Proper src n.asPattern ∧ n.asPattern.AllLeaves Shape.isSettled := by
  suffices hs : (Proper src n.asPattern ∧ n.asPattern.AllLeaves Shape.isSettled) ∧ (n.shape.isMember = true →
      Proper src n.asPatternProperty ∧ ∀ l ∈ n.asPatternProperty.leavesOfProperty, l.shape.isSettled = true) from hs.1
  induction n using Node.induction with
  | h info shape ih =>
    cases shape with
    | spreadElement argument =>
      obtain ⟨hp, hs⟩ := (ih argument (by simp) (h.children rfl argument (by simp))).1
      have hrest : Proper src ⟨{ info with cover := some .spread }, .restElement argument.asPattern⟩ :=
        .plain (by simpa using hp) hs
      exact ⟨⟨hrest, hs⟩, fun _ => ⟨hrest, hs⟩⟩
    | arrayExpression elements =>
      have hall : ∀ m ∈ (Node.asPatterns elements).filterMap id, Proper src m ∧ m.AllLeaves Shape.isSettled := by
        rw [Node.asPatterns_nodes, List.forall_mem_map]
        exact fun m hm => (ih m (by simpa using hm) (h.children rfl m (by simpa using hm))).1
      refine ⟨⟨.plain (fun m hm => (hall m (by simpa using hm)).1) fun m hm => (hall m hm).2, ?_⟩, fun hm => by cases hm⟩
      exact Node.allLeaves_array.mpr fun m hm => (hall m hm).2
    | objectExpression properties =>
      have hall : ∀ m ∈ Node.asPatternProperties properties,
          Proper src m ∧ ∀ l ∈ m.leavesOfProperty, l.shape.isSettled = true := by
        rw [Node.asPatternProperties_eq_map, List.forall_mem_map]
        exact fun m hm => (ih m (by simpa using hm) (h.children rfl m (by simpa using hm))).2 (h.local' m hm)
      refine ⟨⟨.plain (fun m hm => (hall m (by simpa using hm)).1) fun m hm => (hall m hm).2, ?_⟩, fun hm => by cases hm⟩
      exact Node.allLeaves_object.mpr fun m hm => (hall m hm).2
    | assignmentExpression operator left right =>
      have hparts : Proper src left ∧ Proper src right := by simpa using h.children
      obtain ⟨hp, hs⟩ := (ih left (by simp) hparts.1).1
      exact ⟨⟨.plain (by simpa using ⟨hp, hparts.2⟩) hs, hs⟩, fun hm => by cases hm⟩
    | property kind key computed value method =>
      have hparts : Proper src key ∧ Proper src value := by simpa using h.children
      obtain ⟨hp, hs⟩ := (ih value (by simp) hparts.2).1
      refine ⟨⟨h, h.settled rfl⟩, fun _ =>
        ⟨.plain (by simpa using ⟨hparts.1, hp⟩) (.asPattern h.local') h.orderly.keyed, ?_⟩⟩
      -- only a plain property has leaves below it
      cases kind with
      | init =>
        cases method with
        | false => exact hs
        | true => exact List.forall_mem_singleton.mpr rfl
      | _ => exact List.forall_mem_singleton.mpr rfl
    | _ => exact ⟨⟨h, h.settled rfl⟩, fun hm => by cases hm⟩

theorem asPattern (h : Proper src n) : Proper src n.asPattern := h.asPattern_settled.1

end Proper

theorem Propers.asPatterns (h : Propers src ns) : Propers src (ns.map Node.asPattern) :=
  List.forall_mem_map.mpr fun n hn => (h n hn).asPattern

/-! ## Comments beside nodes -/

section

variable {label : Node.Info → Node.Info}

namespace Shape

theorem isBareDeclaration_relabel (n : Node) :
    Parse.isBareDeclaration [n.relabel label] = Parse.isBareDeclaration [n] := by
  unfold Parse.isBareDeclaration
  dsimp only
  rw [Node.shape_relabel]
  cases n.shape with
  | variableDeclarator _ init => cases init <;> rfl
  | _ => rfl

@[simp] theorem isWhole_relabel (n : Node) : (n.relabel label).isWhole = n.isWhole := by
  have hbare (d : Node) : (d.relabel label).isBarePattern = d.isBarePattern := by
    unfold Node.isBarePattern
    rw [Node.shape_relabel]
    cases d.shape with
    | variableDeclarator id init => cases init <;> simp [Shape.map, Node.isIdentifier]
    | _ => rfl
  unfold Node.isWhole
  rw [Node.shape_relabel]
  cases n.shape with
  | variableDeclaration declarations => simp [Shape.map, Functor.map, List.all_map, Function.comp_def, hbare]
  | _ => rfl

@[simp] theorem tail?_relabel (n : Node) : (n.relabel label).tail? = n.tail? := by
  unfold Node.tail?
  rw [Node.shape_relabel]
  cases n.shape <;> rfl

@[simp] theorem isDefaultCase_relabel (n : Node) : (n.relabel label).isDefaultCase = n.isDefaultCase := by
  unfold Node.isDefaultCase
  rw [Node.shape_relabel]
  cases n.shape with
  | switchCase test => cases test <;> rfl
  | _ => rfl

@[simp] theorem isConstructor_relabel (n : Node) : (n.relabel label).isConstructor = n.isConstructor := by
  unfold Node.isConstructor
  rw [Node.shape_relabel]
  cases n.shape <;> rfl

@[simp] theorem isGenerator_relabel (n : Node) :
    Parse.isGenerator (n.relabel label) = Parse.isGenerator n := by
  unfold Parse.isGenerator
  rw [Node.shape_relabel]
  cases n.shape <;> rfl

theorem isAsync_relabel (n : Node) : (n.relabel label).isAsync = n.isAsync := by
  unfold Node.isAsync
  rw [Node.shape_relabel]
  cases n.shape <;> rfl

@[simp] theorem functionParams?_relabel (n : Node) :
    (n.relabel label).functionParams? = n.functionParams?.map (List.map (Node.relabel label)) := by
  unfold Node.functionParams?
  rw [Node.shape_relabel]
  cases n.shape <;> rfl

theorem Accesses.relabel {reads writes : Bool} {n : Node} (h : Accesses reads writes n) :
    Accesses reads writes (n.relabel label) := by
  refine ⟨fun hr => by rw [functionParams?_relabel, h.1 hr]; rfl, fun hw => ?_⟩
  obtain ⟨p, hn, hp⟩ := h.2 hw
  refine ⟨p.relabel label, by rw [functionParams?_relabel, hn]; rfl, ?_⟩
  rw [Node.shape_relabel, isRest_map, hp]

theorem formed_relabel (h : shape.Formed) : (shape.map (Node.relabel label)).Formed := by
  cases shape with
  | templateLiteral quasis expressions =>
    simpa [Shape.map, Formed, Functor.map, Function.comp_def] using h
  | switchStatement discriminant cases =>
    simpa [Shape.map, Formed, Functor.map, List.countP_map, Function.comp_def] using h
  | tryStatement block handler finalizer =>
    simpa [Shape.map, Formed] using h
  | classBody body =>
    simpa [Shape.map, Formed, Functor.map, List.countP_map, Function.comp_def] using h
  | methodDefinition => exact ⟨fun hk => by rw [isGenerator_relabel]; exact h.1 hk, h.2.relabel⟩
  | property => exact Accesses.relabel h
  | _ => trivial

theorem Enclosed.relabel {opening : Node} {children : List Node} {closing : Option Node}
    (h : Enclosed src opening children closing) :
    Enclosed src (opening.relabel label) (children.map (Node.relabel label)) (closing.map (Node.relabel label)) := by
  obtain ⟨name, selfClosing, attributes, hopening, h⟩ := h
  refine ⟨name.relabel label, selfClosing, attributes.map (Node.relabel label), ?_, ?_⟩
  · rw [Node.shape_relabel, hopening]
    rfl
  cases selfClosing with
  | true =>
    obtain ⟨rfl, rfl⟩ := h
    exact ⟨rfl, rfl⟩
  | false =>
    rcases h with ⟨tag, name', rfl, htag, hname⟩ | ⟨rfl, hend⟩
    · refine .inl ⟨tag.relabel label, name'.relabel label, rfl, ?_, ?_⟩
      · rw [Node.shape_relabel, htag]
        rfl
      · rwa [Parse.qualifiedName_of_map Node.relabel_mk, Parse.qualifiedName_of_map Node.relabel_mk]
    · exact .inr ⟨rfl, hend⟩

theorem keyed_relabel {info : Node.Info} (hr : ∀ i, (label i).range = i.range) (h : shape.Keyed src info) :
    (shape.map (Node.relabel label)).Keyed src (label info) := by
  have hkey {key : Node} {computed : Bool} {i : Nat} (h : src.Keyed key computed i) :
      src.Keyed (key.relabel label) computed i := by
    obtain ⟨j, hw, hk⟩ := h
    refine ⟨j, hw, ?_⟩
    cases key
    simpa [Source.HasKey, Node.relabel_mk, hr] using hk
  cases shape with
  | property => exact fun q hq => hkey (h q (hr _ ▸ hq))
  | methodDefinition key computed value =>
    have ha : (value.relabel label).isAsync = value.isAsync := isAsync_relabel value
    exact ⟨fun h' => h.1 (ha ▸ h'), fun h' q hq hs => hkey (h.2 (ha ▸ h') q (hr _ ▸ hq) hs)⟩
  | fieldDefinition => exact ⟨h.1, fun q hq hs => hkey (h.2 q (hr _ ▸ hq) hs)⟩
  | variableDeclaration declarations =>
    intro hc
    refine List.forall_mem_map.mpr fun d hd hb q hq => h hc d hd ?_ q ?_
    · rwa [isBareDeclaration_relabel] at hb
    · obtain ⟨i, s⟩ := d
      exact hr i ▸ hq
  | _ => trivial

theorem proper_relabel (hl : ∀ i c, label { i with cover := c } = { label i with cover := c })
    (h : shape.Proper src) : (shape.map (Node.relabel label)).Proper src := by
  have hshape {p : Shape Node → Bool} (hp : ∀ r (s : Shape Node), p (s.map r) = p s) (n : Node) :
      p (n.relabel label).shape = p n.shape := by rw [Node.shape_relabel, hp]
  have htargets := Node.allTargets_relabel hl (passesAsTarget_map _)
  have hreferences := Node.allLeaves_relabel (passesAsTarget_map (Node.relabel label))
  have hsettled := Node.allLeaves_relabel (isSettled_map (Node.relabel label))
  have hbound := Node.allLeaves_relabel (passesAsName_map (Node.relabel label))
  have hformed : shape.Formed → (shape.map (Node.relabel label)).Formed := formed_relabel
  cases shape with
  | assignmentExpression | updateExpression | forInStatement | forOfStatement | arrowParameters | restElement |
      assignmentPattern | objectExpression =>
    simpa [Proper, Shape.map, Functor.map, htargets, hreferences, hsettled, hshape isRest_map, hshape isPart_map,
      hshape isDeclaration_map, hshape isDefault_map, hshape isMember_map] using h
  | functionDeclaration | functionExpression =>
    simpa [Proper, Shape.map, Functor.map, Node.allLeaves_relabel (isName_map (Node.relabel label))] using h
  | arrowFunction =>
    simpa [Proper, NamedApart, Shape.map, Functor.map, hsettled, hbound] using h
  | arrayPattern elements =>
    have hall := (hsettled ⟨{}, .arrayPattern elements⟩).mpr (Node.allLeaves_array.mpr h)
    rw [Node.relabel_mk] at hall
    exact Node.allLeaves_array.mp hall
  | objectPattern properties =>
    have hall := (hsettled ⟨{}, .objectPattern properties⟩).mpr (Node.allLeaves_object.mpr h)
    rw [Node.relabel_mk] at hall
    exact Node.allLeaves_object.mp hall
  | jsxElement => exact Enclosed.relabel h
  | templateLiteral | switchStatement | tryStatement | classBody | methodDefinition | property =>
    exact hformed h
  | _ => trivial

end Shape

end

/-- Comments beside nodes change nothing. -/
theorem Proper.annotate (remarks : Nat → Remarks) (h : Proper src n) : Proper src (n.annotate remarks) := by
  rw [Node.annotate_eq_relabel]
  obtain ⟨h, hwhole⟩ := h
  refine ⟨?_, by rw [Shape.isWhole_relabel, hwhole]⟩
  clear hwhole
  induction h with
  | node hs hk hw _ ih =>
    rw [Node.relabel_mk]
    refine .node (Shape.proper_relabel (fun _ _ => rfl) hs) (Shape.keyed_relabel (fun _ => rfl) hk) ?_ ?_
    all_goals rw [Shape.children_relabel]
    · refine List.forall_mem_map.mpr fun m hm => (hw m hm).imp (fun h => ?_) fun h => ?_
      · rw [Shape.isWhole_relabel, h]
      · rw [Shape.loopHead?_map, h]
        rfl
    · exact List.forall_mem_map.mpr ih

end

mutual

def Node.tags : Node → List Node
  | ⟨_, .jsxElement opening children closing⟩ => opening :: (Node.tagsOf children ++ closing.toList)
  | _ => []

def Node.tagsOf : List Node → List Node
  | [] => []
  | n :: ns => n.tags ++ tagsOf ns

end

theorem Node.tagsOf_append (ns ms : List Node) : tagsOf (ns ++ ms) = tagsOf ns ++ tagsOf ms := by
  induction ns with
  | nil => rfl
  | cons n ns ih => rw [List.cons_append, tagsOf, tagsOf, ih, List.append_assoc]

end ScriptTree
