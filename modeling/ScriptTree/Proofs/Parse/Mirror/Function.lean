import ScriptTree.Proofs.Parse.Mirror.Step

/-! # Names, patterns and functions on both sides -/

namespace ScriptTree.Parse

variable {α β : Type} [Relabels α] [Relabels β] {K : Comparison} {g : Grammar}

/-- The members of the grammar do the same on both sides. -/
class Mirroring (K : Comparison) (g : Grammar) : Prop where
  assignment : Mirrored K g.assignment
  unary : Mirrored K g.unary
  power : Mirrored K g.power
  call : Mirrored K g.call
  callee : Mirrored K g.callee
  pattern : ∀ kind, Mirrored K (g.pattern kind)
  statement : Mirrored K g.statement
  item : Mirrored K g.item
  element : Mirrored K g.element

attribute [instance] Mirroring.assignment Mirroring.unary Mirroring.power Mirroring.call Mirroring.callee
  Mirroring.pattern Mirroring.statement Mirroring.item Mirroring.element

variable [K.Lawful] [Mirroring K g]

instance : Mirrored K (expression g) := .routine

instance : Mirrored K anyName := .routine

instance (kind : Option DeclarationKind) : Mirrored K (bindingName kind) := .routine

instance : Mirrored K (propertyKey g) := .routine

instance : Mirrored K seesAsyncFunction := .routine

instance : Mirrored K seesImportCall := .routine

section

variable (kind : Option DeclarationKind)

instance : Mirrored K (patternWithDefault g kind) := .routine

instance : Mirrored K (bindingRest g kind) := .routine

instance : Mirrored K (arrayPattern g kind) := .routine

instance : Mirrored K (propertyPattern g kind) := .routine

instance : Mirrored K (restProperty g) := .routine

instance : Mirrored K (objectPattern g kind) := by
  refine .step fun start => .past <| .andThen (.until' inferInstance ?_) ?_
  · exact .routine
  · intro found
    refine .past <| .builds ?_ fun _ => .pure ?_
    · rw [← relabel_fst]
      rfl
    · have hnames : (relabel K.labels found).flatMap Prod.snd = found.flatMap Prod.snd :=
        List.flatMap_map ..
      rw [hnames]
      rfl

instance : Mirrored K (pattern g kind) := .routine

end

/-! ## Parameters -/

namespace Parameters

variable (r : Node.Relabelling)

theorem relabel_bind (p : Parameters) (strict : Bool) (o : Offender) (name : Text) :
    relabel r (p.bind strict o name) = (relabel r p).bind strict o name := by
  unfold bind
  cases strict with
  | true =>
    cases p.names.contains name <;> cases Words.isRestricted name <;> rfl
  | false =>
    cases p.restricted <;> cases Words.isRestricted name <;> cases Words.isStrict name <;>
      cases p.names.contains name <;> rfl

theorem relabel_foldl {ι : Type} (names : List ι) (strict : Bool) (o : ι → Offender) (name : ι → Text)
    (p : Parameters) :
    relabel r (names.foldl (fun p t => p.bind strict (o t) (name t)) p) =
      names.foldl (fun p t => p.bind strict (o t) (name t)) (relabel r p) := by
  induction names generalizing p with
  | nil => rfl
  | cons t names ih =>
    rw [List.foldl_cons, List.foldl_cons, ih, relabel_bind]

theorem relabel_push (p : Parameters) (n : Node) : relabel r (p.push n) = (relabel r p).push (r n) := by
  simp only [push, relabel, List.map_append, r.node_isIdentifier, r.node_cover]
  rfl

end Parameters

instance : Mirrored K (restParameter g) := .routine

instance (p : Parameters) : Mirrors K (parameter g p) (parameter g (relabel K.labels p)) := by
  refine .past <| .either inferInstance inferInstance fun ⟨n, names⟩ => .step fun c => .pure ?_
  rw [Parameters.relabel_push, Parameters.relabel_foldl]
  rfl

instance (o : Option Offender) : Mirrored K (parameters g o) := .routine

instance : Mirrored K (directive g) := by
  refine .step fun t => .step fun start => .bind fun e => ?_
  rw [relabel_node, K.labels.node_shape]
  extract_lets rest rest'
  have hrest (text : Text) : Mirrors K (rest text) (rest' text) := .past <| .finish (by split <;> rfl)
  cases e.shape with
  | literal | regexLiteral => exact .step fun raw => .andThen (.pure) hrest
  | _ => exact .andThen (.pure) hrest

instance : Mirrored K (prologue g) := by
  refine .andThen (.loop rfl fun ⟨found, octal⟩ => ?_) fun found => .pure (relabel_reverse ..).symm
  refine .step fun t => ?_
  split
  · refine .bind fun n => ?_
    rw [relabel_node, K.labels.node_shape]
    cases n.shape with
    | directive e text =>
      refine .ite (.step fun _ => ?_) (.pure)
      exact .routine
    | _ => exact .pure
  · exact .pure

instance : Mirrored K (functionBody g) := .routine

instance : Relabels FunctionName :=
  ⟨fun r name => { name with id := relabel r name.id }, fun name => by rw [relabel_id]⟩

instance (id : Node) (t : Token) : Mirrors K (checkFunctionName id t) (checkFunctionName (relabel K.labels id) t) := .routine

instance (name : FunctionName) : Mirrors K (functionTail g name) (functionTail g (relabel K.labels name)) := .routine

instance : Mirrored K functionHead := .routine

instance (kind : FunctionKind) : Mirrored K (enterFunction kind) := by
  unfold enterFunction; infer_instance

instance (c : Context) : Mirrored K (leaveFunction c) := by
  unfold leaveFunction; infer_instance

instance (nameIsOptional : Bool) : Mirrored K (functionDeclaration g nameIsOptional) := .routine

instance : Mirrored K (functionExpression g) := .routine

instance (p : Parameters) : Mirrors K (methodBody g p) (methodBody g (relabel K.labels p)) := .routine

instance : Mirrored K (plainMethod g) := .routine

instance : Mirrored K (asyncMethod g) := .routine

instance : Mirrored K (getter g) := .routine

instance : Mirrored K (setter g) := by
  refine .step fun start => .step fun before => .past <| .bind fun p => ?_
  extract_lets rest rest'
  have hrest (u : Unit) : Mirrors K (rest u) (rest' u) := .bind fun body => .past <| .finish rfl
  obtain ⟨params, simple, names, stricted, restricted, message⟩ := p
  match params with
  | [] => exact .step hrest
  | [n] =>
    show Mirrors K _ (if isRest (K.labels n) then _ else _)
    rw [isRest_relabel]
    exact .guard hrest
  | _ :: _ :: _ => exact .step hrest

instance : Mirrored K (generatorMethod g) := .routine

end ScriptTree.Parse
