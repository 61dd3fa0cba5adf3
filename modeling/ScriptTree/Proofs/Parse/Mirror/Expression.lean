import ScriptTree.Proofs.Parse.Mirror.Markup
import ScriptTree.Proofs.Parse.Mirror.Object

/-! # Expressions on both sides -/

namespace ScriptTree.Parse

variable {K : Comparison} [K.Lawful] {g : Grammar} [Mirroring K g]
variable (start : Token) (pending : List Pending) (e : Node)

instance : Mirrored K templatePiece := .routine

instance : Mirrored K templateHead := .routine

instance : Mirrored K templateMiddle := .routine

instance : Mirrored K (templateLiteral g) := .routine

instance : Mirrored K seesTemplate := .routine

instance : Mirrored K expectArrow := .routine

theorem arrowParameters_relabel (r : Node.Relabelling) (isAsync : Bool) (params : List Node) :
    arrowParameters isAsync (params.map r) = r (arrowParameters isAsync params) :=
  (r.node_bare (.arrowParameters isAsync params)).symm

/-- Parameters can be relabelled before or after they are turned into patterns. -/
theorem arrowPatterns_relabel (r : Node.Relabelling) (isAsync : Bool) (params : List Node) :
    arrowParameters isAsync ((params.map r).map Node.asPattern) =
      r (arrowParameters isAsync (params.map Node.asPattern)) := by
  rw [← arrowParameters_relabel, List.map_map, List.map_map]
  exact congrArg _ (List.map_congr_left fun n _ => (r.node_asPattern n).symm)

instance {α β : Type} [Relabels α] [Relabels β] : Relabels (α ⊕ β) where
  relabel r := Sum.map (relabel r) (relabel r)
  relabel_id a := by cases a <;> simp [relabel_id]

instance (first : Node) : Mirrors K (groupTail g first) (groupTail g (relabel K.labels first)) := by
  refine .past <| .loop rfl fun found => ?_
  have hparams (found : List Node) :
      (Round.done (.inr (arrowParameters false ((relabel K.labels found).reverse.map Node.asPattern))) :
        Round (List Node) (List Node ⊕ Node)) =
      relabel K.labels (.done (.inr (arrowParameters false (found.reverse.map Node.asPattern)))) := by
    rw [← relabel_reverse]
    exact congrArg (fun n => Round.done (Sum.inr n)) (arrowPatterns_relabel ..)
  refine .past <| .ite (.pure ?_) (.past <| .past <| .ite ?_ ?_)
  · rw [← relabel_reverse]
    rfl
  · exact .past <| .pure (hparams found)
  · refine .past <| .ite ?_ (.bind fun n => .pure)
    refine .step fun c => .guard fun _ => .bind fun ⟨rest, names⟩ => .past <| .step fun _ => ?_
    exact .past <| .pure (hparams (rest :: found))

instance : Mirrors K (groupEnd e) (groupEnd (relabel K.labels e)) := by
  have hone : arrowParameters false [(K.labels e).asPattern] =
      K.labels (arrowParameters false [e.asPattern]) := arrowPatterns_relabel K.labels false [e]
  unfold groupEnd
  rw [relabel_node, K.labels.node_isNamed, K.labels.node_shape]
  refine .past <| .past <| .ite (.ite ?_ ?_) (.past <| .pure)
  · exact .past <| .pure (arrowParameters_relabel K.labels false [e])
  · refine .step fun c => .guard fun _ => .step fun _ => ?_
    cases e.shape with
    | sequenceExpression expressions => exact .pure (arrowPatterns_relabel ..)
    | _ => exact .pure hone

instance : Mirrored K (group g) := by
  refine .past <| .past <| .ite ?_ (.step fun start => .past <| .ite ?_ ?_)
  · exact .past <| .past <| .pure (arrowParameters_relabel K.labels false [])
  · refine .bind fun ⟨rest, names⟩ => .past <| .step fun _ => ?_
    exact .pure (arrowParameters_relabel K.labels false [rest])
  · refine .past <| .bind fun first => .past <| .ite (.bind fun found => ?_) inferInstance
    cases found with
    | inl expressions => exact .builds rfl fun e => inferInstance
    | inr params => exact .pure

instance : Mirrored K literal := .routine

instance : Mirrored K regexLiteral := .routine

instance (word : String) : Mirrored K (wordOperand g word) := .routine

instance : Mirrored K (plainOperand g) := .routine

instance : Mirrored K (operand g) := by
  refine .ofOptions ?_
  rw [Comparison.Fair.jsx]
  exact .past <| .ite inferInstance inferInstance

/-! ## Calls and members -/

theorem Mirrors.argumentsBy {p p' : Parse Node} (hp : Mirrors K p p') :
    Mirrors K (argumentsBy g p) (argumentsBy g p') := by
  refine .past <| .past <| .either (.pure) (.loop rfl fun found => ?_) fun found => ?_
  · refine .past <| .either inferInstance inferInstance fun _ => .past <| .ite (.pure) ?_
    exact .past <| .past <| .ite (.pure) (.pure)
  · exact .past <| .pure (relabel_reverse ..).symm

instance : Mirrored K (arguments g) := .argumentsBy inferInstance

instance : Mirrored K (asyncArguments g) :=
  .argumentsBy (.bind fun _ => .past <| .pure)

instance : Mirrored K (newExpression g) := .routine

instance : Mirrored K (newOrOperand g) := .routine

instance (start : Mark) (object : Node) :
    Mirrors K (namedMember start object) (namedMember start (relabel K.labels object)) := .routine

instance (start : Mark) (object : Node) :
    Mirrors K (computedMember g start object) (computedMember g start (relabel K.labels object)) := .routine

instance (start : Mark) (tag : Node) :
    Mirrors K (taggedTemplate g start tag) (taggedTemplate g start (relabel K.labels tag)) := .routine

instance (maybeAsync : Bool) (callee : Node) : Mirrors K (callTail g start maybeAsync callee)
      (callTail g start maybeAsync (relabel K.labels callee)) := by
  unfold callTail
  rw [relabel_node, K.labels.node_shape]
  refine .step fun t => .past <| .either inferInstance inferInstance fun args => ?_
  dsimp -zeta only
  extract_lets rest rest'
  have hrest (u : Unit) : Mirrors K (rest u) (rest' u) := by
    refine .builds rfl fun e => .past <| .ite ?_ (.pure)
    exact .pure (arrowPatterns_relabel ..)
  have hlength : (relabel K.labels args).length = args.length := List.length_map ..
  rw [hlength]
  cases callee.shape with
  | importWord => exact .guard hrest
  | _ => exact hrest ()

instance : Mirrored K (callBase g) := .routine

instance : Mirrored K (call g) := .routine

instance : Mirrored K (callee g) := .routine

instance : Mirrored K (update g) := .routine

instance : Mirrored K (unary g) := .routine

instance : Mirrored K (power g) := .routine

instance : Relabels Operand := ⟨fun r o => { o with node := r o.node }, fun _ => rfl⟩
instance : Relabels Pending := ⟨fun r p => { p with left := relabel r p.left }, fun _ => rfl⟩

instance (least : Nat) (right : Operand) : Mirrors K (reduce least right pending)
      (reduce least (relabel K.labels right) (relabel K.labels pending)) := by
  induction pending generalizing right with
  | nil => exact .pure
  | cons p pending ih =>
    refine .ite (.builds rfl fun n => ?_) (.pure)
    exact ih ⟨p.left.token, n⟩

instance (right : Operand) :
    Mirrors K (reduceAll right pending) (reduceAll (relabel K.labels right) (relabel K.labels pending)) := by
  induction pending generalizing right with
  | nil => exact .pure
  | cons p pending ih => exact .builds rfl fun n => ih ⟨p.left.token, n⟩

instance : Mirrored K (binary g) := .routine

instance : Mirrored K (conditional g) := .routine

instance : Mirrored K startsExpression := by
  refine .step fun l => ?_
  split
  · refine .ofOptions ?_
    rw [Comparison.Fair.jsx]
    exact .pure
  · exact .pure
  · exact .pure

instance : Mirrored K (yieldExpression g) := .routine

instance (isAsync : Bool) (n : Node) :
    Mirrors K (arrowParameter isAsync n) (arrowParameter isAsync (relabel K.labels n)) := by
  obtain ⟨info, shape⟩ := n
  have hnode : relabel K.labels (Node.mk info shape) = ⟨K.labels.label info, shape.map K.labels⟩ :=
    K.labels.node_mk info shape
  rw [hnode]
  cases shape with
  | identifier name => exact .guard fun _ => .pure hnode.symm
  | assignmentPattern left right =>
    unfold arrowParameter
    dsimp only [Shape.map]
    rw [K.labels.node_shape right]
    cases right.shape with
    | yieldExpression argument delegate =>
      have hname : Node.mk (K.labels.label info) (.assignmentPattern (K.labels left) (K.labels right).yieldAsName) =
          K.labels ⟨info, .assignmentPattern left right.yieldAsName⟩ := by
        rw [K.labels.node_mk, ← K.labels.node_yieldAsName]
        rfl
      cases argument with
      | none => exact .pure hname
      | some argument => exact .past <| .pure hname
    | _ => exact .pure hnode.symm
  | _ => exact .pure hnode.symm

instance : Mirrors K (coverParameters e) (coverParameters (relabel K.labels e)) := by
  unfold coverParameters
  extract_lets none' check
  have hcheck (isAsync : Bool) (nodes : List Node) :
      Mirrors K (check isAsync nodes) (check isAsync (nodes.map K.labels)) := by
    refine .step fun c => .andThen (.forIn (fun n p => ?_) nodes none') fun p => ?_
    · refine .bind fun n => .pure ?_
      rw [relabel_node, K.labels.boundNames_node]
      show _ = ForInStep.yield (relabel K.labels (Parameters.push _ n))
      rw [Parameters.relabel_push, Parameters.relabel_foldl]
    · have hyield : (relabel K.labels p).params.any isYield = p.params.any isYield := by
        show (p.params.map K.labels).any isYield = _
        rw [List.any_map]
        exact congrArg p.params.any (funext fun n => isYield_relabel K.labels n)
      dsimp only
      rw [hyield]
      exact .guard fun _ => .ite (.past <| .andThen inferInstance fun _ => .pure) (.pure)
  clear_value check
  rw [relabel_node, K.labels.node_shape]
  cases e.shape with
  | identifier name => exact hcheck false [e]
  | arrowParameters isAsync nodes => exact hcheck isAsync nodes
  | _ => exact .pure

instance (isAsync : Bool) (p : Parameters) :
    Mirrors K (arrowTail g start isAsync p) (arrowTail g start isAsync (relabel K.labels p)) := by
  obtain ⟨params, simple, names, stricted, restricted, message⟩ := p
  refine .get fun s c => ?_
  extract_lets rest rest'
  have hrest (u : Unit) : Mirrors K (rest u) (rest' u) := by
    refine .step fun before => .past <| .past <| .step fun _ => ?_
    extract_lets tail tail'
    have htail (body : Node) : Mirrors K (tail body) (tail' (relabel K.labels body)) := by
      refine .step fun c => ?_
      extract_lets last more last' more'
      have hlast (u : Unit) : Mirrors K (last u) (last' u) := by
        refine .builds ?_ fun e => .past <| .pure
        rw [relabel_node, K.labels.node_shape]
        cases body.shape <;> rfl
      have hmore (u : Unit) : Mirrors K (more u) (more' u) := by
        cases stricted with
        | none => exact hlast ()
        | some o => exact .step hlast
      refine .ite ?_ (hlast ())
      cases restricted with
      | none => exact hmore ()
      | some o => exact .step hmore
    refine .ite (.past <| .bind fun body => .step fun _ => ?_) (.bind htail)
    exact .andThen (.pure) htail
  exact .ite (.step fun t => .step hrest) (hrest ())

instance (left : Node) :
    Mirrors K (assignmentTail g start left) (assignmentTail g start (relabel K.labels left)) := by
  unfold assignmentTail
  rw [relabel_node, K.labels.node_shape]
  refine .step fun c => .guard fun _ => .step fun c => ?_
  extract_lets tail rest rest'
  have htail (left : Node) : Mirrors K (tail left) (tail (relabel K.labels left)) :=
    .step fun t => .bind fun right => .builds rfl fun e => .past <| .pure
  have hrest (u : Unit) : Mirrors K (rest u) (rest' u) := by
    refine .past <| .ite (.andThen (.pure ?_) htail) (.past <| .andThen (.pure) htail)
    exact (K.labels.node_asPattern left).symm
  refine .ite ?_ (hrest ())
  cases left.shape with
  | identifier name => exact .guard fun _ => .guard hrest
  | _ => exact hrest ()

instance :
    Mirrors K (asyncParameter g start e) (asyncParameter g start (relabel K.labels e)) := by
  refine .step fun t => .past <| .past <| .ite (.bind fun n => .pure ?_) (.pure)
  exact arrowPatterns_relabel K.labels true [n]

instance : Mirrored K (assignment g) := by
  refine .step fun c => .past <| .ite inferInstance (.step fun start => ?_)
  refine .bind fun e => .bind fun e => ?_
  have hkind : arrowKind? (relabel K.labels e) = arrowKind? e := arrowKind?_relabel ..
  rw [hkind]
  refine .past <| .ite (.past <| .bind fun p => ?_) (.past <| .ite ?_ (.pure))
  · cases p with
    | none => exact .pure
    | some p =>
      exact inferInstanceAs (Mirrors K (arrowTail g start _ p) (arrowTail g start _ (relabel K.labels p)))
  · infer_instance

end ScriptTree.Parse
