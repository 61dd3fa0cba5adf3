import ScriptTree.Proofs.Parse.Mirror.Function

/-! # Markup on both sides -/

namespace ScriptTree.Parse

variable {K : Comparison} [K.Lawful] {g : Grammar} [Mirroring K g]

instance : Mirrored K enterMarkup := .modifies {}

instance : Mirrored K nextMarkup := by
  refine .past <| .step fun start => .changes {} fun _ => ?_
  refine .step fun t => .step fun stop => .changes {} fun _ => ?_
  exact .past <| .pure

instance : Mirrored K nextText := by
  refine .step fun start => .changes {} fun _ => ?_
  refine .step fun t => .step fun stop => .changes {} fun _ => ?_
  exact .routine

instance : Mirrored K peekMarkup := by unfold peekMarkup; infer_instance
instance (mark : String) : Mirrored K (seesMarkup mark) := .routine

instance (mark : String) : Mirrored K (expectMarkup mark) := .routine

instance : Mirrored K leaveExpression :=
  .past <| .past <| Comparison.Lawful.unlist

instance : Mirrored K markupMark := .routine

instance : Mirrored K markupName := .routine

instance : Mirrored K elementName := .routine

instance : Mirrored K attributeName := .routine

instance : Mirrored K stringAttribute := .routine

instance : Mirrored K (expressionAttribute g) := .routine

instance : Mirrored K (attributeValue g) := .routine

instance : Mirrored K (namedAttribute g) := .routine

instance : Mirrored K (spreadAttribute g) := .routine

instance : Mirrored K (attributes g) := .until' (.past <| .pure) (.past <| .ite inferInstance inferInstance)

instance (start : Mark) : Mirrored K (openingTail g start) := .routine

instance : Mirrored K (openingElement g) := .routine

instance : Mirrored K (boundaryElement g) := .routine

instance : Mirrored K emptyExpression := by
  refine .step fun start => .past <| .step fun stop => ?_
  exact .changes {} fun _ => .finish rfl

instance : Mirrored K (expressionContainer g) := .routine

instance : Mirrored K (textChildren g) := by
  refine .andThen (.loop rfl fun found => ?_) fun found => .pure (relabel_reverse ..).symm
  exact .routine

instance : Relabels OpenElement where
  relabel r e := { e with opening := r e.opening, children := relabel r e.children }
  relabel_id e := by
    rw [relabel_id]
    rfl

theorem tagName_relabel (r : Node.Relabelling) (n : Node) : tagName (r n) = tagName n := by
  unfold tagName
  rw [r.node_shape]
  cases n.shape with
  | jsxOpeningElement name | jsxClosingElement name => exact qualifiedName_of_map r.node_mk name
  | _ => rfl

instance (outer : OpenElement) : Mirrors K (elementTail g outer) (elementTail g (relabel K.labels outer)) := by
  refine .loop rfl fun ⟨⟨first, opening, children⟩, stack⟩ => ?_
  refine .past <| .ite (.pure) (.bind fun texts => .step fun start => .bind fun tag => ?_)
  dsimp only [relabel]
  rw [← List.map_append, K.labels.node_shape, tagName_relabel, tagName_relabel, isSelfClosing_relabel]
  have hpush (e : OpenElement) (stack : List OpenElement) (child : Node) : (Round.again ({ relabel K.labels e with
          children := (relabel K.labels e).children ++ [K.labels child] }, relabel K.labels stack) :
        Round (OpenElement × List OpenElement) (List Node × Option Node)) =
      relabel K.labels (.again ({ e with children := e.children ++ [child] }, stack)) := by
    show _ = Round.again (OpenElement.mk _ _ (List.map _ (e.children ++ [child])), _)
    rw [List.map_append]
    rfl
  cases tag.shape with
  | jsxClosingElement =>
    refine .guard fun _ => ?_
    cases stack with
    | nil => exact .pure
    | cons parent stack => exact .builds rfl fun child => .pure (hpush parent stack child)
  | _ =>
    refine .ite (.builds rfl fun child => .pure ?_) (.pure)
    exact hpush ⟨first, opening, children ++ texts⟩ stack child

instance : Mirrored K (element g) := by
  refine .step fun start => .bind fun opening => ?_
  rw [relabel_node, isSelfClosing_relabel]
  refine .ite (.finish rfl) ?_
  exact .andThen (inferInstanceAs (Mirrors K (elementTail g { start, opening })
    (elementTail g (relabel K.labels { start, opening })))) fun ⟨children, closing⟩ => .finish rfl

instance : Mirrored K (rootElement g) := .unlist fun _ => .past <| .bind fun e => .past <| .pure

end ScriptTree.Parse
