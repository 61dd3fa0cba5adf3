import ScriptTree.Proofs.Parse.Context.Function

/-! # Markup restores the context

An element keeps the elements inside it on a stack while they are open. If the program ends before they are
closed, those around the innermost one are lost with what was read in them. -/

namespace ScriptTree.Parse

open Parts

variable {env : Env} {g : Grammar} [Restoring env g] {c : Context}

namespace Neutral

instance : Neutral enterMarkup := of_modify fun _ => .refl _
instance : Neutral nextMarkup := .bind
instance : Neutral nextText := .bind
instance : Neutral peekMarkup := by unfold peekMarkup; infer_instance
instance (mark : String) : Neutral (seesMarkup mark) := .bind
instance (mark : String) : Neutral (expectMarkup mark) := .bind
instance : Neutral leaveExpression := .bind
instance : Neutral markupMark := .bind

end Neutral

namespace Restores

instance : Restores env markupName := .routine

instance : Restores env elementName := .routine

instance : Restores env attributeName := .routine

instance : Restores env stringAttribute := .routine

instance : Restores env (expressionAttribute g) := .routine

instance : Restores env (attributeValue g) := .routine

instance : Restores env (namedAttribute g) := .routine

instance : Restores env (spreadAttribute g) := .routine

instance : Restores env (attributes g) := by
  have hitem : Restores env (do if ← seesMarkup "\x7b" then spreadAttribute g else namedAttribute g) :=
    .after fun _ => .fork .left .left
  unfold attributes
  infer_instance

/-! ## Elements -/

instance (start : Mark) : Restores env (openingTail g start) := .routine

instance : Restores env (openingElement g) := .routine

instance : Restores env (boundaryElement g) := .routine

instance : Restores env emptyExpression := .routine

instance : Restores env (expressionContainer g) := .routine

instance : Restores env (textChildren g) := by
  refine .of_leads fun c => ?_
  let I (found : List Node) := Leaving c found
  refine .loops (Q := I) I (fun _ h => h) (fun found => .keeps fun _ => ?_) fun found => ?_
  · refine .fork .pure <| .past <| .keeps fun _ => ?_
    extract_lets rest
    have hrest found : Leads env (I found) (rest found) fun r s => r.Satisfies (I · s) (I · s) := by
      refine .past <| .fork ?_ .pure
      refine .leaves fun n => .pure fun _ h => h.of_eq ?_
      exact Residue.union_comm ..
    split
    · refine .fork (.past <| .makes fun n hn => .pure_bind ?_) <| .pure_bind (hrest _)
      refine .weaken (fun _ h => h.of_eq ?_) (hrest (n :: found))
      have hr : n.residue = ∅ := congrArg Node.Summary.own hn
      show n.residue ∪ residue found = residue found
      rw [hr, Residue.empty_union]
    · exact .pure_bind (hrest _)
  · exact .shown (residue_reverse found).symm

end Restores

theorem isSelfClosing_eq (n : Node) : isSelfClosing n = n.summary.selfClosing := by
  obtain ⟨info, shape⟩ := n
  rw [Node.summary_mk]
  cases shape with
  | property kind => cases kind <;> rfl
  | methodDefinition key computed value kind => cases kind <;> rfl
  | assignmentPattern left right =>
    show false = (if _ then _ else _ : Node.Summary).selfClosing
    split <;> rfl
  | _ => rfl

instance : Leaves OpenElement := ⟨fun e => e.opening.residue ∪ residue e.children⟩

theorem residue_extend (e : OpenElement) (ns : List Node) :
    residue { e with children := e.children ++ ns } = residue e ∪ residue ns := by
  show e.opening.residue ∪ residue (e.children ++ ns) = e.opening.residue ∪ residue e.children ∪ _
  simp [Residue.union_assoc]

/-- All of an element is left, if it is closed. -/
def Closed (c : Context) (opening : Node) (x : List Node × Option Node) : State → Prop :=
  After c (opening.residue ∪ residue x.1 ∪ residue x.2 ∪ { hides := x.2.isNone })

/-- The first of the open elements is part of what is left of all of them. -/
theorem getter_outermost {es : List OpenElement} {opening : Node}
    (h : es.getLast?.map OpenElement.opening = some opening) (hg : opening.residue.getter = true) :
    (residue es).getter = true := by
  induction es with
  | nil => cases h
  | cons e es ih =>
    show ((e.opening.residue ∪ residue e.children) ∪ residue es).getter = true
    cases es with
    | nil =>
      obtain rfl : e.opening = opening := Option.some.inj h
      simp [hg]
    | cons e' es =>
      rw [List.getLast?_cons_cons] at h
      simp [ih h]

theorem elementTail_leaves {outer : OpenElement} :
    Leads env (Leaving c outer) (elementTail g outer) (Closed c outer.opening) := by
  -- the outermost element is the last on the stack
  let I (x : OpenElement × List OpenElement) (s : State) :=
    Leaving c x s ∧ (x.1 :: x.2).getLast?.map OpenElement.opening = some outer.opening
  refine .loop I (fun _ h => ⟨h.of_eq (Residue.union_empty _), rfl⟩) fun (e, stack) => .fact fun hlast => ?_
  refine .past <| .fork (.pure fun _ h => ?_) <| .leaves fun texts => ?_
  · refine After.hide h (fun hg => ?_) (Bool.or_true _)
    have hall : (residue (e :: stack)).getter = true := by
      have hparts : outer.opening.residue.getter = true ∨ (residue e.children).getter = true := by
        simpa using hg
      rcases hparts with hg | hg
      · exact getter_outermost hlast hg
      · show ((e.opening.residue ∪ residue e.children) ∪ residue stack).getter = true
        rw [Residue.getter_union, Residue.getter_union, hg]
        simp
    exact hall
  extract_lets e'
  refine .keeps fun start => .leaves fun tag => ?_
  have he : residue (e, stack) ∪ residue texts ∪ residue tag = residue e' ∪ residue stack ∪ tag.residue := by
    rw [residue_extend, residue_pair, residue_node]
    ac_rfl
  rw [he]
  split
  · -- a closing tag makes a child of the element above, or ends the outermost one
    extract_lets closed
    have hclosed : Leads env (After c (residue e' ∪ residue stack ∪ tag.residue)) (closed ())
        fun r s => r.Satisfies (I · s) (Closed c outer.opening · s) := by
      dsimp only [closed]
      split
      next parent rest =>
        refine .makes fun child hchild => .pure fun _ h => ⟨h.of_eq ?_, ?_⟩
        · have hr : child.residue = residue e' ∪ tag.residue := by
            refine (congrArg Node.Summary.own hchild).trans (Node.residue_closed.trans ?_)
            exact (Residue.union_assoc ..).symm
          rw [residue_pair, residue_extend]
          show residue parent ∪ (child.residue ∪ ∅) ∪ residue rest =
            residue e' ∪ (residue parent ∪ residue rest) ∪ tag.residue
          rw [hr]
          ac_rfl
        · cases rest <;> exact hlast
      next =>
        have hopening : e'.opening = outer.opening := Option.some.inj hlast
        refine .pure fun _ h => h.of_eq ?_
        rw [← hopening]
        show e'.opening.residue ∪ residue e'.children ∪ (tag.residue ∪ ∅) ∪ ∅ =
          e'.opening.residue ∪ residue e'.children ∪ ∅ ∪ tag.residue
        simp
    exact .pastIf hclosed
  · refine .ite (fun hself => ?_) fun _ => ?_
    · refine .makes fun child hchild => .pure fun _ h => ⟨h.of_eq ?_, ?_⟩
      · rw [isSelfClosing_eq] at hself
        have hr : child.residue = tag.residue :=
          (congrArg Node.Summary.own hchild).trans (Node.residue_selfClosing hself)
        rw [residue_pair, residue_extend]
        show residue e' ∪ (child.residue ∪ ∅) ∪ residue stack = _
        rw [hr]
        ac_rfl
      · cases stack <;> exact hlast
    · refine .pure fun _ h => ⟨h.of_eq ?_, ?_⟩
      · show tag.residue ∪ ∅ ∪ (residue e' ∪ residue stack) = _
        ac_rfl
      · cases stack <;> exact hlast

namespace Restores

instance : Restores env (element g) := by
  refine .of_leads fun c => .keeps fun start => .leaves fun opening => .ite (fun hself => ?_) fun hself => ?_
  · rw [isSelfClosing_eq] at hself
    exact .endsAs (Node.residue_selfClosing hself).symm
  · refine .bind (.weaken (fun _ h => h.of_eq ?_) elementTail_leaves) fun (children, closing) => ?_
    · exact Residue.union_empty _
    rw [isSelfClosing_eq, Bool.not_eq_true] at hself
    refine .endsAs ?_
    rw [Node.residue_element, hself]
    cases closing <;> simp [Residue.union_assoc]

instance : Restores env (rootElement g) := .routine

end Restores

end ScriptTree.Parse
