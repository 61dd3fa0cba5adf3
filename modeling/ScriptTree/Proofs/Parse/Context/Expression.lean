import ScriptTree.Proofs.Parse.Context.Markup
import ScriptTree.Proofs.Parse.Context.Object

/-! # Expressions restore the context

A list of operands with pending operators leaves behind what all of them do, and joining them changes
nothing about that. What an expression leaves behind is the same when it turns out to be a pattern or the
parameters of an arrow function. -/

namespace ScriptTree.Parse

variable {isAsync : Bool} {r : Residue}

open Parts

variable {env : Env} {g : Grammar} [Restoring env g] {c : Context}

namespace Restores

instance : Restores env templatePiece := .routine

instance : Restores env templateHead := .routine

instance : Restores env templateMiddle := .routine

instance : Restores env (templateLiteral g) := .routine

end Restores

/-! ## Parentheses -/

instance : Leaves (List Node ⊕ Node) := ⟨fun x => x.elim residue Node.residue⟩

@[simp] theorem residue_inl (ns : List Node) : residue (.inl ns : List Node ⊕ Node) = residue ns := rfl
@[simp] theorem residue_inr (n : Node) : residue (.inr n : List Node ⊕ Node) = n.residue := rfl

theorem residue_asPatterns (ns : List Node) : residue (ns.map Node.asPattern) = residue ns := by
  simp [Function.comp_def]

@[simp] theorem residue_plainParameters (ns : List Node) : (arrowParameters false ns).residue = residue ns :=
  Node.residue_arrowParameters.trans (Residue.union_empty _)

/-- What stands before the parameters of an asynchronous arrow function is dropped. -/
theorem After.asyncParameters {s : State} {ns : List Node} (h : After c r s)
    (hg : (residue ns).getter = true → r.getter = true) :
    After c (arrowParameters true ns).residue s := by
  have hr : (arrowParameters true ns).residue = residue ns ∪ { hides := true } :=
    Node.residue_arrowParameters
  refine h.hide (fun hg' => hg ?_) ?_
  · rw [hr] at hg'
    simpa using hg'
  · rw [hr]
    exact Bool.or_true _

instance (first : Node) : Carries env first.residue (groupTail g first) := .routine

instance (e : Node) : Carries env e.residue (groupEnd e) := by
  refine ⟨fun c => .past <| .past <| .fork (.fork ?_ ?_) ?_⟩
  · refine .past <| .shown ?_
    rw [residue_node, residue_plainParameters]
    simp
  · refine .past <| .pastIf <| .keeps fun _ => ?_
    split
    next expressions he =>
      refine .shown ?_
      rw [residue_node, residue_plainParameters, residue_asPatterns]
      obtain ⟨info, shape⟩ := e
      subst he
      refine (Node.residue_ordinary rfl).trans ?_
      simp
    · refine .shown ?_
      rw [residue_node, residue_plainParameters]
      simp
  · exact .past <| .shown rfl

namespace Restores

instance : Restores env (group g) := .routine

instance : Restores env literal := .routine

instance : Restores env regexLiteral := .routine

instance (word : String) : Restores env (wordOperand g word) := .routine

instance : Restores env (plainOperand g) := .routine

instance : Restores env (operand g) := .routine

instance (argument : Parse Node) [Restores env argument] : Restores env (argumentsBy g argument) := .routine

instance : Restores env (arguments g) := .routine

instance : Restores env (asyncArguments g) := by
  have : Restores env (do
      let n ← g.assignment
      setContext fun c => { c with coverError := none }
      return n) := .of_leads fun _ => .leaves fun n => .past <| .shown rfl
  unfold asyncArguments
  infer_instance

instance : Restores env (newExpression g) := .routine

instance : Restores env (newOrOperand g) := .routine

end Restores

section

variable {start : Mark} {object : Node}

omit [Restoring env g] in
instance : Carries env object.residue (namedMember start object) := .routine

instance : Carries env object.residue (computedMember g start object) := .routine

instance : Carries env object.residue (taggedTemplate g start object) := .routine

end

instance (start : Token) (maybeAsync : Bool) (callee : Node) :
    Carries env callee.residue (callTail g start maybeAsync callee) := by
  refine ⟨fun c => .past <| .keeps fun _ => ?_⟩
  extract_lets rest
  have hrest args : Leads env (After c (callee.residue ∪ residue args)) (rest args) (Leaving c) := by
    dsimp -zeta only [rest]
    extract_lets made
    have hmade : Leads env (After c (callee.residue ∪ residue args)) (made ()) (Leaving c) := by
      refine .builds fun e he => .past <| .fork (.pure fun _ h => ?_) <| .shown ?_
      · refine h.asyncParameters fun hg => ?_
        rw [residue_asPatterns] at hg
        rw [Residue.getter_union, hg]
        exact Bool.or_true _
      · simp [he]
    split
    · exact .pastIf hmade
    · exact hmade
  exact .fork (.leaves hrest) <| .leaves hrest

namespace Restores

instance : Restores env (callBase g) := .routine

instance : Restores env (call g) := .routine

instance : Restores env (callee g) := .routine

instance : Restores env (update g) := .routine

instance : Restores env (unary g) := .routine

instance : Restores env (power g) := .routine

end Restores

instance : Leaves Operand := ⟨fun o => o.node.residue⟩
instance : Leaves Pending := ⟨fun p => p.left.node.residue⟩

omit [Restoring env g] in
theorem join_leaves (p : Pending) (right : Operand) (rest : List Pending) (k : Nat) :
    Leads env (After c (residue right ∪ residue (p :: rest)))
      (finish (tokenMark p.left.token k) (.binaryExpression p.operator p.left.node right.node))
      fun n => After c (n.residue ∪ residue rest) := by
  rw [← bind_pure (finish _ _)]
  refine .builds fun n hn => .pure fun _ h => h.of_eq ?_
  show n.residue ∪ residue rest = right.node.residue ∪ (p.left.node.residue ∪ residue rest)
  have hboth : n.residue = p.left.node.residue ∪ right.node.residue := by simp [hn]
  rw [hboth]
  ac_rfl

namespace Restores

instance : Restores env (binary g) := by
  refine .of_leads fun c => .keeps fun start => .leaves fun first => .past <| .keeps fun _ => ?_
  refine .fork (.shown rfl) <| .keeps fun t => .past <| .keeps fun token => ?_
  refine .leaves fun second => ?_
  let S (right : Operand) (pending : List Pending) := After c (residue right ∪ residue pending)
  refine .loop (fun x => S x.1 x.2) (fun _ h => h.of_eq ?_) fun (right, pending) => .past <| .keeps fun _ => ?_
  · show second.residue ∪ (first.residue ∪ ∅) = ∅ ∪ first.residue ∪ second.residue
    ac_rfl
  · refine .fork (.bind (Q := Leaving c) (.reducesAll (S := S) join_leaves fun _ _ h => h.of_eq ?_) fun _ => .pure) ?_
    · exact (Residue.union_empty _).symm
    refine .bind (.reduces (S := S) join_leaves) fun (left, pending) => .past <| .past <| .leaves fun n => ?_
    refine .pure fun _ h => h.of_eq ?_
    show n.residue ∪ (left.node.residue ∪ residue pending) = left.node.residue ∪ residue pending ∪ n.residue
    ac_rfl

instance : Restores env (conditional g) := .routine

end Restores

/-! ## Assignments, arrow functions and yields -/

instance : Plain env (yieldExpression g) := .routine

omit [Restoring env g] in
/-- A yield that turns out to be a name leaves nothing behind either way. -/
theorem arrowParameter_leaves {n : Node} :
    Leads env (After c r) (arrowParameter isAsync n) fun n' s => After c r s ∧ n'.residue = n.residue := by
  obtain ⟨info, shape⟩ := n
  unfold arrowParameter
  dsimp only
  split
  next left right =>
    split
    next argument delegate hyield =>
      refine .pastIf <| .pure fun _ h => ⟨h, ?_⟩
      have hright : right.yieldAsName.residue = right.residue := by
        obtain ⟨info, shape⟩ := right
        subst hyield
        rfl
      rw [Node.residue_pattern, Node.residue_pattern, hright]
    next => exact .pure fun _ h => ⟨h, rfl⟩
  next => exact .pastIf <| .pure fun _ h => ⟨h, rfl⟩
  next => exact .pure fun _ h => ⟨h, rfl⟩

/-- The parameters are all that is left of the expression. -/
def IsCover (e : Node) (p : Parameters) : Prop :=
  e.residue = residue p ∪ { hides := (arrowKind? e).getD false }

omit [Restoring env g] in
theorem coverParameters_leaves {e : Node} :
    Leads env (After c r) (coverParameters e) fun x s => After c r s ∧ ∀ p ∈ x, IsCover e p := by
  unfold coverParameters
  extract_lets p check
  have hcheck isAsync nodes : e.residue = residue nodes ∪ { hides := (arrowKind? e).getD false } →
      Leads env (After c r) (check isAsync nodes) fun x s => After c r s ∧ ∀ p ∈ x, IsCover e p := by
    intro he
    refine .keeps fun d => ?_
    let I (known : List Node) (p : Parameters) (s : State) :=
      After c r s ∧ residue p = residue known
    refine .bind (.weaken (P := I [] p) (fun _ h => ⟨h, rfl⟩) (.forIn I ?_)) fun p => ?_
    · refine fun known n p => .fact fun hp => .bind arrowParameter_leaves fun n' => .pure ?_
      rintro s ⟨h, hn⟩
      refine ⟨_, rfl, h, ?_⟩
      rw [Restores.residue_push p n' (p.params_foldl_bind ..), hp, hn]
      simp
    · refine .fact fun hp => .pastIf <| .fork (.past .fails_bind) <| .pure fun _ h => ⟨h, ?_⟩
      rintro _ ⟨⟩
      rw [IsCover, he, hp]
      rfl
  obtain ⟨info, shape⟩ := e
  dsimp only
  split
  next name =>
    refine hcheck _ _ ?_
    rfl
  next isAsync nodes =>
    refine hcheck isAsync nodes ?_
    rw [Node.residue_arrowParameters]
    rfl
  next => exact .pure fun _ h => ⟨h, fun _ hp => by cases hp⟩

theorem arrowTail_leaves {start : Token} {p : Parameters} :
    Leads env (After c (residue p ∪ { hides := isAsync })) (arrowTail g start isAsync p) (Leaving c) := by
  refine .keeps fun _ => ?_
  extract_lets rest
  have hrest : Leads env (After c (residue p ∪ { hides := isAsync })) (rest ()) (Leaving c) := by
    refine .before fun before hb => ?_
    let d := { c with allowStrictDirective := p.simple, allowYield := true, allowAwait := isAsync }
    refine .resets d ∅ (fun _ h => ?_) <| .past <| .keeps fun _ => ?_
    · exact { h with allowStrictDirective := rfl, allowYield := .refl _, allowAwait := rfl }
    extract_lets end'
    have hend body strict : Leads env (After { d with strict } (residue body)) (end' body) (Leaving c) := by
      refine .keeps fun _ => ?_
      extract_lets finished stricted
      have hfinished : Leads env (After { d with strict } (residue body)) (finished ()) (Leaving c) := by
        refine .makes fun n hn => .resets c (residue p ∪ { hides := isAsync }) (fun _ h => ?_) (.shown ?_)
        · exact { h with
            strict := hb.strict, allowStrictDirective := hb.allowStrictDirective
            allowYield := hb.allowYield, allowAwait := hb.allowAwait }
        · exact Eq.symm ((congrArg Node.Summary.own hn).trans Node.residue_arrow)
      refine .fork ?_ hfinished
      split
      · exact .fails_bind
      · dsimp only [stricted]
        split
        · exact .past hfinished
        · exact hfinished
    refine .fork ?_ <| .leaves fun body => hend body c.strict
    refine .sets { d with allowIn := true } (fun _ h => { h with allowIn := rfl }) <| .hardens fun body strict => ?_
    refine .sets { d with strict } (fun _ h => ?_) <| .pure_bind (hend body strict)
    exact { h with allowIn := hb.allowIn }
  exact .fork (.past <| .past hrest) hrest

instance (start : Token) (left : Node) : Carries env left.residue (assignmentTail g start left) := .routine

instance (start : Token) (e : Node) : Carries env e.residue (asyncParameter g start e) := by
  refine ⟨fun c => .past <| .past <| .past <| .fork ?_ <| .shown rfl⟩
  refine .leaves fun n => .pure fun _ h => h.asyncParameters fun hg => ?_
  have hn : n.residue.getter = true := by simpa using hg
  rw [residue_node, Residue.getter_union, hn]
  exact Bool.or_true _

instance : Restores env (assignment g) := by
  refine .after fun c => .past <| .fork .left ?_
  refine .keeps fun start => .leaves fun e => .carries rfl fun e => .keeps fun _ => ?_
  refine .fork (.past <| .bind coverParameters_leaves fun x => .fact fun hx => ?_) ?_
  · split
    next p =>
      have hp : e.residue = _ := hx p rfl
      rw [residue_node, hp]
      exact arrowTail_leaves
    next => exact .shown rfl
  · refine .past <| .fork (.carried rfl) <| .shown rfl

end ScriptTree.Parse
