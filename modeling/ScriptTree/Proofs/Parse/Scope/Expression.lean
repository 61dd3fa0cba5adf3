import ScriptTree.Proofs.Parse.Context.Expression
import ScriptTree.Proofs.Parse.Nest.Expression
import ScriptTree.Proofs.Parse.Scope.Markup
import ScriptTree.Proofs.Parse.Scope.Object

/-! # Expressions in their scope

An expression that turns out to be a pattern or the parameters of an arrow function is as fine as before.
The parameters of an arrow function are checked like those of other functions, by the names that their
patterns bind. -/

namespace ScriptTree.Parse

variable {ns : List Node}

open Parts

variable {env : Env} [Exact env] {g : Grammar} [Scoping env g] {strict : Bool} {isAsync : Bool}

namespace Expresses

instance : Expresses env templatePiece := .routine

instance : Expresses env templateHead := .routine

instance : Expresses env templateMiddle := .routine

instance : Expresses env (templateLiteral g) := .routine

end Expresses

/-! ## Parentheses -/

theorem fine_arrowParameters (h : ∀ n ∈ ns, Freestanding strict n) : Fine strict (arrowParameters isAsync ns) := by
  refine .of_free (fun c hc => h c ?_) rfl
  simpa using hc

theorem fine_parameters (h : Fines strict ns) : Fine strict (arrowParameters isAsync ns) :=
  fine_arrowParameters fun n hn => (h n hn).free

theorem fines_arrowParameters (h : Fines strict ns) : Fines strict [arrowParameters isAsync ns] := by
  simpa using fine_parameters h

attribute [local simp] fine_parameters

instance (first : Node) : Continues env [first] (groupTail g first) := .routine

omit [Exact env] in
instance (e : Node) : Continues env [e] (groupEnd e) := by
  refine ⟨fun strict => .past <| .past <| .fork (.fork ?_ ?_) ?_⟩
  · exact .alters <| .gives fun h => fines_arrowParameters h
  · refine .past <| .pastIf <| .alters ?_
    split
    next expressions he =>
      refine .gives fun h => ?_
      obtain ⟨info, shape⟩ := e
      subst he
      have hfree := (Freestanding.plain_iff rfl).mp (h _ (List.mem_singleton_self _)).free
      simp at hfree
      refine Fines.cons_iff.mpr ⟨fine_arrowParameters fun n hn => ?_, .nil⟩
      obtain ⟨m, hm, rfl⟩ := List.mem_map.mp hn
      exact (hfree m hm).asPattern
    · exact .gives fun h => fines_arrowParameters (Fines.asPatterns h)
  · exact .alters <| .gives fun h => h

namespace Expresses

instance : Expresses env (group g) := .routine

instance : Expresses env literal := .routine

instance : Expresses env regexLiteral := .routine

instance (word : String) : Expresses env (wordOperand g word) := .routine

instance : Expresses env (plainOperand g) := .routine

instance : Expresses env (operand g) := .routine

instance (argument : Parse Node) [Expresses env argument] : Expresses env (argumentsBy g argument) := .routine

instance : Expresses env (arguments g) := .routine

instance : Expresses env (asyncArguments g) := by
  have : Expresses env (do
      let n ← g.assignment
      setContext fun c => { c with coverError := none }
      return n) := ⟨fun _ => .hears fun n => .alters <| .gives fun h => h⟩
  unfold asyncArguments
  infer_instance

instance : Expresses env (newExpression g) := .routine

instance : Expresses env (newOrOperand g) := .routine

end Expresses

section

variable {start : Mark} {object : Node}

instance : Continues env [object] (namedMember start object) := .routine

instance : Continues env [object] (computedMember g start object) := .routine

instance : Continues env [object] (taggedTemplate g start object) := .routine

end

variable {start : Token}

instance (maybeAsync : Bool) (callee : Node) : Continues env [callee] (callTail g start maybeAsync callee) := .routine

namespace Expresses

instance : Expresses env (callBase g) := .routine

instance : Expresses env (call g) := .routine

instance : Expresses env (callee g) := .routine

instance : Expresses env (update g) := .routine

instance : Expresses env (unary g) := .routine

instance : Expresses env (power g) := .routine

end Expresses

/-- An operand and those that wait for it. -/
def pendingNodes (right : Operand) (pending : List Pending) : List Node :=
  right.node :: pending.map fun p => p.left.node

theorem join_fine (p : Pending) (right : Operand) (rest : List Pending) (k : Nat) :
    Leads env (Code strict (pendingNodes right (p :: rest)))
      (finish (tokenMark p.left.token k) (.binaryExpression p.operator p.left.node right.node))
      fun n => Code strict (pendingNodes ⟨p.left.token, n⟩ rest) := by
  rw [← bind_pure (finish _ _)]
  refine .joins (fun h => ?_) fun info => .pure fun _ h => ⟨h.1, ?_⟩
  · simp [pendingNodes] at h ⊢
    exact ⟨h.2.1, h.1⟩
  · have hall := h.2
    simp [pendingNodes] at hall ⊢
    exact ⟨hall.2.2.2, hall.2.2.1⟩

namespace Expresses

instance : Expresses env (binary g) := by
  refine ⟨fun strict => .keeps fun start => .hears fun first => .past <| .keeps fun _ => ?_⟩
  refine .fork (.gives fun h => h) <| .keeps fun t => .past <| .keeps fun token => ?_
  refine .hears fun second => ?_
  let S (right : Operand) (pending : List Pending) := Code strict (pendingNodes right pending)
  refine .loop (fun x => S x.1 x.2) (fun _ h => ⟨h.1, ?_⟩) fun (right, pending) => .past <| .keeps fun _ => ?_
  · simpa [pendingNodes, and_comm] using h.2
  · refine .fork (.bind (Q := Coded strict) (.reducesAll (S := S) join_fine fun _ _ h => h) fun _ => .pure) ?_
    refine .bind (.reduces (S := S) join_fine) fun (left, pending) => .past <| .past <| .hears fun n =>
      .pure fun _ h => ⟨h.1, ?_⟩
    simpa [pendingNodes, and_comm, and_left_comm] using h.2

instance : Expresses env (conditional g) := .routine

instance : Expresses env (yieldExpression g) := .routine

end Expresses

theorem free_asArrowParameter {n : Node} (h : Freestanding strict n) : Freestanding strict (asArrowParameter n) := by
  obtain ⟨info, shape⟩ := n
  unfold asArrowParameter
  dsimp only
  split
  next left right =>
    split
    · have hparts := (Freestanding.plain_iff rfl).mp h
      refine (Freestanding.plain_iff rfl).mpr ?_
      simp at hparts ⊢
      exact ⟨hparts.1, .leaf⟩
    · exact h
  · exact h

omit [Exact env] in
theorem coverParameters_listed {e : Node} : Leads env (Code strict [e]) (coverParameters e) fun x s =>
      Code strict [e] s ∧ ∀ p ∈ x, Listed strict p := by
  unfold coverParameters
  extract_lets p check
  have hcheck isAsync nodes : (Fine strict e → ∀ n ∈ nodes, Freestanding strict n) →
      Leads env (Code strict [e]) (check isAsync nodes) fun x s =>
        Code strict [e] s ∧ ∀ p ∈ x, Listed strict p := by
    intro hnodes
    refine .keeps fun d => ?_
    let I (known : List Node) (p : Parameters) (s : State) :=
      Code strict [e] s ∧ ((∀ n ∈ known, Freestanding strict n) → Listed strict p)
    refine .bind (.weaken (P := I [] p) (fun _ h => ⟨h, fun _ => .empty none⟩) (.forIn I ?_)) fun p => ?_
    · refine fun known n p => .fact fun hp => .bind (arrowParameter_keeps isAsync n) fun n' => .pure ?_
      rintro s ⟨h, rfl⟩
      refine ⟨_, rfl, h, fun hknown => ?_⟩
      rw [List.forall_mem_append, List.forall_mem_singleton] at hknown
      exact (hp hknown.1).push (free_asArrowParameter hknown.2) (List.map_id _).symm
    · refine .fact fun hp => .pastIf <| .fork (.past .fails_bind) <| .pure fun _ h => ⟨h, ?_⟩
      rintro _ ⟨⟩
      exact hp (hnodes (h.2 e (List.mem_singleton_self e)))
  obtain ⟨info, shape⟩ := e
  dsimp only
  split
  · refine hcheck _ _ fun h n hn => ?_
    obtain rfl := List.mem_singleton.mp hn
    exact h.free
  · refine hcheck _ _ fun h => ?_
    have hparts := h.free
    rw [Freestanding.plain_iff rfl] at hparts
    simpa using hparts
  · refine .pure fun _ h => ⟨h, ?_⟩
    rintro _ ⟨⟩

/-- An expression as the body of an arrow function. -/
theorem Bodied.expression {c : Context} {body : Node} (h : Fine c.strict body) : Bodied c body := by
  refine ⟨h.free _ ?_, fun hb => ?_⟩
  · rw [h.isStrictBody, Bool.or_false]
  · rw [h.isStrictBody] at hb
    cases hb

theorem arrowTail_fine {p : Parameters} (hp : Listed strict p) :
    Leads env (Code strict []) (arrowTail g start isAsync p) (Coded strict) := by
  refine .past <| .fork (.past .fails_bind) <| .within fun c hc _ => .look fun before hb => ?_
  subst hc
  let d := { c with allowStrictDirective := p.simple, allowAwait := isAsync }
  refine .turns d (fun _ h => ?_) <| .past <| .keeps fun _ => ?_
  · exact { h with allowStrictDirective := rfl, allowAwait := rfl }
  extract_lets rest
  have hrest body : Leads env (Embodied d body) (rest body) fun n => Code c.strict (Held.nodes n) := by
    refine .fact fun hbody => .look fun e he => ?_
    extract_lets finished
    have hfinished : (e.strict = true → p.stricted = none ∧ p.restricted = none) →
        Leads env (Under { d with strict := c.strict || body.isStrictBody }) (finished ())
          fun n => Code c.strict (Held.nodes n) := by
      intro hnone
      have hlegal := hp.legal hbody.sound hbody.allowed fun h => hnone (he.strict.trans h)
      refine .bind (.closes fun info s h => ⟨h, Fine.arrowFunction hlegal⟩) fun n => .fact fun hn => ?_
      refine .turns c (fun _ h => ?_) (.pure fun _ h => ⟨h.strict, Fines.cons_iff.mpr ⟨hn, .nil⟩⟩)
      exact { h with
        strict := hb.strict, allowStrictDirective := hb.allowStrictDirective, allowAwait := hb.allowAwait }
    exact .checked (rejectOffender · _) (complainOffender · _) hfinished
  refine .fork ?_ <| .expression fun body hbody => ?_
  · refine .turns { d with allowIn := true } (fun _ h => { h with allowIn := rfl }) ?_
    refine .bind functionBody_bodied fun body => .fact fun hbody => ?_
    refine .turns { d with strict := c.strict || body.isStrictBody } (fun _ h => ?_) <| .pure_bind ?_
    · exact { h with allowIn := hb.allowIn }
    · exact .weaken (fun _ h => ⟨h, hbody.sound, hbody.allowed⟩) (hrest body)
  · refine .weaken (fun _ h => ⟨{ h with strict := ?_ }, .expression hbody⟩) (hrest body)
    rw [hbody.isStrictBody, Bool.or_false]
    exact h.strict

instance (left : Node) : Continues env [left] (assignmentTail g start left) := .routine

instance (e : Node) : Continues env [e] (asyncParameter g start e) := .routine

instance : Expresses env (assignment g) := by
  refine ⟨fun strict => .past <| .past <| .fork .heard <| .keeps fun start => .hears fun e => ?_⟩
  refine .bind (.continued fun h => h) fun e => .past <| .fork ?_ ?_
  · refine .past <| .bind coverParameters_listed fun x => .fact fun hx => ?_
    split
    next p => exact .knows (fun _ => .nil) (arrowTail_fine (hx p rfl))
    next => exact .gives fun h => h
  · exact .past <| .fork (.continued fun h => h) <| .gives fun h => h

end ScriptTree.Parse
