import ScriptTree.Proofs.Parse.Nest.Object

/-! # Expressions read nodes

Parentheses may come out as a placeholder for parameters, which has no range of its own. The operands of
binary operators wait on a stack, one after the other in the source (`Waiting`). -/

namespace ScriptTree.Parse

variable {lo : Nat} {isAsync : Bool} {n : Node} {start : Token} {env : Env} [Ranged env] {g : Grammar} [Parses env g]
  {L : Siting}

instance : Held (List Node ⊕ Node) := ⟨Sum.elim id fun n => [n]⟩

@[simp] theorem nodes_inl (ns : List Node) : Held.nodes (.inl ns : List Node ⊕ Node) = ns := rfl
@[simp] theorem nodes_inr (n : Node) : Held.nodes (.inr n : List Node ⊕ Node) = [n] := rfl

theorem row_arrowParameters {lo hi : Nat} {params : List Node}
    (h : Row L lo hi params) : Row L lo hi [arrowParameters isAsync params] :=
  Row.singleton.mpr (.placeholder rfl h.1 h.2)

namespace Reads

instance : Reads env templatePiece := .routine

instance : Reads env templateHead := .routine

instance : Reads env templateMiddle := .routine

instance : Reads env (templateLiteral g) := by
  refine ⟨fun lo => .mark fun _ hm => .first fun (_, _) => ?_⟩
  -- pieces and expressions take turns, and each kind is a group of its own
  let I (quasis expressions : List Node) := Holds env lo [quasis.reverse, expressions.reverse]
  refine .loops (Q := fun x => I x.1 x.2) (fun x => I x.1 x.2.1) (fun _ h => ?_) (fun (_, _, _) => ?_)
    fun (_, _) => .finish hm id
  · exact h.imp fun h => ⟨h.1, .nil, trivial⟩
  · refine .fork .pure <| .swap <| .follows fun _expression => ?_
    refine .swap <| .follows fun (_, _) => .pure fun _ h => ?_
    simpa [I] using h

theorem groupTail_follows (first : Node) : Leads env (Holds env lo [[first]]) (groupTail g first) (Yields env lo) := by
  refine .past <| .loop (fun found => Holds env lo [found.reverse]) (fun _ h => h) fun found => ?_
  refine .past <| .fork .pure <| .past <| .keeps fun _ => ?_
  refine .fork ?_ <| .past <| .fork ?_ ?_
  · -- a comma before the closing parenthesis makes parameters of all
    refine .past <| .pure fun _ h => h.imp fun h => ?_
    exact ⟨row_arrowParameters h.1.asPatterns, trivial⟩
  · refine .past <| .when <| .follows fun _ => .past <| .past <| .keeps fun _ => ?_
    refine .pure fun _ h => h.imp fun h => ⟨row_arrowParameters ?_, trivial⟩
    rw [List.reverse_cons]
    exact h.1.asPatterns
  · refine .follows fun _ => .pure fun _ h => ?_
    simpa using h

theorem groupEnd_keeps {gs : List (List Node)} (e : Node) :
    Leads env (Holds env lo ([e] :: gs)) (groupEnd e) (Yields env lo) := by
  refine .past <| .past <| .fork (.fork ?_ ?_) ?_
  · exact .past <| .done fun h => row_arrowParameters h.1
  · refine .past <| .when <| .keeps fun _ => ?_
    split
    next expressions he =>
      -- the parts of a sequence become the parameters
      exact .done fun h => row_arrowParameters (h.1.rows he).1.asPatterns
    · exact .done fun h => row_arrowParameters h.1.asPatterns
  · exact .past .result

instance : Reads env (group g) := by
  refine ⟨fun lo => .takes fun _ => .past <| .fork ?_ ?_⟩
  · exact .past <| .past <| .done fun _ => row_arrowParameters .nil
  -- a sequence starts after the opening parenthesis
  refine .inside fun lo => .token fun _ ht => .past <| .fork ?_ ?_
  · exact .first fun (_, _) => .past <| .past <| .done fun h => row_arrowParameters h.1
  refine .past <| .first fun first => .past <| .fork ?_ <| groupEnd_keeps first
  refine .bind (groupTail_follows first) fun items => ?_
  cases items with
  | inl expressions => exact .finishes (ht 0) id groupEnd_keeps
  | inr n => exact .result

instance : Reads env literal := .routine
theorem regexLiteral_reads {t : Token} (hl : t.lexeme.IsSlash) :
    Leads env (fun s => At env lo s ∧ s.lookahead = t) regexLiteral (Yields env lo) := by
  rintro s n s' ⟨hs, rfl⟩ h
  obtain ⟨_, u, h₁, h⟩ := (Returns.first h rfl).bind
  obtain ⟨t, v, h₂, h⟩ := h.bind
  obtain ⟨ms, c, w, hr, h₂⟩ := nextRegex_rescans h₂
  obtain ⟨-, ms', c', k, h₂⟩ := next_moves h₂
  have hu := Quiet.still h₁
  have hlu : u.lookahead = s.lookahead := by rw [returns_modify.mp h₁]
  obtain ⟨hready, hlower, hupper⟩ := (hu.ready hs.toReady).tookRegex (hlu ▸ hl) hr h₂
  have hm : Starts env lo s.startMark := ⟨hs.eq, .inl hs.toSituated.start⟩
  suffices hrest : Leads env (Holds env lo []) _ (Yields env lo) from
    hrest v n s' ⟨hready, by rw [← hs.eq, ← hu.start]; exact hlower, hupper, trivial⟩ h
  split
  · exact .past <| .finish hm fun _ => trivial
  · exact .fails

instance (word : String) : Reads env (wordOperand g word) := .routine

instance : Reads env (plainOperand g) := by
  refine ⟨fun lo => .mark fun _ hm => .sight fun t => ?_⟩
  split
  case h_10 hl => exact regexLiteral_reads (.inl hl)
  case h_11 hl => exact regexLiteral_reads (.inr hl)
  all_goals exact .weaken (fun _ h => h.1) .reading

instance : Reads env (operand g) where
  leads lo := by
    intro s n s' hs h
    replace h := (Returns.first h rfl).first rfl
    -- there is no markup
    rw [Ranged.plain, Bool.false_and, if_neg (by decide)] at h
    exact leads lo s n s' hs h

/-! ## Calls and members -/

instance (argument : Parse Node) [Steps false argument] [Reads env argument] : Reads env (argumentsBy g argument) := by
  refine ⟨fun lo => .takes fun _ => .keeps fun _ => ?_⟩
  let I (found : List Node) := Holds env lo [found.reverse]
  extract_lets rest
  have hrest : ∀ found, Leads env (I found) (rest found) (Yields env lo) := fun _ => .past .result
  refine .fork (.pure_bind (.empty (hrest []))) ?_
  refine .empty <| .loops (Q := I) I (fun _ h => h) (fun found => .keeps fun _ => ?_) hrest
  extract_lets more
  have hmore : ∀ n, Leads env (Holds env lo [found.reverse ++ [n]]) (more n) fun r s =>
      r.Satisfies (I · s) (I · s) := by
    intro n
    rw [← List.reverse_cons]
    refine .past <| .fork .pure <| .past <| .keeps fun _ => ?_
    exact .fork .pure .pure
  exact .fork (.follows hmore) <| .follows hmore

instance : Reads env (arguments g) := by
  unfold arguments
  infer_instance

instance : Reads env (asyncArguments g) := by
  have : Reads env (do
      let n ← g.assignment
      setContext fun c => { c with coverError := none }
      return n) := ⟨fun _ => .first fun _ => .past .result⟩
  unfold asyncArguments
  infer_instance

instance : Reads env (newExpression g) := .routine

instance : Reads env (newOrOperand g) := .routine

section

variable {m : Mark} {object : Node} (hm : Starts env lo m)

include hm

theorem namedMember_follows : Leads env (Holds env lo [[object]]) (namedMember m object) (Yields env lo) := .reading

theorem computedMember_follows : Leads env (Holds env lo [[object]]) (computedMember g m object) (Yields env lo) := .reading

theorem taggedTemplate_follows : Leads env (Holds env lo [[object]]) (taggedTemplate g m object) (Yields env lo) := .reading

end

theorem callTail_follows {maybeAsync : Bool} {callee : Node} (ht : ∀ k, Starts env lo (tokenMark start k)) :
    Leads env (Holds env lo [[callee]]) (callTail g start maybeAsync callee) (Yields env lo) := by
  refine .past <| .keeps fun _ => ?_
  extract_lets rest
  have hrest args : Leads env (Holds env lo [Held.nodes args, [callee]]) (rest args) (Yields env lo) := by
    dsimp -zeta only [rest]
    extract_lets finished
    have hfinished : Leads env (Holds env lo [args, [callee]]) (finished ()) (Yields env lo) := by
      refine .finishes (ht 0) (fun ⟨hargs, hcallee, _⟩ => ⟨hcallee, hargs, trivial⟩) fun _ => ?_
      refine .past <| .fork ?_ .result
      -- before an arrow the arguments are parameters, and the call is dropped
      exact .done fun ⟨_, hargs, _⟩ => row_arrowParameters hargs.asPatterns
    split
    · exact .when hfinished
    · exact hfinished
  exact .fork (.reads hrest) <| .reads hrest

instance : Reads env (callBase g) := .routine

instance : Reads env (call g) := by
  refine ⟨fun lo => .token fun _ ht => .past <| .past <| .past <| .first fun _base => ?_⟩
  refine .loops (Q := fun e => Holds env lo [[e]]) (fun e => Holds env lo [[e]]) (fun _ h => h) (fun _ => ?_)
    fun _ => .past .result
  refine .past <| .fork ?_ <| .past <| .fork ?_ <| .past <| .fork ?_ <| .past <| .fork ?_ .pure
  · exact .bind (namedMember_follows (ht 0)) fun _ => .pure
  · exact .bind (callTail_follows ht) fun _ => .pure
  · exact .bind (computedMember_follows (ht 0)) fun _ => .pure
  · exact .bind (taggedTemplate_follows (ht 0)) fun _ => .pure

instance : Reads env (callee g) := by
  refine ⟨fun lo => .past <| .guard <| .token fun _ ht => .past <| .keeps fun _ => ?_⟩
  extract_lets rest
  have hrest base : Leads env (Holds env lo [[base]]) (rest base) (Yields env lo) := by
    refine .loop (fun e => Holds env lo [[e]]) (fun _ h => h) fun _ => ?_
    refine .past <| .fork ?_ <| .past <| .fork ?_ <| .past <| .fork ?_ .pure
    · exact .bind (computedMember_follows (ht 0)) fun _ => .pure
    · exact .bind (namedMember_follows (ht 0)) fun _ => .pure
    · exact .bind (taggedTemplate_follows (ht 0)) fun _ => .pure
  refine .fork ?_ <| .first hrest
  refine .opens fun hm _ => .past <| .guard ?_
  exact .finishes hm (fun _ => trivial) hrest

instance : Reads env (update g) := .routine

instance : Reads env (unary g) := .routine

instance : Reads env (power g) := .routine

end Reads

/-! ## Binary operators -/

/-- The operands that wait for an operator to be applied lie one after the other, from an offset up to
another. -/
def Waiting (env : Env) (a : Attachment) (lo : Nat) : Nat → List Pending → Prop
  | hi, [] => lo ≤ hi
  | hi, p :: rest => Fits (Sited env a) p.left.token.start hi p.left.node ∧ p.left.token.start ≤ hi ∧
    (∀ k, Starts env p.left.token.start (tokenMark p.left.token k)) ∧
    Waiting env a lo p.left.token.start rest

omit [Ranged env] in
theorem Waiting.grow {a a' : Attachment} (ha : a.Extends a') {lo hi : Nat} {pending : List Pending}
    (h : Waiting env a lo hi pending) : Waiting env a' lo hi pending := by
  induction pending generalizing hi with
  | nil => exact h
  | cons p rest ih => exact ⟨h.1.imp (.grow ha), h.2.1, h.2.2.1, ih h.2.2.2⟩

/-- The last operand has been read, and the others wait. -/
def Stacked (env : Env) (lo : Nat) (right : Operand) (pending : List Pending) (s : State) : Prop :=
  Holds env right.token.start [[right.node]] s ∧
    (∀ k, Starts env right.token.start (tokenMark right.token k)) ∧
    Waiting env s.attachment lo right.token.start pending

namespace Stacked

variable {right : Operand} {p : Pending} {rest : List Pending} {k : Nat}

instance {α : Type} {q : Parse α} [Steps false q] : Keeps env (Stacked env lo right rest) q where
  leads := by
    rintro s a s' ⟨hs, hstart, hw⟩ h
    have hgoes := Steps.goes hs.toReady h
    exact ⟨hs.goes hgoes, hstart, hw.grow hgoes.grows⟩

/-- Another operand is read after an operator. -/
theorem push {β : Type} {q : Parse Node} [Reads env q] [Steps false q] {f : Token → Node → Parse β}
    {R : β → State → Prop} (hf : ∀ token n, Leads env (fun s => ∀ operator least,
      Stacked env lo ⟨token, n⟩ (⟨right, operator, least⟩ :: rest) s) (f token n) R) :
    Leads env (Stacked env lo right rest) (lookahead >>= fun token => q >>= f token) R := by
  rintro s b s' ⟨hs, hstart, hw⟩ h
  obtain ⟨n, u, h₁, h⟩ := (Returns.first h rfl).bind
  have hgrows := (Steps.goes hs.toReady h₁).grows
  have hle : s.lastMark.index ≤ s.lookahead.start := hs.at' ▸ hs.upper
  have hread := Reads.leads s.startMark.index s n u ⟨hs.toReady, rfl⟩ h₁
  refine hf _ n u b s' (fun _ _ => ⟨hs.at' ▸ hread, hs.at' ▸ hs.mark, ?_, Nat.le_trans hs.lower hle, hstart,
    hw.grow hgrows⟩) h
  exact ((Row.singleton.mp hs.rows.1).imp (.grow hgrows)).mono (Nat.le_refl _) hle

/-- The last operator is applied. -/
theorem join : Leads env (Stacked env lo right (p :: rest))
    (finish (tokenMark p.left.token k) (.binaryExpression p.operator p.left.node right.node))
    fun n => Stacked env lo ⟨p.left.token, n⟩ rest := by
  rintro s n s' ⟨hs, -, hfits, hle, hstart, hw⟩ h
  have hlower := hs.lower
  have hleft : Holds env p.left.token.start [[right.node], [p.left.node]] s :=
    ⟨hs.toReady, by omega, hs.upper, hs.rows.1.mono hle (Nat.le_refl _),
      Row.singleton.mpr (hfits.mono (Nat.le_refl _) hlower), trivial⟩
  refine ⟨Leads.finish (hstart k) ?_ rfl s n s' hleft h, hstart, hw.grow (finish_keeps h).2⟩
  exact fun ⟨hright, hleft, _⟩ => ⟨hleft, hright, trivial⟩

end Stacked

namespace Reads

instance : Reads env (binary g) := by
  refine ⟨fun lo => .token fun start ht => .first fun first => .past <| .keeps fun _ => ?_⟩
  refine .fork .result ?_
  have hstart : start.start = lo := (tokenMark_index start 0).symm.trans (ht 0).index
  subst hstart
  refine .weaken (P := Stacked env start.start ⟨start, first⟩ []) (fun _ h => ⟨h, ht, Nat.le_refl _⟩) ?_
  refine .past <| .past <| Stacked.push fun token second => ?_
  refine .loop (fun x => Stacked env start.start x.1 x.2) (fun _ h => h _ _) fun (right, pending) => ?_
  refine .past <| .past <| .fork ?_ ?_
  · -- no further operator
    refine .bind (.reducesAll (fun _ _ _ _ => Stacked.join) fun _ s hs => ?_) fun _ => .pure
    obtain ⟨h, -, hw⟩ := hs
    exact ⟨h.toReady, Nat.le_trans hw h.lower, h.upper, h.rows.mono hw (Nat.le_refl _)⟩
  · exact .bind (.reduces fun _ _ _ _ => Stacked.join) fun (left, pending) => .past <| Stacked.push fun _ _ =>
      .pure fun _ h => h _ _

instance : Reads env (conditional g) := .routine

instance : Reads env (yieldExpression g) := .routine

end Reads

/-! ## Arrow functions -/

/-- A parameter of an arrow function as it stands in the tree. -/
def asArrowParameter (n : Node) : Node :=
  match n.shape with
  | .assignmentPattern left right =>
    match right.shape with
    | .yieldExpression .. => { n with shape := .assignmentPattern left right.yieldAsName }
    | _ => n
  | _ => n

theorem range_asArrowParameter (n : Node) : (asArrowParameter n).info.range = n.info.range := by
  unfold asArrowParameter
  split
  · split <;> rfl
  · rfl

theorem fits_yieldAsName {lo hi : Nat} (h : Fits L lo hi n)
    (hp : n.shape.isPlaceholder = false) : Fits L lo hi n.yieldAsName := by
  cases h with
  | node hr hl _ h₁ h₂ h₃ => exact .of_rows hr hl rfl h₁ h₂ h₃ trivial
  | placeholder => cases hp

theorem fits_asArrowParameter {lo hi : Nat} (h : Fits L lo hi n) : Fits L lo hi (asArrowParameter n) := by
  unfold asArrowParameter
  split
  next left right hn =>
    split
    next hy =>
      cases h with
      | placeholder => cases hn
      | node hr hl hp h₁ h₂ h₃ hc ho =>
        cases hn
        have hrows := rows_iff.mpr fun p hp => ⟨hc p hp, ho p hp⟩
        have hright := fits_yieldAsName (Row.singleton.mp hrows.2.1) (by rw [hy]; rfl)
        exact .of_rows hr hl rfl h₁ h₂ h₃ ⟨hrows.1, Row.singleton.mpr hright, trivial⟩
    · exact h
  · exact h

omit [Ranged env] in
theorem arrowParameter_keeps {P : State → Prop} (isAsync : Bool) (n : Node) :
    Leads env P (arrowParameter isAsync n) fun n' s => P s ∧ n' = asArrowParameter n := by
  unfold arrowParameter
  split
  next left right hn =>
    split
    next hy =>
      refine .when <| .pure fun _ h => ⟨h, ?_⟩
      simp only [asArrowParameter, hn, hy]
    next hy =>
      refine .pure fun _ h => ⟨h, ?_⟩
      simp only [asArrowParameter, hn]
  next hn =>
    refine .when <| .pure fun _ h => ⟨h, ?_⟩
    simp only [asArrowParameter, hn]
  next hn _ =>
    refine .pure fun _ h => ⟨h, ?_⟩
    unfold asArrowParameter
    split
    next hn' => exact absurd hn' (hn _ _)
    · rfl

omit [Ranged env] in
theorem coverParameters_keeps (e : Node) : Leads env (Holds env lo [[e]]) (coverParameters e)
      fun r => Holds env lo [(r.map Parameters.params).getD [e]] := by
  unfold coverParameters
  extract_lets p check
  have hcheck isAsync nodes : Leads env (Holds env lo [nodes]) (check isAsync nodes) fun r =>
      Holds env lo [(r.map Parameters.params).getD [e]] := by
    refine .keeps fun c => ?_
    -- the parameters known so far are the first nodes, changed
    let I (known : List Node) (p : Parameters) (s : State) :=
      Holds env lo [nodes] s ∧ p.params = known.map asArrowParameter
    refine .bind (.weaken (P := I [] p) (fun _ h => ⟨h, rfl⟩) (.forIn I ?_)) fun p => ?_
    · refine fun known n p => .fact fun hp => .bind (arrowParameter_keeps isAsync n) fun n' => .pure ?_
      rintro s ⟨h, rfl⟩
      refine ⟨_, rfl, h, ?_⟩
      simp [Parameters.push, Parameters.params_foldl_bind, hp]
    · refine .fact fun hp => .when <| .fork (.past .fails_bind) <| .pure fun _ h => ?_
      refine h.imp fun h => ⟨?_, trivial⟩
      change Row _ lo _ p.params
      rw [hp]
      exact h.1.map (fun n hn => fits_asArrowParameter (h.1.1 n hn)) range_asArrowParameter
  split
  · exact hcheck _ _
  next hn =>
    exact (hcheck _ _).imp fun h => ⟨(h.1.rows hn).1, trivial⟩
  · exact .pure

theorem arrowTail_follows {p : Parameters} (ht : ∀ k, Starts env lo (tokenMark start k)) :
    Leads env (Holds env lo [p.params]) (arrowTail g start isAsync p) (Yields env lo) := .reading

theorem assignmentTail_follows {left : Node} (ht : ∀ k, Starts env lo (tokenMark start k)) :
    Leads env (Holds env lo [[left]]) (assignmentTail g start left) (Yields env lo) := by
  refine .past <| .when <| .keeps fun _ => ?_
  extract_lets assigned rest
  have hassigned left : Leads env (Holds env lo [[left]]) (assigned left) (Yields env lo) := by
    refine .past <| .reads fun _right => ?_
    refine .finishes (ht 0) (fun ⟨hright, hleft, _⟩ => ⟨hleft, hright, trivial⟩) fun _ => ?_
    exact .past .result
  have hrest : Leads env (Holds env lo [[left]]) (rest ()) (Yields env lo) := by
    refine .past <| .fork (.pure_bind ?_) <| .past <| .pure_bind (hassigned left)
    exact (hassigned left.asPattern).imp fun h => ⟨h.1.asPatterns, trivial⟩
  refine .fork ?_ hrest
  split
  · exact .when (.when hrest)
  · exact hrest

theorem asyncParameter_follows (start : Token) (e : Node) :
    Leads env (Holds env lo [[e]]) (asyncParameter g start e) (Yields env lo) := by
  refine .past <| .past <| .past <| .fork ?_ .result
  exact .reads fun _ => .done fun h => row_arrowParameters (Row.asPatterns h.1)

instance : Reads env (assignment g) := by
  refine ⟨fun lo => .past <| .past <| .fork (Reads.leads lo) ?_⟩
  refine .token fun start ht => .first fun e => .bind (asyncParameter_follows start e) fun e => ?_
  refine .past <| .fork ?_ ?_
  · refine .past <| .bind (coverParameters_keeps e) fun p => ?_
    cases p with
    | none => exact .result
    | some p => exact arrowTail_follows ht
  · exact .past <| .fork (assignmentTail_follows ht) .result

end ScriptTree.Parse
