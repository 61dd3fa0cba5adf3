import ScriptTree.Proofs.Parse.Mirror.Object

/-! # Statements on both sides -/

namespace ScriptTree.Parse

variable {α : Type} {K : Comparison} [K.Lawful] {g : Grammar} [Mirroring K g]

instance : Mirrored K (block g) := .routine

instance (id : Node) : Mirrors K (checkVariableName id) (checkVariableName (relabel K.labels id)) := by
  unfold checkVariableName
  rw [relabel_node, K.labels.node_shape]
  refine .step fun c => .ite ?_ .pure
  cases id.shape with
  | identifier name => exact .ite inferInstance .pure
  | _ => exact .pure

instance (kind : DeclarationKind) (inFor : Bool) : Mirrored K (lexicalBinding g kind inFor) := .routine

instance {p p' : Parse Node} [Mirrors K p p'] : Mirrors K (separated p) (separated p') := .routine

instance : Mirrored K seesLexicalDeclaration := .routine

instance : Mirrored K (lexicalDeclaration g) := .routine

instance (inFor : Bool) : Mirrored K (variableBinding g inFor) := .routine

instance : Mirrored K (variableStatement g) := .routine

instance : Mirrored K emptyStatement := .routine

instance : Mirrored K (expressionStatement g) := .routine

instance : Mirrored K missingStatement := .routine
theorem withBody_eq {missing body : Parse α} {env : Env} : withBody missing body env = (do
      if ← sees ")" then (do skip; body)
      else if env.options.tolerant then (do complainToken (← next); missing)
      else (do rejectToken (← next) : Parse Unit) >>= fun _ => body) env := by
  funext s
  show (if !s.lookahead.lexeme.isMark ")" && env.options.tolerant then
      (do complainToken (← next); missing) else expect ")" >>= fun _ => body) env s =
    (if s.lookahead.lexeme.isMark ")" then (do skip; body)
      else if env.options.tolerant then (do complainToken (← next); missing)
      else (do rejectToken (← next) : Parse Unit) >>= fun _ => body) env s
  have hexpect : (expect ")" >>= fun _ => body) env s =
      ((if s.lookahead.lexeme.isMark ")" then skip else do rejectToken (← next)) >>= fun _ => body) env s := by
    rw [expect_eq]
    rfl
  cases h : s.lookahead.lexeme.isMark ")" <;> rw [h] at hexpect
  case false =>
    cases env.options.tolerant
    · exact hexpect
    · rfl
  case true => exact hexpect

/-- Where the end of the head is missing, the left side fails, and the right side complains if it is the
tolerant one. -/
theorem Mirrors.withBody [Relabels α] {missing missing' body body' : Parse α}
    (hmissing : Mirrors K missing missing') (hbody : Mirrors K body body') :
    Mirrors K (withBody missing body) (withBody missing' body') := by
  refine .congr (.past <| .ite (.past hbody) ?_) withBody_eq withBody_eq
  have htolerant : Mirrors K (do complainToken (← next); missing) (do complainToken (← next); missing') :=
    .step fun t => .past hmissing
  cases hl : K.left.options.tolerant with
  | true =>
    rw [Comparison.Fair.tolerant hl]
    exact htolerant
  | false =>
    cases hr : K.right.options.tolerant with
    | false => exact .routine
    | true =>
      refine .forgiven ⟨hl, hr⟩ (fun s a u h => ?_) fun s a u h => ?_
      · obtain ⟨_, _, h, -⟩ := h.bind
        exact rejectNext_fails h
      · obtain ⟨t, v, -, h⟩ := h.bind
        obtain ⟨_, w, hw, h⟩ := h.bind
        exact hmissing.grows ⟨hl, hr⟩ h (complainToken_complains hw)

instance : Mirrored K (branch g) := .routine

instance : Mirrored K (ifStatement g) := by
  refine .step fun start => .past <| .past <| .bind fun test => ?_
  exact .andThen (.withBody .routine .routine) fun ⟨consequent, alternate⟩ => .finish

/-! ## Loops -/

instance {p p' : Parse Node} [Mirrors K p p'] : Mirrors K (loopBody p) (loopBody p') := .routine

instance : Mirrored K (doWhileStatement g) := by
  refine .step fun start => .past <| .bind fun body => ?_
  refine .past <| .past <| .bind fun test => ?_
  exact .andThen (.withBody .pure .routine) fun _ => .finish

instance : Mirrored K (whileStatement g) := by
  refine .step fun start => .past <| .past <| .bind fun test => ?_
  exact .andThen (.withBody inferInstance inferInstance) fun body => .finish rfl

instance : Relabels LoopHead where
  relabel r
    | .steps init test update => .steps (relabel r init) (relabel r test) (relabel r update)
    | .over isOf left right => .over isOf (r left) (r right)
  relabel_id head := by
    cases head with
    | steps => simp only [relabel_id]
    | _ => rfl

instance [Relabels α] {p p' : Parse α} [Mirrors K p p'] : Mirrors K (withoutIn p) (withoutIn p') := .routine

instance (left : Node) : Mirrors K (loopIn g left) (loopIn g (relabel K.labels left)) := .routine

instance (left : Node) : Mirrors K (loopOf g left) (loopOf g (relabel K.labels left)) := .routine

theorem isBareDeclaration_relabel (r : Node.Relabelling) (ns : List Node) :
    isBareDeclaration (ns.map r) = isBareDeclaration ns := by
  match ns with
  | [] | _ :: _ :: _ => rfl
  | [n] =>
    simp only [isBareDeclaration, List.map_cons, List.map_nil, r.node_shape]
    cases n.shape with
    | variableDeclarator id init => cases init <;> rfl
    | _ => rfl

theorem hasForbiddenInitializer_relabel (r : Node.Relabelling) (strict : Bool) (n : Node) :
    hasForbiddenInitializer strict (r n) = hasForbiddenInitializer strict n := by
  unfold hasForbiddenInitializer
  rw [r.node_shape]
  cases n.shape with
  | variableDeclarator id init =>
    cases init with
    | none => rfl
    | some init =>
      dsimp only [Shape.map, Functor.map, Option.map_some]
      rw [r.node_shape]
      cases id.shape <;> rfl
  | _ => rfl

instance : Mirrored K (loopVar g) := by
  refine .step fun start => .step fun _ => .bind fun declarations => ?_
  have hlength : (relabel K.labels declarations).length = declarations.length := List.length_map ..
  have hbare : isBareDeclaration (relabel K.labels declarations) = isBareDeclaration declarations :=
    isBareDeclaration_relabel ..
  have hany (strict : Bool) : (relabel K.labels declarations).any (hasForbiddenInitializer strict) =
      declarations.any (hasForbiddenInitializer strict) := by
    show (declarations.map K.labels).any _ = _
    rw [List.any_map]
    exact congrArg declarations.any (funext (hasForbiddenInitializer_relabel K.labels strict))
  rw [hlength, hbare]
  refine .past <| .ite (.step fun c => ?_) (.past <| .ite ?_ ?_)
  · rw [hany]
    exact .routine
  · exact .routine
  · exact .routine

instance (kind : DeclarationKind) : Mirrored K (loopLexical g kind) := by
  refine .step fun start => .past <| .step fun c => .step fun l => .ite .routine (.bind fun declarations => ?_)
  have hbare : isBareDeclaration (relabel K.labels declarations) = isBareDeclaration declarations :=
    isBareDeclaration_relabel ..
  rw [hbare]
  exact .routine

instance : Mirrored K (loopExpression g) := by
  refine .step fun start => .bind fun init => .step fun c => ?_
  rw [relabel_node, isAssignment_relabel, ← K.labels.node_asPattern, ← relabel_node _ init.asPattern]
  exact .routine

instance : Mirrored K (loopHead g) := .routine

instance : Mirrored K (forStatement g) := by
  refine .step fun start => .past <| .past <| .bind fun head => ?_
  refine .andThen (.withBody inferInstance inferInstance) fun body => .finish ?_
  rcases head with _ | isOf
  · rfl
  · cases isOf <;> rfl

instance : Mirrored K jumpLabel := .routine

instance : Mirrored K continueStatement := .routine

instance : Mirrored K breakStatement := .routine

instance : Mirrored K (returnStatement g) := .routine

instance : Mirrored K (throwStatement g) := .routine

instance : Mirrored K (withStatement g) := by
  refine .step fun c => .guard fun _ => .step fun start => .past <| .past <| .bind fun object => ?_
  exact .andThen (.withBody inferInstance inferInstance) fun body => .finish rfl

instance : Mirrored K (switchCase g) := .routine

instance : Mirrored K (switchStatement g) := .routine

instance : Mirrored K (labelledBody g) := .routine

instance : Mirrored K (labelledStatement g) := by
  refine .step fun start => .bind fun e => ?_
  rw [relabel_node, K.labels.node_shape]
  cases e.shape with
  | identifier name =>
    exact .past .routine
  | _ => exact .past <| .finish rfl

instance (names : List Token) (known : List Text) : Mirrored K (checkDistinct names known) := by
  induction names generalizing known with
  | nil => exact .pure
  | cons t names ih => exact .guard fun _ => ih _

instance : Mirrored K (catchClause g) := .routine

instance : Mirrored K (tryStatement g) := .routine

instance : Mirrored K debuggerStatement := .routine

instance (word : String) : Mirrored K (wordStatement g word) := by
  unfold wordStatement
  exact .routine

instance : Mirrored K (statement g) := .routine

end ScriptTree.Parse
