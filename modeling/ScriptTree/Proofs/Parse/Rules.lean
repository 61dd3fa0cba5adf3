import ScriptTree.Proofs.Parse.Run

/-! # Rules take steps

Every rule of the grammar only takes the steps of `Step` in programs without markup. The instances follow
the rules from the names up to the program, and `grammar_regular` closes the circle. -/

-- a rule is one large term for the search for instances
set_option synthInstance.maxSize 200000

namespace ScriptTree

def Node.isLiteral (n : Node) : Bool :=
  match n.shape with
  | .literal .. | .regexLiteral .. => true
  | _ => false

namespace Parse

/-- The members of the grammar only take steps. -/
class Regular (g : Grammar) : Prop where
  assignment : ∀ b, Steps b g.assignment
  unary : ∀ b, Steps b g.unary
  power : ∀ b, Steps b g.power
  call : ∀ b, Steps b g.call
  callee : ∀ b, Steps b g.callee
  pattern : ∀ b kind, Steps b (g.pattern kind)
  statement : ∀ b, Steps b g.statement
  item : ∀ b, Steps b g.item

attribute [instance] Regular.assignment Regular.unary Regular.power Regular.call Regular.callee
  Regular.pattern Regular.statement Regular.item

namespace Steps

variable {env : Env} {α β : Type} {b : Bool} {g : Grammar} [Regular g] (start : Mark) (t : Token) (n e : Node)
  (x : Bool) (word : String) (kind : DeclarationKind) (p : Parameters) (head : MemberHead) (pending : List Pending)

omit [Regular g] in
/-- Rules that are put together in the usual ways. -/
theorem routine {q : Parse α} (h : Steps b q := by
    repeat' first
      | infer_instance
      | with_reducible refine Prod.forall.mpr fun _ => ?_
      | with_reducible intro _
      | split
      | refine bind ?_
      | (refine @bind _ _ _ _ _ (loop ?_) ?_)) : Steps b q := h

instance : Steps b anyName := .bind

instance (kind : Option DeclarationKind) : Steps b (bindingName kind) := .routine

instance : Steps b (propertyKey g) := .routine

instance : Steps b seesAsyncFunction := .bind
instance : Steps b seesImportCall := .bind
instance : Steps b (expression g) := .routine

section

variable (kind : Option DeclarationKind)

instance : Steps b (patternWithDefault g kind) := .bind
instance : Steps b (bindingRest g kind) := .bind
instance : Steps b (arrayPattern g kind) := .bind

instance : Steps b (propertyPattern g kind) := .routine

instance : Steps b (restProperty g) := .bind
instance : Steps b (objectPattern g kind) := .bind
instance : Steps b (pattern g kind) := .bind

end

/-! ## Functions -/

instance : Steps b (restParameter g) := .bind
instance : Steps b (parameter g p) := .bind
instance (o : Option Offender) : Steps b (parameters g o) := .bind

instance : Steps b (directive g) := .routine

omit [Regular g] in
/-- A statement that is a string is a directive, unless the string is empty. -/
theorem directive_says {s s' : State} {n : Node} (h : Returns (directive g) env s n s') :
    ∃ e : Node, n.shape = if e.isLiteral && !(env.source.quoted s.lookahead).isEmpty then
      .directive e (env.source.quoted s.lookahead) else .expressionStatement e := by
  obtain ⟨e, u, _, h⟩ := ((Returns.first h rfl).first rfl).bind
  refine ⟨e, ?_⟩
  extract_lets rest at h
  have hrest {text : Text} {v : State} : Returns (rest text) env v n s' →
      n.shape = if text.isEmpty then .expressionStatement e else .directive e text := by
    intro h
    obtain ⟨_, w, _, h⟩ := Returns.bind h
    obtain ⟨-, id, rfl⟩ := finish_makes h
    unfold nodeAt
    split
    · rename_i hname
      split at hname <;> cases hname
    · rfl
  obtain ⟨info, shape⟩ := e
  dsimp only at h
  split at h
  · rw [hrest (h.first rfl).pure]
    simp [Node.isLiteral, Source.quoted]
  · rw [hrest (h.first rfl).pure]
    simp [Node.isLiteral, Source.quoted]
  · next hliteral hregex =>
    have hno : Node.isLiteral ⟨info, shape⟩ = false := by
      unfold Node.isLiteral
      split
      · exact (hliteral _ _ ‹_›).elim
      · exact (hregex _ _ _ _ ‹_›).elim
      · rfl
    rw [hrest h.pure, hno]
    rfl

omit [Regular g] in
/-- The text of a directive stands in the source. -/
theorem directive_has {s s' : State} {n e : Node} {text : Text}
    (h : Returns (directive g) env s n s') (hn : n.shape = .directive e text) : env.source.Has text := by
  obtain ⟨e', hshape⟩ := directive_says h
  rw [hn] at hshape
  split at hshape <;> cases hshape
  exact env.source.has_quoted _ _

instance : Steps b (prologue g) := by
  have hround (found : List Node) (octal : Option Token) (t : Token) : Steps b (directive g >>= fun n =>
      match n.shape with
      | .directive _ text =>
        if text.is "use strict" then do
          setContext fun c => { c with strict := true }
          if let some t := octal then complainToken t (some .strictOctal)
          if !(← context).allowStrictDirective then complainToken t (some .lateStrictDirective)
          return Round.again (n :: found, octal)
        else return Round.again (n :: found, octal.or (if isOctal t.lexeme then some t else none))
      | _ => return Round.done (n :: found)) := by
    constructor
    intro env s s' a hj hs h
    obtain ⟨n, u, h₁, h⟩ := h.bind
    have hu := run hj hs h₁
    refine hu.trans ?_
    split at h
    · rename_i e text hn
      rcases h.ite with ⟨ht, h⟩ | ⟨_, h⟩
      · obtain ⟨_, v, h₂, h⟩ := h.bind
        have hhas := directive_has h₁ hn
        rw [beq_iff_eq.mp ht] at hhas
        have hv := setContext_step (b := b) rfl (fun _ => rfl) (fun _ => .inr (.inr hhas)) h₂
        refine hv.run.trans ?_
        cases octal <;> exact run hj (hv.run.strict (hu.strict hs)) h
      · exact run hj (hu.strict hs) h
    · exact run hj (hu.strict hs) h
  refine @bind _ _ _ _ _ (loop fun ⟨found, octal⟩ => ?_) inferInstance
  refine bind fun t => ?_
  split
  · exact hround found octal t
  · infer_instance

instance : Steps b (functionBody g) := .bind
instance (id : Node) : Steps b (checkFunctionName id t) := .bind

instance (name : FunctionName) : Steps b (functionTail g name) := .routine

instance : Steps b functionHead := .bind
instance (kind : FunctionKind) : Steps b (enterFunction kind) := by unfold enterFunction; infer_instance
instance (c : Context) : Steps b (leaveFunction c) := by unfold leaveFunction; infer_instance
instance : Steps b (functionDeclaration g x) := .bind
instance : Steps b (functionExpression g) := .bind

instance : Steps b (methodBody g p) := .routine

instance : Steps b (plainMethod g) := .bind
instance : Steps b (asyncMethod g) := .bind
instance : Steps b (getter g) := .bind

instance : Steps b (setter g) := .routine

instance : Steps b (generatorMethod g) := .routine

instance (key : Node) : Steps b (staticHead g head key) := .bind
instance : Steps b (asyncHead g head) := .bind
instance : Steps b (memberHead g) := .bind

instance : Steps b (memberValue g start head) := .routine

instance (hasConstructor : Bool) : Steps b (classMember g hasConstructor) := .routine

instance : Steps b (classBody g) := .bind
instance : Steps b (classTail g) := .bind
theorem expectWord_ahead {s s' : State} {word : String} {u : Unit}
    (h : Returns (expectWord word) env s u s') : s.lookahead.lexeme = .keyword word := by
  obtain ⟨t, v, h₁, h⟩ := Returns.bind h
  obtain ⟨rfl, -⟩ := next_moves h₁
  rcases h.ite with ⟨hw, -⟩ | ⟨_, h⟩
  · unfold Lexeme.isWord at hw
    split at hw
    · rename_i w hl
      rw [hl, beq_iff_eq.mp hw]
    · cases hw
  · obtain ⟨_, _, _, h⟩ := Returns.bind h
    exact absurd h returns_throw

/-- Code becomes strict where a class starts. -/
instance (f : Unit → Parse β) [hf : ∀ u, Steps b (f u)] :
    Steps b (setContext (fun c => { c with strict := true }) >>= fun _ => expectWord "class" >>= f) where
  run {env s s' a} hj hs h := by
    obtain ⟨_, u, h₁, h⟩ := h.bind
    obtain ⟨_, v, h₂, h⟩ := h.bind
    have hahead : s.lookahead.lexeme = .keyword "class" := by
      have hu : u.lookahead = s.lookahead := by rw [returns_modify.mp h₁]
      rw [← hu]
      exact expectWord_ahead h₂
    have hu := (setContext_step (b := b) rfl (fun _ => rfl) (fun _ => .inr (.inl hahead)) h₁).run
    have hv := hu.trans (run hj (hu.strict hs) h₂)
    exact hv.trans ((hf _).run hj (hv.strict hs) h)

instance : Steps b (classDeclaration g x) := .bind
instance : Steps b (classExpression g) := .routine

instance : Steps b (spread g) := .bind
instance : Steps b (arrayLiteral g) := .bind

instance : Steps b (propertyHead g start t) := by
  unfold propertyHead
  split <;> infer_instance

instance (key : Node) (head : PropertyHead) : Steps b (propertyValue g x start t key head) := .routine

instance : Steps b (property g x) := .routine

instance : Steps b (objectLiteral g) := .routine

instance : Steps b templatePiece := .routine

instance : Steps b templateHead := .routine

instance : Steps b templateMiddle := .routine

instance : Steps b (templateLiteral g) := .bind

instance : Steps b expectArrow := .bind
instance (first : Node) : Steps b (groupTail g first) := .bind

instance : Steps b (groupEnd e) := .routine

instance : Steps b (group g) := .routine

instance : Steps b literal := .bind
instance : Steps b (wordOperand g word) := .bind

theorem regexLiteral_run {s s' : State} {n : Node} (hj : env.options.jsx = false)
    (hs : b = true → s.context.strict = true) (hl : s.lookahead.lexeme.IsSlash)
    (h : Returns regexLiteral env s n s') : Run env b s s' := by
  obtain ⟨_, u, h₁, h⟩ := (Returns.first h rfl).bind
  obtain ⟨t, v, h₂, h⟩ := h.bind
  have hu : u.lookahead = s.lookahead := by rw [returns_modify.mp h₁]
  rw [← hu] at hl
  have hrun : Run env b s v := (run hj hs h₁).trans (nextRegex_run h₂ hl)
  refine hrun.trans ?_
  split at h <;> exact run hj (hrun.strict hs) h

/-- A regular expression is read only where a slash is ahead. -/
instance : Steps b (plainOperand g) := by
  constructor
  intro env s s' n hj hs h
  replace h := (Returns.first h rfl).first rfl
  split at h
  case h_10 hl => exact regexLiteral_run hj hs (.inl hl) h
  case h_11 hl => exact regexLiteral_run hj hs (.inr hl) h
  all_goals exact run hj hs h

instance : Steps b (operand g) := by
  constructor
  intro env s s' n hj hs h
  replace h := (Returns.first h rfl).first rfl
  rw [hj, Bool.false_and, if_neg Bool.false_ne_true] at h
  exact run hj hs h

/-! ## Calls and operators -/

instance : Steps b (arguments g) := .bind
instance : Steps b (asyncArguments g) := .bind
instance : Steps b (newExpression g) := .bind
instance : Steps b (newOrOperand g) := .bind
instance : Steps b (namedMember start n) := .bind
instance : Steps b (computedMember g start n) := .bind
instance : Steps b (taggedTemplate g start n) := .bind

instance (start : Token) (callee : Node) : Steps b (callTail g start x callee) := .routine

instance : Steps b (callBase g) := .bind
instance : Steps b (call g) := .bind
instance : Steps b (callee g) := .bind
instance : Steps b (update g) := .bind
instance : Steps b (unary g) := .bind
instance : Steps b (power g) := .bind

instance (least : Nat) (right : Operand) : Steps b (reduce least right pending) := by
  induction pending generalizing right with
  | nil => unfold reduce; infer_instance
  | cons p rest ih => unfold reduce; infer_instance

instance (right : Operand) : Steps b (reduceAll right pending) := by
  induction pending generalizing right with
  | nil => unfold reduceAll; infer_instance
  | cons p rest ih => unfold reduceAll; infer_instance

instance : Steps b (binary g) := .bind
instance : Steps b (conditional g) := .routine

instance : Steps b (yieldExpression g) := .bind

instance : Steps b (arrowParameter x n) := by
  unfold arrowParameter
  split
  · split <;> infer_instance
  · infer_instance
  · infer_instance

instance (xs : List α) (y : β) (f : α → β → Parse (ForInStep β)) [∀ a y, Steps b (f a y)] : Steps b (forIn xs y f) := by
  induction xs generalizing y with
  | nil => exact inferInstanceAs (Steps b (pure y))
  | cons x xs ih =>
    rw [List.forIn_cons]
    refine bind fun r => ?_
    cases r <;> infer_instance

instance : Steps b (coverParameters e) := by
  unfold coverParameters
  split <;> infer_instance

instance (start : Token) : Steps b (arrowTail g start x p) := .routine

instance (start : Token) (left : Node) : Steps b (assignmentTail g start left) := .routine

instance (start : Token) : Steps b (asyncParameter g start e) := .bind

instance : Steps b (assignment g) := .routine

instance : Steps b (block g) := .bind

instance (id : Node) : Steps b (checkVariableName id) := .routine

instance : Steps b (lexicalBinding g kind x) := .bind
instance (item : Parse Node) [Steps b item] : Steps b (separated item) := .bind

instance : Steps b seesLexicalDeclaration := .routine

instance : Steps b (lexicalDeclaration g) := .routine

instance : Steps b (variableBinding g x) := .bind
instance : Steps b (variableStatement g) := .bind
instance : Steps b emptyStatement := .bind
instance : Steps b (expressionStatement g) := .bind
instance (p q : Parse α) [Steps b p] [Steps b q] : Steps b (withBody p q) := .bind
instance : Steps b missingStatement := .bind
instance : Steps b (branch g) := .bind
instance : Steps b (ifStatement g) := .bind
instance (p : Parse Node) [Steps b p] : Steps b (loopBody p) := .bind
instance : Steps b (doWhileStatement g) := .bind
instance : Steps b (whileStatement g) := .bind
instance (p : Parse α) [Steps b p] : Steps b (withoutIn p) := .bind
instance (n : Option Node) : Steps b (loopSteps g n) := .bind
instance : Steps b (loopIn g n) := .bind
instance : Steps b (loopOf g n) := .bind
instance : Steps b (loopVar g) := .bind
instance : Steps b (loopLexical g kind) := .bind
instance : Steps b (loopExpression g) := .bind

instance : Steps b (loopHead g) := .routine

instance : Steps b (forStatement g) := .bind
instance : Steps b jumpLabel := .bind
instance : Steps b continueStatement := .bind
instance : Steps b breakStatement := .bind
instance : Steps b (returnStatement g) := .bind
instance : Steps b (throwStatement g) := .bind
instance : Steps b (withStatement g) := .bind
instance : Steps b (switchCase g) := .bind
instance : Steps b (switchStatement g) := .bind
instance : Steps b (labelledBody g) := .bind

instance : Steps b (labelledStatement g) := .routine

instance (ts : List Token) (known : List Text) : Steps b (checkDistinct ts known) := by
  induction ts generalizing known with
  | nil => unfold checkDistinct; infer_instance
  | cons t ts ih => unfold checkDistinct; infer_instance

instance : Steps b (catchClause g) := .bind
instance : Steps b (tryStatement g) := .bind
instance : Steps b debuggerStatement := .bind

instance : Steps b (wordStatement g word) := by
  unfold wordStatement
  split <;> infer_instance

instance : Steps b (statement g) := .routine

instance : Steps b moduleSpecifier := .routine

instance : Steps b (rejectMissingFrom (α := α)) := .bind
instance : Steps b fromClause := .bind
instance : Steps b importSpecifier := .bind
instance (item : Parse α) [Steps b item] : Steps b (inBraces item) := .bind
instance : Steps b importDefault := .bind
instance : Steps b importNamespace := .bind
instance : Steps b importSpecifiers := .bind

instance : Steps b importDeclaration := .routine

instance : Steps b exportSpecifier := .bind
instance : Steps b exportDefaultSpecifier := .bind
instance : Steps b (exportDefault g) := .bind
instance : Steps b (exportedDeclaration g word) := by
  unfold exportedDeclaration; infer_instance
instance : Steps b (exportNames start) := .bind

instance : Steps b (exportDeclaration g) := .routine

instance : Steps b (item g) := .routine

end Steps

/-- Rules nested to any depth only take steps. -/
instance grammar_regular (n : Nat) : Regular (grammar n) := by
  induction n with
  | zero => constructor <;> intro b <;> intros <;> exact inferInstanceAs (Steps b (throw Failure.exhausted))
  | succ n ih => constructor <;> intros <;> simp only [grammar_succ] <;> infer_instance

end Parse

end ScriptTree
