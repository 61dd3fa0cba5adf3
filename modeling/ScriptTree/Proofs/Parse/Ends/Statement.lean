import ScriptTree.Proofs.Parse.Ends.Object

/-! # How statements end

A statement takes a token at least. Where a tolerant parse goes on without a closing parenthesis, the token
in its place is taken instead. -/

namespace ScriptTree.Parse

variable {α : Type} {env : Env} {n k : Nat} {g g' : Grammar} [Serves env n g g']

instance : Fronts env n 0 (block g) (block g') := .routine

instance (id : Node) : Stays env (Poised env) (checkVariableName id) := by
  refine .bind fun _ _ => ?_
  split
  · split <;> infer_instance
  · infer_instance

instance (kind : DeclarationKind) (inFor : Bool) :
    Fronts env n 1 (lexicalBinding g kind inFor) (lexicalBinding g' kind inFor) := .routine

instance (item item' : Parse Node) [h : Fronts env n k item item'] :
    Fronts env n k (separated item) (separated item') where
  le := h.le
  advances lo := by
    have hk := h.le
    refine .first (fun first _ => .loops (fun lo found _ => .look fun t _ => .ask <| .ite (fun ht => ?_) fun _ =>
      .front .done) fun _ => .result) (Nat.le_refl k)
    exact .skips (ne_end_of_isMark ht) <| .on .again

theorem lexicalDeclaration_ends {lo : Nat} {t : Token} (ht : lexicalKind? t.lexeme ≠ none) :
    Ends env (Sights env n k lo t) (lexicalDeclaration g) (lexicalDeclaration g') (Onwards env n lo) := by
  have hn : t.lexeme ≠ .endOfInput := by
    intro h
    rw [h] at ht
    exact ht rfl
  refine .past <| .takes hn ?_
  split
  · exact .on <| .on .last
  · exact absurd ‹_› ht

instance (inFor : Bool) : Fronts env n 1 (variableBinding g inFor) (variableBinding g' inFor) := .routine

instance : Fronts env n 0 (variableStatement g) (variableStatement g') := .routine

instance : Fronts env n 0 emptyStatement emptyStatement := .routine

instance : Fronts env n 4 (expressionStatement g) (expressionStatement g') := .routine

instance [Knowable α] (missing missing' body body' : Parse α)
    [Trails env n missing missing'] [Trails env n body body'] :
    Trails env n (withBody missing body) (withBody missing' body') := .routine

instance : Stays env (Poised env) missingStatement := .bind

instance : Trails env n (branch g) (branch g') := .routine

set_option synthInstance.maxSize 256 in
instance : Fronts env n 0 (ifStatement g) (ifStatement g') := .routine

instance (body body' : Parse Node) [Trails env n body body'] : Trails env n (loopBody body) (loopBody body') := .routine

instance : Fronts env n 0 (doWhileStatement g) (doWhileStatement g') := .routine

instance : Fronts env n 0 (whileStatement g) (whileStatement g') := .routine

instance [Knowable α] (p p' : Parse α) [Trails env n p p'] : Trails env n (withoutIn p) (withoutIn p') := .routine

instance : Inert LoopHead := ⟨⟩

instance (init : Option Node) : Trails env n (loopSteps g init) (loopSteps g' init) := .routine

instance (left : Node) : Trails env n (loopIn g left) (loopIn g' left) := .routine

instance (left : Node) : Trails env n (loopOf g left) (loopOf g' left) := .routine

instance : Trails env n (loopVar g) (loopVar g') := .routine

instance (kind : DeclarationKind) : Trails env n (loopLexical g kind) (loopLexical g' kind) := .routine

instance : Trails env n (loopExpression g) (loopExpression g') := by
  refine ⟨fun lo => .past <| .go fun init => .past <| .past <| .fork (.stayIf .last) <|
    .past <| .fork (.stayIf .last) <| .past <| .fork ?_ <|
    .pure_bind <| .on .last⟩
  refine .loops (fun lo found _ => .look fun t _ => .ask <| .ite (fun h => ?_) fun _ => .front .done) fun _ =>
    .on <| .on .last
  exact .skips (ne_end_of_isMark h) <| .on .again

instance : Trails env n (loopHead g) (loopHead g') := .routine

instance : Fronts env n 0 (forStatement g) (forStatement g') := .routine

instance : Trails env n jumpLabel jumpLabel := .routine

instance : Fronts env n 0 continueStatement continueStatement := .routine

instance : Fronts env n 0 breakStatement breakStatement := .routine

instance : Fronts env n 0 (returnStatement g) (returnStatement g') := .routine

instance : Fronts env n 0 (throwStatement g) (throwStatement g') := .routine

instance : Fronts env n 0 (withStatement g) (withStatement g') := .routine

instance : Fronts env n 0 (switchCase g) (switchCase g') := by
  refine .of fun lo => .past <| .look fun t _ => .ask ?_
  extract_lets rest rest'
  have hrest (test : Option Node) : Ends env (Front env n 8 (lo + 1)) (rest test) (rest' test) (Onwards env n lo) :=
    .on <| .on <| .on .result
  refine .ite (fun h => .skips (ne_end_of_isWord h) <| .pure_bind (hrest none)) fun _ => ?_
  exact .first fun _ => .go fun test _ => hrest test

instance : Fronts env n 0 (switchStatement g) (switchStatement g') := by
  refine .of fun lo => .past <| .first fun _ => .on <| .on <| .on <| .past <| .sets <|
    .on <| .loops (fun lo (found, hasDefault) _ => ?_) fun _ => .on <| .sets .last
  exact .past <| .fork .done <| .first fun _ => .stayIf .again

instance : Trails env n (labelledBody g) (labelledBody g') := .routine

instance : Fronts env n 4 (labelledStatement g) (labelledStatement g') := .routine

instance (names : List Token) (known : List Text) : Stays env (Poised env) (checkDistinct names known) := by
  induction names generalizing known with
  | nil => unfold checkDistinct; infer_instance
  | cons t names ih => unfold checkDistinct; infer_instance

instance : Fronts env n 0 (catchClause g) (catchClause g') := .routine

instance : Fronts env n 0 (tryStatement g) (tryStatement g') := .routine

instance : Fronts env n 0 debuggerStatement debuggerStatement := .routine

theorem wordStatement_ends (lo : Nat) (word : String) :
    Ends env (Front env n 4 lo) (wordStatement g word) (wordStatement g' word) (Onwards env n lo) := by
  unfold wordStatement
  split <;> exact .only

instance : Fronts env n 4 (statement g) (statement g') := by
  refine .of fun lo => .stay fun l _ => ?_
  split
  iterate 9 · exact .only
  · exact .past <| .fork .only .only
  · exact wordStatement_ends lo _
  · exact .fails

end ScriptTree.Parse
