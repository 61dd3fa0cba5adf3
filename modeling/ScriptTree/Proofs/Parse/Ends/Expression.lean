import ScriptTree.Proofs.Parse.Ends.Markup
import ScriptTree.Proofs.Parse.Ends.Object

/-! # How expressions end

A piece of a template stands ahead only if a backquote was read, and one that goes on after a substitution
only if a substitution was opened before. The word for a new object is read as a name, and what is made of
that name is the same word, unless the delegate renames it. -/

namespace ScriptTree.Parse

variable {B P : State → Prop} {word : String} {α β : Type} {env : Env} {n k lo : Nat} {s s' : State} {g g' : Grammar}
  {t : Token} (start : Token) (pending : List Pending) (e : Node)

instance seesTemplate_asks : Asks seesTemplate (fun t => match t.lexeme with
    | .template _ _ head _ => head
    | _ => false) := ⟨fun _ _ => rfl⟩

section

variable {raw cooked : Text} {head tail : Bool}

theorem templatePiece_ends (ht : t.lexeme = .template raw cooked head tail) :
    Ends env (Sights env n k lo t) templatePiece templatePiece (Onwards env n lo) := by
  refine .past <| .takes (by rw [ht]; nofun) ?_
  rw [ht]
  exact .past .result

/-- A piece that is not the first can only be ahead after a substitution was opened. -/
theorem templateHead_ends (ht : t.lexeme = .template raw cooked head tail) :
    Ends env (Sights env n k lo t) templateHead templateHead (Onwards env n lo) := by
  refine .ask ?_
  cases head with
  | true =>
    rw [ht]
    exact templatePiece_ends ht
  | false =>
    rw [ht]
    intro s hs
    have hp : env.source.Has (Text.ofString "$\x7b") :=
      hs.evident.resumed raw cooked tail (by rw [hs.ahead, ht])
    exact Ends.throw (P := fun _ => True) (.of_stray (.templateHead hp)) s trivial

instance : Trails env n templateMiddle templateMiddle := by
  refine ⟨fun lo => .look fun t _ => .ask ?_⟩
  split
  next h => exact .settle (templatePiece_ends h)
  · exact .past .fails

variable [Serves env n g g']

theorem templateLiteral_ends (ht : t.lexeme = .template raw cooked head tail) :
    Ends env (Sights env n k lo t) (templateLiteral g) (templateLiteral g') (Onwards env n lo) := by
  refine .past <| .bind (templateHead_ends ht) fun _ => .fact fun _ => .loops (fun lo x _ => ?_) fun _ => .last
  exact .fork .done <| .first fun _ => .on .again

theorem taggedTemplate_ends {start : Mark} {tag : Node} (ht : t.lexeme = .template raw cooked head tail) :
    Ends env (Sights env n k lo t) (taggedTemplate g start tag) (taggedTemplate g' start tag) (Onwards env n lo) :=
  .bind (templateLiteral_ends ht) fun _ => .fact fun _ => .last

end

variable [Serves env n g g']

instance : Inert (List Node ⊕ Node) := ⟨⟩

instance (first : Node) : Trails env n (groupTail g first) (groupTail g' first) where
  runs lo := by
    refine .sets <| .rounds fun lo found _ => .look fun t _ => .ask <| .ite (fun _ => .front .done) fun h => ?_
    refine .skips (ne_end_of_isMark (by simpa using h)) <| .past <| .fork ?_ ?_
    · exact .on .halt
    · refine .past <| .fork (.past <| .stayIf ?_) <| .on .again
      exact .on <| .on <| .on <| .sets .halt

instance : Trails env n (groupEnd e) (groupEnd e) := .routine

instance : Fronts env n 0 (group g) (group g') := .routine

theorem literal_ends (ht : t.lexeme ≠ .endOfInput) :
    Ends env (Sights env n k lo t) literal literal (Onwards env n lo) :=
  .past <| .past <| .takes ht <| .past .last

theorem regexLiteral_ends (ht : t.lexeme.IsSlash) :
    Ends env (Sights env n k lo t) regexLiteral regexLiteral (Onwards env n lo) := by
  refine .past <| .past <| .bind (.regex ht) fun t => .fact fun _ => ?_
  split
  · exact .past .last
  · exact .fails

theorem wordOperand_ends [Known env t] (ht : t.lexeme = .keyword word) :
    Ends env (Sights env n k lo t) (wordOperand g word) (wordOperand g' word) (Onwards env n lo) := by
  have hn : t.lexeme ≠ .endOfInput := by simp [ht]
  refine .past <| .stay fun c _ => .fork (.only (Nat.zero_le k)) <| .fork (.takes hn .last) <| .stay fun _ => ?_
  refine .fork (.only (Nat.zero_le k)) <| .fork (.skips hn .last) <| .fork (.only (Nat.zero_le k)) <| .past <|
      .fork (.first (fun _ => .last) (Nat.zero_le k))
      <| .takes hn .fails

instance : Fronts env n 0 (plainOperand g) (plainOperand g') := by
  refine .of fun lo => .stay fun start => .look fun t _ => .ask ?_
  split
  next name h =>
    refine .stay fun c _ => .stayIf <| .past <| .fork .only ?_
    exact .skips (by rw [h]; nofun) .last
  next h => exact .past <| .stayIf <| literal_ends (by rw [h]; nofun)
  next h => exact .past <| .stayIf <| literal_ends (by rw [h]; nofun)
  next h => exact literal_ends (by rw [h]; nofun)
  next h => exact literal_ends (by rw [h]; nofun)
  next h => exact templateLiteral_ends h
  next h => exact .front <| .sets .only
  next h => exact .only
  next h => exact .only
  next h => exact regexLiteral_ends (.inl h)
  next h => exact regexLiteral_ends (.inr h)
  next h => exact wordOperand_ends h
  · exact .take fun t _ => .fails

theorem Ends.options {f f' : Options → Parse β} {R : β → State → Prop}
    (hf : Ends env P (f env.options) (f' env.options) R) :
    Ends env P (Parse.options >>= f) (Parse.options >>= f') R :=
  hf

instance : Fronts env n 0 (operand g) (operand g') := by
  refine .of fun lo => .options <| .past <| .ite (fun h => ?_) fun _ => .only
  have : Marked env := ⟨(Bool.and_eq_true_iff.mp h).1⟩
  exact .only

/-! ## Calls and members -/

theorem argumentsBy_ends {argument argument' : Parse Node} [Fronts env n k argument argument'] :
    Ends env (Front env n 0 lo) (argumentsBy g argument) (argumentsBy g' argument') (Onwards env n lo) := by
  refine .first fun _ => .stay fun _ _ => ?_
  extract_lets rest
  have hrest (found : List Node) : Ends env (Front env n 8 (lo + 1)) (rest found) (rest found) (Onwards env n lo) :=
    .on .result
  refine .fork (.pure_bind (hrest [])) <| .loops (fun lo found _ => ?_) fun found _ => hrest found
  refine .stay fun _ _ => ?_
  extract_lets rest
  have hrest (n' : Node) : Ends env (Front env n 8 (lo + 1)) (rest n') (rest n') (Turn env (Front env n) lo) :=
    .past <| .fork .halt <| .on <| .past <| .fork .halt .again
  have hk : k ≤ 8 := Advances.le env (Front env n) argument argument'
  exact .fork (.first fun n' _ => hrest n') <| .first (fun n' _ => hrest n') hk

instance : Fronts env n 0 (arguments g) (arguments g') := ⟨by decide, fun _ => argumentsBy_ends⟩

instance : Fronts env n 0 (asyncArguments g) (asyncArguments g') := by
  refine .of fun lo => ?_
  have : Fronts env n 4 (do
      let n ← g.assignment
      setContext fun c => { c with coverError := none }
      return n) (do
      let n ← g'.assignment
      setContext fun c => { c with coverError := none }
      return n) := ⟨by decide, fun _ => .first fun _ => .sets .result⟩
  exact argumentsBy_ends

instance (start : Mark) (object : Node) : Fronts env n 0 (namedMember start object) (namedMember start object) := .routine

instance (start : Mark) (object : Node) :
    Fronts env n 0 (computedMember g start object) (computedMember g' start object) := .routine

instance (maybeAsync : Bool) (callee : Node) : Fronts env n 0 (callTail g start maybeAsync callee)
      (callTail g' start maybeAsync callee) := .routine

instance : Neutral anyName := .bind

/-- A keyword as a name: it stays what it is, unless the delegate renames it. -/
theorem anyName_word {x : Node} (h : Returns anyName env s x s') (hw : s.lookahead.lexeme.isWord word = true) :
    x.isNamed word = true ∨ ∃ names name, env.options.delegate = .rename names ∧
      Table.get? (Text.ofString word) names = some name ∧ name ≠ Text.ofString word := by
  obtain ⟨t, u, h₁, h⟩ := (Returns.first h rfl).bind
  obtain ⟨rfl, -⟩ := next_moves h₁
  have ht : nameText s.lookahead.lexeme = Text.ofString word := by
    unfold Lexeme.isWord at hw
    split at hw
    next hl =>
      rw [hl, ← beq_iff_eq.mp hw]
      rfl
    · cases hw
  have hfinish {v : State} {m : Mark} (h : Returns (finish m (.identifier (nameText s.lookahead.lexeme))) env v x s') :
      x.isNamed word = true ∨ ∃ names name, env.options.delegate = .rename names ∧
        Table.get? (Text.ofString word) names = some name ∧ name ≠ Text.ofString word := by
    obtain ⟨-, id, rfl⟩ := finish_makes h
    rw [ht]
    unfold nodeAt
    split
    next names name hd hs =>
      cases hs
      split
      next new hnew =>
        by_cases hn : new = Text.ofString word
        · exact .inl (beq_iff_eq.mpr hn)
        · exact .inr ⟨names, new, hd, hnew, hn⟩
      · exact .inl (beq_iff_eq.mpr rfl)
    · exact .inl (beq_iff_eq.mpr rfl)
  rcases h.ite with ⟨_, h⟩ | ⟨_, h⟩
  · exact hfinish h
  · obtain ⟨_, v, -, h⟩ := h.bind
    exact hfinish h

/-- The word for a new object is read as a name. -/
theorem newName_ends (ht : t.lexeme.isWord "new" = true) :
    Ends env (SightsIn env n 0 lo t) anyName anyName fun x s => FrontIn env n 8 (lo + 1) s ∧
      (x.isNamed "new" = true ∨ Stray env (.broken "New expression must start with `new`")) := by
  intro s hs
  have h : Ends env (Front env n 0 lo) anyName anyName (Onwards env n lo) := .only
  obtain ⟨-, hret, hraise⟩ := h s hs.toFront
  refine ⟨rfl, fun x s' h => ⟨⟨(hret x s' h).1, ?_⟩, ?_⟩, hraise⟩
  · rw [(Neutral.same h).allowIn]
    exact hs.allowIn
  · rcases anyName_word h (hs.ahead ▸ ht) with hx | ⟨names, name, hd, hget, hne⟩
    · exact .inl hx
    · exact .inr (.newWord hd hget hne)

theorem callee_ends : Ends env (FrontIn env n 8 lo) (isolate g.callee) (isolate g'.callee)
    (Read env (Front env n) lo) := by
  have hle {s : State} (hs : FrontIn env n 8 lo s) : FrontIn env n 1 lo s :=
    ⟨⟨hs.toPoised, hs.lower, by have := hs.room; omega⟩, hs.allowIn⟩
  exact .settle <| .isolates <| .weaken (fun _ => hle) (Serves.callee lo)

theorem newExpression_ends (ht : t.lexeme.isWord "new" = true) :
    Ends env (SightsIn env n 0 lo t) (newExpression g) (newExpression g') (Onwards env n lo) := by
  refine .past <| .bind (newName_ends ht) fun word => .fact fun hword => ?_
  extract_lets rest rest'
  have hrest : Ends env (FrontIn env n 8 (lo + 1)) (rest ()) (rest' ()) (Onwards env n lo) := by
    refine .past <| .fork ?_ <| .past <| .fork .fails ?_
    · refine .weaken (fun _ hs => hs.toFront) <| .on <| .past <| .past <| .fork ?_ .fails
      exact .on .last
    · refine .bind callee_ends fun callee => .fact fun _ => .past <| .fork ?_ <| .pure_bind ?_
      · exact .on <| .past .last
      · exact .past .last
  refine .ite (fun _ => hrest) fun hn => ?_
  exact .bind (Q := fun _ _ => False) (.throw (.of_stray (hword.resolve_left hn))) fun _ _ => False.elim

theorem newOrOperand_ends : Ends env (FrontIn env n 0 lo) (newOrOperand g) (newOrOperand g') (Onwards env n lo) :=
  .lookIn fun _ _ => .ask <| .inherits <| .ite newExpression_ends fun _ => .only

/-- The word that asks for a member becomes an operator. -/
theorem Ends.allows {f f' : Unit → Parse β} {R : β → State → Prop}
    (hf : Ends env (FrontIn env n k lo) (f ()) (f' ()) R) :
    Ends env (Front env n k lo) ((setContext fun c => { c with allowIn := true }) >>= f)
      ((setContext fun c => { c with allowIn := true }) >>= f') R := by
  refine .bind (Q := fun _ => FrontIn env n k lo) (fun s hs => ⟨rfl, fun _ s' h => ?_, fun e h =>
    absurd h raises_modify⟩) fun _ => hf
  rw [returns_modify.mp h]
  exact ⟨hs.set ⟨hs.cover.holds⟩, rfl⟩

theorem callBase_ends : Ends env (FrontIn env n 0 lo) (callBase g) (callBase g') (Onwards env n lo) := by
  refine .lookIn fun t _ => .ask <| .stay fun c _ => .ite (fun h => ?_) fun _ => ?_
  · refine .weaken (fun _ hs => ⟨hs.toFront, hs.ahead⟩) (P := Sights env n 0 lo t) <| .past <| .skips ?_ ?_
    · exact ne_end_of_isWord (Bool.and_eq_true_iff.mp h).1
    · exact .past <| .past <| .stayUnless .result
  · exact .weaken (fun _ hs => hs.toFrontIn) newOrOperand_ends

/-- The last question in a round: is a template behind? -/
theorem templateRound_ends {start : Mark} {e : Node} : Ends env (Sights env n 8 lo t)
    (do if ← seesTemplate then return .again (← taggedTemplate g start e) else return .done e)
    (do if ← seesTemplate then return .again (← taggedTemplate g' start e) else return .done e)
    (Turn (σ := Node) (α := Node) env (Front env n) lo) := by
  refine .ask ?_
  split
  next h =>
    refine .fork ?_ <| .front .done
    exact .bind (taggedTemplate_ends h) fun _ => .fact fun _ => .again
  · exact .front .done

instance : Fronts env n 0 (call g) (call g') := by
  refine .of fun lo => .stay fun start _ => .stay fun maybeAsync => .stay fun before _ => .allows ?_
  refine .bind callBase_ends fun base => .fact fun _ => .loops (fun lo e _ => ?_) fun e _ => .sets .result
  refine .look fun t _ => .ask <| .fork (.first fun _ => .again) <| .ask <|
    .fork (.first fun _ => .again) <| .ask <| .fork (.first fun _ => .again) <| templateRound_ends

theorem callee_rule_ends : Ends env (FrontIn env n 0 lo) (callee g) (callee g') (Onwards env n lo) := by
  have hcontext : Ends env (FrontIn env n 0 lo) context context fun c s =>
      FrontIn env n 0 lo s ∧ c.allowIn = true := by
    refine fun s hs => ⟨rfl, fun c s' h => ?_, (Stays.stays hs.toPoised).2⟩
    cases h
    exact ⟨hs, hs.allowIn⟩
  refine .bind hcontext fun c => .fact fun hc => ?_
  rw [hc]
  refine .stay fun t _ => ?_
  extract_lets start rest rest'
  refine .past <| .stay fun _ _ => ?_
  have hrest (base : Node) : Ends env (Front env n 8 (lo + 1)) (rest base) (rest' base) (Onwards env n lo) := by
    refine .rounds fun lo e _ => .look fun t _ => .ask <| .fork (.first fun _ => .again) <| .ask <|
      .fork (.first fun _ => .again) <| templateRound_ends
  refine .fork ?_ <| .bind newOrOperand_ends fun base => .fact fun _ => hrest base
  exact .past <| .first fun _ => .past <| .stayUnless <| .stay fun base _ => hrest base

/-! ## Operators -/

instance : Fronts env n 1 (update g) (update g') := by
  refine .of fun lo => .stay fun start _ => .look fun t _ => .ask <| .ite (fun h => ?_) fun _ => ?_
  · exact .takes (ne_end_of_isAny h) <| .go fun e => .past <| .stayIf <| .past <| .stayIf <| .past <| .past .result
  · refine .first fun e => .past <| .past <| .fork ?_ .result
    exact .past <| .stayIf <| .past <| .stayIf <| .past <| .on .last

instance : Fronts env n 1 (unary g) (unary g') := by
  refine .of fun lo => .look fun t _ => .ask <| .ask <| .ite (fun h => ?_) fun _ => ?_
  · refine .ask <| .takes ?_ <| .go fun e => .past <| .past <| .stayIf <| .past .result
    exact (Bool.or_eq_true_iff.mp h).elim ne_end_of_isAny ne_end_of_isAnyWord
  · refine .past <| .ask <| .ite (fun h => ?_) fun _ => .only
    exact .past <| .skips (ne_end_of_isName (Bool.and_eq_true_iff.mp h).2) <| .on .last

instance : Fronts env n 2 (power g) (power g') := .routine

instance : Inert Operand := ⟨⟩
instance : Inert Pending := ⟨⟩

theorem reduce_stays (least : Nat) (right : Operand) (pending : List Pending) :
    Stays env (Poised env) (reduce least right pending) := by
  induction pending generalizing right with
  | nil =>
    unfold reduce
    infer_instance
  | cons p rest ih =>
    unfold reduce
    infer_instance

instance (right : Operand) : Stays env (Poised env) (reduceAll right pending) := by
  induction pending generalizing right with
  | nil =>
    unfold reduceAll
    infer_instance
  | cons p rest ih =>
    unfold reduceAll
    infer_instance

instance (least : Nat) (right : Operand) :
    Stays env (Poised env) (reduce least right pending) := reduce_stays least right pending

theorem ne_end_of_precedence {allowIn : Bool} {l : Lexeme} (h : ¬ (precedence allowIn l == 0) = true) :
    l ≠ .endOfInput := by
  rintro rfl
  exact h rfl

instance : Fronts env n 3 (binary g) (binary g') := by
  refine .of fun lo => .stay fun start _ => .first fun first => .past <| .stay fun _ _ => ?_
  extract_lets least
  refine .fork .result <| .on <| .past <| .stay fun _ _ => .go fun second _ => ?_
  extract_lets pending
  refine .rounds fun lo (right, pending) _ => .stay fun c _ => .look fun t _ => .ask ?_
  extract_lets least
  refine .ite (fun _ => .front <| .past .done) fun h => .stay fun (left, pending) => ?_
  exact .takes (ne_end_of_precedence h) <| .past <| .on .again

instance : Fronts env n 3 (conditional g) (conditional g') := .routine

instance : Stays env (Poised env) startsExpression := by
  refine .bind fun l _ => ?_
  split <;> infer_instance

instance : Fronts env n 0 (yieldExpression g) (yieldExpression g') := .routine

instance (isAsync : Bool) (x : Node) : Stays env (Poised env) (arrowParameter isAsync x) := by
  unfold arrowParameter
  split
  · split <;> infer_instance
  · infer_instance
  · infer_instance

instance [Knowable β] : Knowable (ForInStep β) := ⟨fun env x => Known env x.value⟩

instance [Knowable β] (b : β) [h : Known env b] : Known env (ForInStep.yield b) := ⟨h⟩

/-- A walk through a list. -/
theorem Stays.forIn [Knowable β] [Ground env B] {xs : List α} {b : β} [hb : Known env b]
    {f : α → β → Parse (ForInStep β)} (hf : ∀ a b [Known env b], Stays env B (f a b)) :
    Stays env B (ForIn.forIn xs b f) := by
  induction xs generalizing b with
  | nil => exact inferInstanceAs (Stays env B (pure b))
  | cons a xs ih =>
    rw [List.forIn_cons]
    have := hf a b
    refine .bind fun step hstep => ?_
    cases step with
    | done b' =>
      have : Known env b' := hstep.holds
      exact inferInstanceAs (Stays env B (pure b'))
    | yield b' =>
      have : Known env b' := hstep.holds
      exact ih

theorem Stays.walk {γ : Type} [Knowable β] [Knowable γ] [Ground env B] {xs : List α} {b : β}
    [Known env b] {f : α → β → Parse (ForInStep β)} {f' : β → Parse γ}
    (hf : ∀ a b [Known env b], Stays env B (f a b))
    (hf' : ∀ b [Known env b], Stays env B (f' b)) : Stays env B (ForIn.forIn xs b f >>= f') := by
  have : Stays env B (ForIn.forIn xs b f) := .forIn hf
  exact .bind hf'

theorem Known.bindNames {p : Parameters} {strict : Bool} {names : List Text} (hp : Known env p) :
    Known env (names.foldl (fun p name => p.bind strict .node name) p) := by
  induction names generalizing p with
  | nil => exact hp
  | cons name names ih => exact ih (hp.bind inferInstance)

instance : Stays env (Poised env) (coverParameters e) := by
  unfold coverParameters
  extract_lets p check
  have hcheck (isAsync : Bool) (nodes : List Node) : Stays env (Poised env) (check isAsync nodes) := by
    have : Known env p := ⟨inferInstance, inferInstance⟩
    refine .bind fun c _ => ?_
    refine .walk (fun x p hp => .bind fun x _ => ?_) fun p hp => ?_
    · have hp' : Known env (x.boundNames.foldl (fun p name => p.bind c.strict .node name) p) := hp.bindNames
      have : Known env ((x.boundNames.foldl (fun p name => p.bind c.strict .node name) p).push x) := ⟨hp'.holds⟩
      infer_instance
    · have (t : Text) (f : Unit → Parse (Option Parameters)) [∀ u, Stays env (Poised env) (f u)] :
          Stays env (Poised env) (complaintAt t >>= fun x => throw (.rejected x) >>= f) :=
        .bind fun _ _ => inferInstance
      infer_instance
  split
  · infer_instance
  · infer_instance
  · infer_instance

instance (isAsync : Bool) (p : Parameters) [hp : Known env p] :
    Trails env n (arrowTail g start isAsync p) (arrowTail g' start isAsync p) := .routine

instance (left : Node) [Known env start] :
    Trails env n (assignmentTail g start left) (assignmentTail g' start left) := .routine

instance : Trails env n (asyncParameter g start e) (asyncParameter g' start e) := .routine

instance : Fronts env n 3 (assignment g) (assignment g') := by
  refine .of fun lo => .past <| .past <| .fork .only <| .stay fun start _ => .first fun e => .go fun e =>
    .past <| .fork (.past <| .stay fun p hp => ?_) <| .past <| .fork .last .result
  split
  next p =>
    have : Known env p := hp.holds p rfl
    exact .last
  · exact .result

end ScriptTree.Parse
