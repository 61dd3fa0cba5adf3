import ScriptTree.Proofs.Parse.Cover.Object
import ScriptTree.Proofs.Parse.Nest.Statement

/-! # Statements

A statement is proper if its parts are. Only a loop over members or values asks for more: what is read in its
head is assigned to, unless it declares variables (`ProperHead`). -/

namespace ScriptTree.Parse

variable {kind : DeclarationKind} {inFor : Bool} {init : Option Node} {src : Source} {u : Unit}

open Parts

variable {α β : Type} {env : Env} {T B F P : Prop} {t : Token} [Intolerant env]

/-! ## Variables -/

theorem checkVariableName_eq {id : Node} {s s' : State} (h : Returns (checkVariableName id) env s u s') : s' = s := by
  replace h := Returns.first h rfl
  rcases h.ite with ⟨-, h⟩ | ⟨-, h⟩
  · split at h
    · rcases h.ite with ⟨-, h⟩ | ⟨-, h⟩
      · exact absurd h Fails.fails
      · exact h.ended.2
    · exact h.ended.2
  · exact h.ended.2

instance (id : Node) : Idle env (checkVariableName id) := ⟨fun h => checkVariableName_eq h ▸ .refl _⟩

instance (id : Node) : Keeps env (Landed env) (checkVariableName id) :=
  ⟨fun _ _ _ hs h => checkVariableName_eq h ▸ hs⟩

variable {g : Grammar} [Covering env g]

instance : Builds env (block g) := .routine

instance (kind : DeclarationKind) (inFor : Bool) : Builds env (lexicalBinding g kind inFor) := .routine

section

variable {item : Parse Node}

omit [Intolerant env]

/-- What holds of a variable that is declared without a value. One that is no constant is a pattern only in the head
of a loop, and after a constant comes a word by which a loop runs over something. -/
structure Initialized (src : Source) (kind : DeclarationKind) (inFor : Bool) (d : Node) : Prop where
  whole : kind ≠ .const → inFor = false → d.isBarePattern = false
  const : kind = .const → isBareDeclaration [d] = true → ∀ q ∈ d.info.range, ∃ j, src.Gap q.stop j ∧ src.RunsOver j

section

variable {id : Node} {m : Mark} {P : State → Prop}

theorem variable_initialized (hinit : init = none →
      (kind ≠ .const → inFor = false → id.isIdentifier = true) ∧
        (kind = .const → ∀ s, P s → ∃ j, env.source.Gap s.lastMark.index j ∧ env.source.RunsOver j)) :
    Leads env P (finish m (.variableDeclarator id init)) fun d _ => Initialized env.source kind inFor d := by
  intro s d s' hs h
  obtain ⟨-, hd | ⟨_, _, hd, -⟩⟩ := finish_shape h
  · cases init with
    | some e =>
      exact ⟨fun _ _ => by simp [Node.isBarePattern, hd], fun _ hb => by simp [isBareDeclaration, hd] at hb⟩
    | none =>
      refine ⟨fun hk hf => by simp [Node.isBarePattern, hd, (hinit rfl).1 hk hf], fun hk _ q hq => ?_⟩
      rw [finish_range h q hq]
      exact (hinit rfl).2 hk s hs
  · cases hd

theorem initial_initialized {p : Parse Node} : Leads env P (do
      let init ← some <$> p
      finish m (.variableDeclarator id init)) fun d _ => Initialized env.source kind inFor d := by
  rw [map_eq_pure_bind, bind_assoc]
  exact .bind (Q := fun _ _ => True) (fun _ _ _ _ _ => trivial) fun e => .pure_bind (variable_initialized (by simp))

theorem separated_all {P : Node → Prop} (h : Leads env (fun _ => True) item fun n _ => P n) :
    Leads env (fun _ => True) (separated item) fun ns _ => ∀ n ∈ ns, P n := by
  let I (first : Node) (found : List Node) (_ : State) := P first ∧ ∀ n ∈ found, P n
  refine .bind h fun first => .loops (I first) (fun _ hf => ⟨hf, by simp⟩) (fun found => .keeps fun _ => .fork ?_ .pure)
    fun more => .pure fun _ hall => ?_
  · intro s r s' hfound hr
    refine (?_ : Leads env (fun _ => True) _ fun r s => r.Satisfies (I first · s) (I first · s)) s r s' trivial hr
    refine .past <| .bind h fun n => .pure fun _ hn => ?_
    exact ⟨hfound.1, List.forall_mem_cons.mpr ⟨hn, hfound.2⟩⟩
  · simpa [I] using hall

end

/-- More items, each after a comma. -/
theorem Leads.moreItems [Builds env item] {first : Node} {f : List Node → Parse β} {R : β → State → Prop}
    (hf : ∀ found t', Faces env True True (Propers env.source (first :: found)) t' (f found) R) :
    Faces env T B (Proper env.source first) t (Parse.loop ([] : List Node) (fun found => do
      if ← sees "," then
        Parse.skip
        return .again ((← item) :: found)
      else return .done found) >>= f) R := by
  let I (found : List Node) := Reached env True True (Propers env.source (first :: found))
  refine .knowing (fun _ _ => trivial) (fun _ _ => trivial) (fun h => Propers.cons_iff.mpr ⟨h, .nil⟩) ?_
  refine .loops (Q := I) I (fun _ hs => hs.reached) (fun found => ?_) fun found => .facing (hf found)
  refine .facing fun t => .answers <| .ite (fun hm => ?_) fun _ => .pure fun _ hs => hs.reached
  refine .skips (not_arrow_of_isMark hm (by decide)) fun hfound _ => .parts fun _ n _ => .pure fun _ hs =>
    hs.known fun hn => ?_
  simpa [and_comm, and_left_comm] using And.intro hfound hn

instance (p : Parse Node) [Builds env p] : Builds env (separated p) where
  leads F := by
    refine .facing fun t => .parts fun hF first t' => .knowing (fun _ => id) (fun _ => id) (fun h => h _ (.head _)) <|
      .moreItems fun found t' => .built hF fun h => ?_
    simpa using h

end

section

omit [Intolerant env] [Covering env g]

variable {ds : List Node}

theorem isMark_of_expect {m : String} {s s' : State} (h : Returns (expect m) env s u s') :
    s.lookahead.lexeme.isMark m = true := by
  obtain ⟨t, v, h₁, h₂⟩ := Returns.bind h
  obtain ⟨rfl, -⟩ := next_moves h₁
  rcases h₂.ite with ⟨hm, -⟩ | ⟨-, h₂⟩
  · exact hm
  · exact absurd h₂ Fails.fails

theorem declaration_orderly {info : Node.Info} (hd : ∀ d ∈ ds, Initialized src kind inFor d)
    (h : Propers src ds) : Orderly src ⟨info, .variableDeclaration ds kind⟩ := by
  refine .node trivial (fun hk d hmem => (hd d hmem).const hk) (fun d hmem => .inl ?_) fun d hmem => ?_
  · exact (h d (by simpa using hmem)).whole
  · exact (h d (by simpa using hmem)).orderly

namespace Leads

/-- A declaration that stands outside the head of a loop. -/
theorem declares {m : Mark} (hF : F) (hd : ∀ d ∈ ds, Initialized env.source kind false d) :
    Faces env T B (Propers env.source ds) t (Parse.finish m (.variableDeclaration ds kind))
      fun n => Onward env T B F (Intact env n) := by
  rw [← bind_pure (Parse.finish m _)]
  refine .made fun info _ _ => .built hF fun h => Propers.cons_iff.mpr ⟨⟨declaration_orderly hd h, ?_⟩, .nil⟩
  by_cases hk : kind = .const
  · simp [Node.isWhole, hk]
  · simp only [Node.isWhole, Bool.or_eq_true_iff, List.all_eq_true]
    exact .inr fun d hmem => by rw [(hd d hmem).whole hk rfl]; rfl

/-- A first step that reads nodes, of which something else is known. -/
theorem partsSuch [Held α] {p : Parse α} [Builds env p] {f : α → Parse β} {R : β → State → Prop} {P : α → Prop}
    (hp : Leads env (fun _ => True) p fun a _ => P a)
    (hf : F → ∀ a, P a → ∀ t', Faces env True True (Intact env a) t' (f a) R) : Faces env T B F t (p >>= f) R := by
  intro s b s' hs h
  obtain ⟨a, u, h₁, h₂⟩ := h.bind
  obtain ⟨hF, t', hu⟩ := Leads.build s a u hs h₁
  exact hf hF a (hp s a u trivial h₁) t' u b s' hu h₂

theorem withoutIn {p : Parse α} {P : α → Prop} (h : Leads env (fun _ => True) p fun a _ => P a) :
    Leads env (fun _ => True) (Parse.withoutIn p) fun a _ => P a :=
  .past <| .past <| .bind h fun _ => .past .pure

end Leads

end

theorem lexicalBindings_initialized (kind : DeclarationKind) (inFor : Bool) :
    Leads env (fun _ => True) (separated (lexicalBinding g kind inFor)) fun ds _ =>
      ∀ d ∈ ds, Initialized env.source kind inFor d := by
  refine separated_all <| .past <| .bind Lands.leads fun x => ?_
  obtain ⟨id, _⟩ := x
  refine .past <| .keeps fun b => .ite (fun hk => ?_) fun hk => ?_
  · intro s d s' hs h
    replace h := (Returns.first h rfl).first rfl
    rcases h.ite with ⟨hl, h⟩ | ⟨-, h⟩
    · refine variable_initialized (P := (· = s)) (fun _ => ⟨fun hn => absurd (beq_iff_eq.mp hk) hn, ?_⟩) s d s' rfl h.pure
      rintro - _ rfl
      exact ⟨_, hs.gap, hs.runsOver hl⟩
    · refine (?_ : Leads env (fun _ => True) _ fun d _ => Initialized env.source kind inFor d) s d s' trivial h
      exact .past <| .fork (.past initial_initialized) .fails_bind
  · refine .weaken (fun _ _ => trivial) <| .ite (fun _ => .past initial_initialized) fun hb =>
      .pure_bind <| variable_initialized fun _ => ⟨fun _ hf => ?_, fun hc => absurd (beq_iff_eq.mpr hc) hk⟩
    simp only [hf] at hb
    grind

instance : Builds env (lexicalDeclaration g) := by
  refine ⟨fun F => .enters fun t => ?_⟩
  by_cases ha : Arrow t
  · refine .nextFails ?_
    rw [show lexicalKind? t.lexeme = none by rw [ha]; rfl]
    exact .fails
  · refine .nexts ha fun hF _ => ?_
    split
    · exact .partsSuch (lexicalBindings_initialized _ false) fun _ declarations hd _ =>
        .semicolon fun _ => .declares hF hd
    · exact .fails

instance (inFor : Bool) : Builds env (variableBinding g inFor) := .routine

omit [Intolerant env] [Covering env g] in
theorem variableBindings_initialized (inFor : Bool) :
    Leads env (fun _ => True) (separated (variableBinding g inFor)) fun ds _ =>
      ∀ d ∈ ds, Initialized env.source .var inFor d := by
  refine separated_all <| .past <| .keeps fun x => ?_
  obtain ⟨id, _⟩ := x
  refine .keeps fun _ => ?_
  intro s d s' _ h
  replace h := Returns.first h rfl
  rcases h.ite with ⟨-, h⟩ | ⟨hn, h⟩
  · refine (?_ : Leads env (fun _ => True) _ fun d _ => Initialized env.source .var inFor d) s d s' trivial h
    exact .past initial_initialized
  · rcases h.ite with ⟨-, h⟩ | ⟨hb, h⟩
    · obtain ⟨_, u, h₁, -⟩ := h.bind
      exact absurd (isMark_of_expect h₁) hn
    · refine variable_initialized (P := fun _ => True) (fun _ => ⟨fun _ hf => ?_, by simp⟩) s d s' trivial h.pure
      simpa [hf] using hb

instance : Builds env (variableStatement g) := by
  refine ⟨fun F => .enters fun t => .expectsWord fun hF _ _ => .partsSuch (variableBindings_initialized false)
    fun _ declarations hd _ => .semicolon fun _ => .declares hF hd⟩

instance : Builds env emptyStatement := .routine

instance : Builds env (expressionStatement g) := .routine
theorem Leads.headed {missing body : Parse α} {Q : α → State → Prop} (h : F → ∀ t', Faces env T B True t' body Q) :
    Faces env T B F t (withBody missing body) Q := by
  refine .answers <| .past <| .fork (.nextFails .fails_bind) ?_
  exact .expects fun hF _ t' => h hF t'

instance [Held α] {missing body : Parse α} [Builds env body] : Builds env (withBody missing body) := by
  refine ⟨fun F => .facing fun t => .headed fun hF t' s a s' hs h => ?_⟩
  have hs : Reached env True True True s := hs.reached
  exact ⟨hF, (Builds.leads True s a s' hs h).2⟩

instance : Builds env (branch g) := .routine

instance : Builds env (ifStatement g) := by
  refine ⟨fun F => ?_⟩
  have : Builds env (do
      let consequent ← branch g
      if ← seesWord "else" then
        skip
        return (consequent, some (← branch g))
      else return (consequent, none)) := .routine
  refine .enters fun t => .expectsWord fun hF _ _ => .expects fun _ _ _ => .parts fun _ test _ =>
    .parts fun htest (consequent, alternate) _ => .shaped hF fun h => ?_
  simpa using And.intro htest h

/-! ## Loops -/

omit [Intolerant env] [Covering env g] in
instance {body : Parse Node} [Builds env body] : Builds env (loopBody body) := .routine

instance : Builds env (doWhileStatement g) := by
  refine ⟨fun F => .enters fun t => .expectsWord fun hF _ _ => .parts fun _ body _ => ?_⟩
  refine .expectsWord fun hbody _ _ => .expects fun _ _ _ => .parts fun _ test _ => ?_
  refine .bind (Q := fun _ s => Reached env True True True s ∧ Propers env.source [test])
    (.headed fun htest t' => ?_) fun _ => .fact fun htest => .facing fun t => .shaped hF fun _ => ?_
  · refine .answers <| .ite (fun hm => ?_) fun _ => .pure fun _ hs => ⟨hs.reached, htest⟩
    rw [← bind_pure skip]
    exact .skips (not_arrow_of_isMark hm (by decide)) fun _ _ => .pure fun _ hs => ⟨hs.reached, htest⟩
  · simpa using And.intro hbody htest

instance : Builds env (whileStatement g) := .routine

section

omit [Intolerant env] [Covering env g]

instance [Held α] {p : Parse α} [Builds env p] : Builds env (withoutIn p) := .routine

instance {p : Parse Node} [Grades env p] : Grades env (withoutIn p) where
  leads F := by
    refine .facing fun t => .past <| .keepsFlags <| .grades fun hF e _ hc => .keepsFlags <| .pure fun _ hs => ?_
    exact hs.graded hF id (fun _ => id) (fun _ => id) hc

end

/-- A node to which each member or value can be given. -/
def RunsOver (left : Node) : Prop :=
  left.shape.isDeclaration = true ∨
    left.AllLeaves Shape.passesAsTarget ∧ left.shape.isRest = false ∧ left.shape.isDefault = false

/-- What stands first in the head of a loop. -/
def LoopHead.first? : LoopHead → Option Node
  | .steps init _ _ => init
  | .over _ left _ => some left

/-- The head of a loop has proper parts but for the first, and one that runs over something has a node for that. -/
structure ProperHead (src : Source) (head : LoopHead) : Prop where
  parts : ∀ n ∈ Held.nodes head, Proper src n ∨ Orderly src n ∧ head.first? = some n
  left : ∀ isOf left right, head = .over isOf left right → RunsOver left

theorem ProperHead.of_parts {isOf : Bool} {left right : Node} (hleft : Orderly src left)
    (hover : RunsOver left) (hright : Propers src [right]) : ProperHead src (.over isOf left right) := by
  refine ⟨List.forall_mem_cons.mpr ⟨.inr ⟨hleft, rfl⟩, fun n hn => .inl (hright n hn)⟩, ?_⟩
  rintro _ _ _ ⟨⟩
  exact hover

theorem RunsOver.of_isName {n : Node} (h : n.shape.isName = true) : RunsOver n := by
  obtain ⟨info, shape⟩ := n
  cases shape with
  | identifier => exact .inr ⟨(Node.allLeaves_of_not_pattern rfl).mpr rfl, rfl, rfl⟩
  | _ => cases h

section

omit [Intolerant env]

variable {left : Node}

theorem loopIn_proper (hF : F) (ha : ¬ Arrow t) (h : P → Orderly env.source left ∧ RunsOver left) :
    Faces env T B P t (loopIn g left) fun x => Onward env True True F (ProperHead env.source x) := by
  refine .skips ha fun hP _ => .parts fun _ right _ => .pure fun _ hs => ⟨hF, hs.known fun hright => ?_⟩
  exact .of_parts (h hP).1 (h hP).2 hright

theorem loopOf_proper (hF : F) (ha : ¬ Arrow t) (h : P → Orderly env.source left ∧ RunsOver left) :
    Faces env T B P t (loopOf g left) fun x => Onward env True True F (ProperHead env.source x) := by
  refine .skips ha fun hP _ => .parts fun _ right _ => .pure fun _ hs => ⟨hF, hs.known fun hright => ?_⟩
  exact .of_parts (h hP).1 (h hP).2 hright

theorem loopSteps_proper (hF : F) (hP : P → ∀ n ∈ init.toList, Orderly env.source n) :
    Faces env T B P t (loopSteps g init) fun x => Onward env True True F (ProperHead env.source x) := by
  refine .knowing (fun _ _ => trivial) (fun _ _ => trivial) hP <| .answers ?_
  extract_lets rest
  have hhead {test update : Option Node} (hinit : ∀ n ∈ init.toList, Orderly env.source n)
      (h : Propers env.source (test.toList ++ update.toList)) : ProperHead env.source (.steps init test update) := by
    refine ⟨fun n hn => ?_, by rintro _ _ _ ⟨⟩⟩
    rw [show Held.nodes (LoopHead.steps init test update) = init.toList ++ (test.toList ++ update.toList) from
      List.append_assoc ..] at hn
    rcases List.mem_append.mp hn with hn | hn
    · exact .inr ⟨hinit n hn, Option.mem_toList.mp hn⟩
    · exact .inl (h n hn)
  have hrest test t : Faces env True True ((∀ n ∈ init.toList, Orderly env.source n) ∧ Intact env test) t
      (rest test) fun x => Onward env True True F (ProperHead env.source x) := by
    refine .expects fun h _ t' => .answers <| .fork (.pure_bind ?_) ?_
    · exact .pure fun _ hs => ⟨hF, hs.known fun _ => hhead h.1 (by simpa using h.2)⟩
    · refine .parts fun _ update _ => .pure fun _ hs => ⟨hF, hs.known fun hupdate => hhead h.1 ?_⟩
      exact Propers.append_iff.mpr ⟨h.2, hupdate⟩
  refine .fork (.pure_bind (.knowing (fun _ h => h) (fun _ h => h) (fun h => ⟨h, .nil⟩) (hrest none t))) ?_
  exact .parts fun hinit test t' => .knowing (fun _ h => h) (fun _ h => h) (fun h => ⟨hinit, h⟩) (hrest test t')

end

/-- An expression in the head of a loop that is no assignment. -/
theorem RunsOver.of_target {e : Node} (ht : e.AllTargets Shape.passesAsTarget) (hp : e.shape.isPart = false)
    (ha : isAssignment e = false) : RunsOver e.asPattern := by
  refine .inr ⟨ht, Shape.isRest_asPattern hp, ?_⟩
  obtain ⟨info, shape⟩ := e
  cases shape with
  | assignmentPattern => cases hp
  | assignmentExpression => cases ha
  | _ => rfl

theorem loopVar_proper (ha : ¬ Arrow t) :
    Faces env T B F t (loopVar g) fun x => Onward env True True F (ProperHead env.source x) := by
  refine .keeps fun start => .skips ha fun hF _ => .partsSuch (.withoutIn (variableBindings_initialized true))
    fun _ declarations hd t' => .answers <| .ite (fun h => ?_) fun _ => .answers <| .ite (fun h => ?_) fun _ => ?_
  · have ha := not_arrow_of_isWord (Bool.and_eq_true_iff.mp h).2
    exact .past <| .when <| .made fun info _ _ => loopIn_proper hF ha fun h => ⟨declaration_orderly hd h, .inl rfl⟩
  · have ha := not_arrow_of_isName (Bool.and_eq_true_iff.mp h).2
    exact .made fun info _ _ => loopOf_proper hF ha fun h => ⟨declaration_orderly hd h, .inl rfl⟩
  · refine .made fun info _ _ => .expects fun h _ _ => loopSteps_proper hF fun _ => ?_
    exact List.forall_mem_singleton.mpr (declaration_orderly hd h)

theorem loopLexical_proper (kind : DeclarationKind) (ha : ¬ Arrow t) :
    Faces env T B F t (loopLexical g kind) fun x => Onward env True True F (ProperHead env.source x) := by
  refine .keeps fun start => .skips ha fun hF t' => .past <| .answers <| .ite (fun h => ?_) fun _ =>
    .partsSuch (.withoutIn (lexicalBindings_initialized kind true)) fun _ declarations hd _ => .answers <|
      .ite (fun h => ?_) fun _ => .answers <| .ite (fun h => ?_) fun _ => ?_
  · have ha : ¬ Arrow t' := by
      intro ha
      rw [ha] at h
      exact absurd (Bool.and_eq_true_iff.mp h).2 (by decide)
    exact .names fun n hn _ => loopIn_proper hF ha fun _ => ⟨(Proper.of_isName hn).orderly, .of_isName hn⟩
  · have ha := not_arrow_of_isWord (Bool.and_eq_true_iff.mp h).2
    exact .made fun info _ _ => loopIn_proper hF ha fun h => ⟨declaration_orderly hd h, .inl rfl⟩
  · have ha := not_arrow_of_isName (Bool.and_eq_true_iff.mp h).2
    exact .made fun info _ _ => loopOf_proper hF ha fun h => ⟨declaration_orderly hd h, .inl rfl⟩
  · refine .semicolon fun _ => .made fun info _ _ => loopSteps_proper hF fun h => ?_
    exact List.forall_mem_singleton.mpr (declaration_orderly hd h)

theorem loopExpression_proper :
    Faces env T B F t (loopExpression g) fun x => Onward env True True F (ProperHead env.source x) := by
  refine .answers <| .grades fun hF init t' _ => .readsFlags fun c hT _ => .answers ?_
  have hover (ha : ¬ Arrow t') (hl : (c.isTarget && !isAssignment init) = true) (he : Expr env.source init) :
      Orderly env.source init.asPattern ∧ RunsOver init.asPattern := by
    obtain ⟨ht, hassigns⟩ := Bool.and_eq_true_iff.mp hl
    exact ⟨he.proper.asPattern.orderly, .of_target (hT ha ht) he.isPart (by simpa using hassigns)⟩
  refine .ite (fun h => ?_) fun _ => .answers <| .ite (fun h => ?_) fun _ => .answers ?_
  · have ha := not_arrow_of_isWord h
    exact .ite (fun _ => .fails_bind) fun hl => loopIn_proper hF ha (hover ha (by simpa using hl))
  · have ha := not_arrow_of_isName h
    exact .ite (fun _ => .fails_bind) fun hl => loopOf_proper hF ha (hover ha (by simpa using hl))
  · extract_lets rest
    have hrest (n : Node) {P T B : Prop} {t} : (P → Proper env.source n) → Faces env T B P t (rest n)
        fun x => Onward env True True F (ProperHead env.source x) := by
      intro hn
      exact .expects fun h _ _ => loopSteps_proper hF fun _ => List.forall_mem_singleton.mpr (hn h).orderly
    refine .fork ?_ <| .pure_bind (hrest init Expr.proper)
    refine .knowing (fun _ => id) (fun _ => id) Expr.proper <| .moreItems fun more t' => .shapes fun info =>
      hrest _ fun h => .plain ?_
    simpa using h

theorem loopHead_proper : Faces env T B F t (loopHead g) fun x => Onward env True True F (ProperHead env.source x) := by
  refine .answers <| .ite (fun hm => ?_) fun _ => .ite (fun hw => ?_) fun _ => ?_
  · exact .skips (not_arrow_of_isMark hm (by decide)) fun hF _ => loopSteps_proper hF (by simp)
  · exact loopVar_proper (not_arrow_of_isWord hw)
  · split
    next h =>
      refine loopLexical_proper _ fun ha => ?_
      rw [show t.lexeme = .punctuator "=>" from ha] at h
      cases h
    next => exact loopExpression_proper

instance : Builds env (forStatement g) := by
  refine ⟨fun F => .enters fun t => .expectsWord fun hF _ _ => .expects fun _ _ _ => .bind loopHead_proper
    fun head => .onward fun _ t => .parts fun hhead body _ => ?_⟩
  have hparts (h : Intact env body) :
      ∀ n ∈ Held.nodes head ++ [body], Proper env.source n ∨ Orderly env.source n ∧ head.first? = some n :=
    List.forall_mem_append.mpr ⟨hhead.parts, fun n hn => .inl (h n hn)⟩
  rw [← bind_pure (finish _ _)]
  rcases head with ⟨init, test, update⟩ | ⟨_ | _, left, right⟩
  all_goals refine .made fun info _ _ => .built hF fun h => Propers.cons_iff.mpr ⟨.loop ?_ ?_ trivial rfl, .nil⟩
  · simpa [Held.nodes, LoopHead.first?, Shape.loopHead?] using hparts h
  · trivial
  · exact hparts h
  · exact hhead.left _ _ _ rfl
  · exact hparts h
  · exact hhead.left _ _ _ rfl

/-! ## Jumps -/

theorem jumpLabel_proper : Faces env True True True t jumpLabel fun label =>
      Reached env True True (Propers env.source label.toList) := by
  refine .answers <| .past <| .fork ?_ <| .pure fun _ hs => hs.known fun _ => .nil
  refine .named fun _ id hid _ => .keeps fun c => .guard <| .pure fun _ hs => hs.known fun _ => ?_
  exact Propers.cons_iff.mpr ⟨.of_isName hid, .nil⟩

instance : Builds env continueStatement := by
  refine ⟨fun F => .enters fun t => .expectsWord fun hF _ _ => .bind jumpLabel_proper fun label => .facing
    fun t => .semicolon fun _ => .keeps fun c => .when <| .shaped hF fun h => ?_⟩
  simpa using h

instance : Builds env breakStatement := by
  refine ⟨fun F => .enters fun t => .expectsWord fun hF _ _ => .bind jumpLabel_proper fun label => .facing
    fun t => .semicolon fun _ => .keeps fun c => .when <| .shaped hF fun h => ?_⟩
  simpa using h

instance : Builds env (returnStatement g) := .routine

instance : Builds env (throwStatement g) := .routine

instance : Builds env (withStatement g) := .routine

omit [Intolerant env] in
/-- The rule tells whether the case is the one for all other values. -/
theorem switchCase_tells : Leads env (Reached env True True F) (switchCase g) fun x =>
      Onward env True True F (Proper env.source x.1 ∧ x.1.isDefaultCase = x.2) := by
  refine .enters fun t => .answers ?_
  extract_lets rest
  have hrest : F → ∀ test {P : Prop} {t}, (P → Intact env test) → Faces env True True P t (rest test)
        fun x => Onward env True True F (Proper env.source x.1 ∧ x.1.isDefaultCase = x.2) := by
    intro hF test P t h
    refine .expects fun hP _ _ => .everyItem fun consequent _ => .shapes fun info => .pure fun _ hs => ?_
    refine ⟨hF, hs.known fun ⟨_, hconsequent⟩ => ⟨.plain ?_, rfl⟩⟩
    simpa [flatMap_nodes] using And.intro (h hP) hconsequent
  refine .ite (fun hw => ?_) fun _ => .expectsWord fun hF _ _ => .parts fun _ test _ => hrest hF test id
  exact .skips (not_arrow_of_isWord hw) fun hF _ => .pure_bind (hrest hF none fun _ => .nil)

instance : Builds env (switchStatement g) := by
  refine ⟨fun F => .enters fun t => .expectsWord fun hF _ _ => .expects fun _ _ _ =>
    .parts fun _ discriminant _ => ?_⟩
  refine .expects fun hdiscriminant _ _ => .keeps fun before => .keepsFlags <| .expects fun _ _ _ => ?_
  let I (n : Nat) (found : List Node) :=
    Reached env True True (Propers env.source found ∧ found.countP Node.isDefaultCase ≤ n)
  refine .loops (Q := I 1) (fun x => I x.2.toNat x.1) (fun _ hs => hs.known fun _ => ⟨.nil, Nat.le_refl _⟩)
    (fun (found, hasDefault) => ?_) fun found => ?_
  · refine .facing fun t => .answers <| .fork (.pure fun _ hs => hs.known fun hall => ?_) ?_
    · exact ⟨hall.1, Nat.le_trans hall.2 (Bool.toNat_le hasDefault)⟩
    · refine .bind (.weaken (fun _ hs => hs.reached) switchCase_tells) fun (n, isDefault) => .onward
        fun hall _ => .ite (fun _ => .fails_bind) fun hd => .pure fun _ hs => hs.known fun hn =>
        ⟨Propers.cons_iff.mpr ⟨hn.1, hall.1⟩, ?_⟩
      have hcount : (n :: found).countP Node.isDefaultCase = found.countP Node.isDefaultCase + isDefault.toNat := by
        rw [List.countP_cons, hn.2]
        cases isDefault <;> rfl
      have hnew : (hasDefault || isDefault).toNat = hasDefault.toNat + isDefault.toNat := by
        cases hasDefault <;> cases isDefault <;> simp_all
      show (n :: found).countP _ ≤ (hasDefault || isDefault).toNat
      rw [hcount, hnew]
      exact Nat.add_le_add_right hall.2 _
  · refine .facing fun t => .expects fun hall _ _ => .keepsFlags <| .shaped hF (fun _ => ?_) fun _ => ?_
    · simpa [hdiscriminant] using And.intro hdiscriminant hall.1
    · show found.reverse.countP _ ≤ 1
      rw [List.countP_reverse]
      exact hall.2

instance : Builds env (labelledBody g) := .routine

instance : Builds env (labelledStatement g) := .routine

instance (ts : List Token) (known : List Text) : Idle env (checkDistinct ts known) := by
  induction ts generalizing known with
  | nil => exact inferInstanceAs (Idle env (pure ()))
  | cons t rest ih =>
    unfold checkDistinct
    extract_lets name
    have := ih (name :: known)
    split <;> infer_instance

instance : Builds env (catchClause g) := .routine

instance : Builds env (tryStatement g) := .routine

instance : Builds env debuggerStatement := .routine

instance (word : String) : Builds env (wordStatement g word) := by
  unfold wordStatement
  split <;> infer_instance

instance : Builds env (statement g) := .routine

end ScriptTree.Parse
