import ScriptTree.Proofs.Parse.Cover.Arrow
import ScriptTree.Proofs.Parse.Cover.Module
import ScriptTree.Proofs.Parse.Nest.Program
import ScriptTree.Proofs.Parse.Scope.Program

/-! # Trees of programs are proper

Main results, where nothing is tolerated: what passes for a target in the tree of a program (`parse_targets`),
what its functions bind (`parse_parameters`), whether arrow functions bind a name twice (`parse_arrow_names`),
where lists of parameters without a function are left in it (`parse_placeholders`), and where variables may go
without an initial value (`parse_initialized`). -/

namespace ScriptTree

namespace Parse

open Parts

/-- Rules nested to any depth return proper nodes. -/
instance grammar_covering (env : Env) [Intolerant env] (n : Nat) : Covering env (grammar n) := by
  induction n with
  | zero =>
    have hfails {α : Type} {P : State → Prop} {Q : α → State → Prop} : Leads env P (throw .exhausted) Q := .fails
    constructor <;> intros <;> constructor <;> intros <;> exact hfails
  | succ n ih => constructor <;> intros <;> simp only [grammar_succ] <;> infer_instance

variable {α β : Type} {env : Env} {T B F : Prop} {t : Token}

/-- At the end of the input no arrow is ahead, so that all items are known. -/
theorem Leads.itemsToEnd [Held α] {p : Parse α} [Builds env p] {f : List α → Parse β} {R : β → State → Prop}
    (hf : F → ∀ as, Propers env.source (as.flatMap Held.nodes) → ∀ t', Faces env True True True t' (f as) R) :
    Faces env T B F t (until' seesEnd p >>= f) R := by
  intro s b s' hs h
  obtain ⟨as, u, h₁, h₂⟩ := h.bind
  have hall : Faces env T B F t (until' seesEnd p >>= Pure.pure) fun as =>
      Reached env True True (F ∧ Propers env.source (as.flatMap Held.nodes)) :=
    .everyItem fun as t' => .pure fun _ hs => hs.reached
  rw [bind_pure] at hall
  obtain ⟨t', hu⟩ := hall s as u hs h₁
  have ha : ¬ Arrow t' := by
    obtain ⟨v, hv⟩ := until'_stops h₁
    replace hv := Returns.first hv rfl
    obtain ⟨hend, rfl⟩ := hv.ended
    intro ha
    rw [hu.lookahead, ha] at hend
    cases hend
  obtain ⟨hF, has⟩ := hu.fact ha
  exact hf hF as has t' u b s' (hu.imp (fun _ => id) (fun _ => id) fun _ => trivial) h₂

variable [Intolerant env] {g : Grammar} [Covering env g]

theorem program_proper : Leads env (fun _ => True) (program g) fun root _ => Proper env.source root := by
  have hmark (m : Mark) : Idle env (modify fun s => { s with lastMark := m }) := by
    refine ⟨fun h => ?_⟩
    obtain rfl := returns_modify.mp h
    exact ⟨rfl, rfl, rfl, rfl, rfl⟩
  refine .looksAnew fun t => .keeps fun last => .past <| .keeps fun o => ?_
  extract_lets isModule rest
  have hrest : Faces env True True True t (rest ()) fun root _ => Proper env.source root := by
    refine .keeps fun start => .bind (.weaken (fun _ hs => hs.reached) (prologue_proper True)) fun directives =>
      .facing fun t => .itemsToEnd fun ⟨_, hd⟩ items hi t' => ?_
    rw [flatMap_nodes] at hi
    refine .conclude (.shapedSurely trivial ?_) fun _ _ h => h.2.1
    simpa using And.intro hd hi
  exact .fork (.keepsFlags hrest) hrest

end Parse

variable {t : Text} {o : Parse.Options} {p : Program}

/-- Trees of programs are proper. -/
theorem Program.proper (ht : o.tolerant = false) (h : parse t o = .ok p) : Proper (.ofText t) p.root := by
  have : Parse.Intolerant ⟨.ofText t, o⟩ := ⟨ht⟩
  obtain ⟨root, s, hrun, rfl⟩ := parse_eq_ok_iff.mp h
  have hroot : Proper (.ofText t) root := Parse.program_proper (.start (.ofText t)) root s trivial hrun
  unfold Program.ofRun
  split
  · exact hroot.annotate _
  · exact hroot

/-! ## Assignments -/

/-- In the tree of a program all leaves of what is assigned to are names or members, or pass for them. To the left
of an equals sign and in the head of a loop there is a pattern, which on the left may be one with an initial value.
With all other operators there is an expression, which may be one that an equals sign makes a pattern. -/
theorem parse_targets {n : Node} (ht : o.tolerant = false) (h : parse t o = .ok p) (hn : p.root.Below n) :
    (∀ operator left right, n.shape = .assignmentExpression operator left right →
      if operator = "=" then left.AllLeaves Shape.passesAsTarget ∧ left.shape.isRest = false
      else left.AllTargets Shape.passesAsTarget ∧ left.shape.isPart = false) ∧
    (∀ operator argument isBefore, n.shape = .updateExpression operator argument isBefore →
      argument.AllTargets Shape.passesAsTarget ∧ argument.shape.isPart = false) ∧
    ∀ left right body, n.shape = .forInStatement left right body ∨ n.shape = .forOfStatement left right body →
      left.shape.isDeclaration = true ∨
        left.AllLeaves Shape.passesAsTarget ∧ left.shape.isRest = false ∧ left.shape.isDefault = false := by
  have hproper := ((Program.proper ht h).descend hn).local'
  refine ⟨fun operator left right hs => ?_, fun operator argument isBefore hs => ?_, fun left right body hs => ?_⟩
  · rw [hs] at hproper
    exact hproper
  · rw [hs] at hproper
    exact hproper
  · rcases hs with hs | hs
    · rw [hs] at hproper
      exact hproper
    · rw [hs] at hproper
      exact hproper

def Node.assigned? : Node → Option Node
  | ⟨_, .assignmentExpression operator left _⟩ => if operator = "=" then some left else none
  | _ => none

theorem Node.exists_assigned {n left : Node} (h : n.assigned? = some left) :
    ∃ right, n.shape = .assignmentExpression "=" left right := by
  unfold Node.assigned? at h
  split at h
  next info operator left' right =>
    split at h
    next ho =>
      obtain rfl := Option.some.inj h
      exact ⟨right, by rw [ho]⟩
    next => cases h
  next => cases h

/-- The parameters of an arrow function that returns an expression. -/
def Node.arrowParameters? (isAsync : Bool) : Node → Option (List Node)
  | ⟨_, .arrowFunction isAsync' params _ isExpression⟩ =>
    if isAsync' = isAsync ∧ isExpression = true then some params else none
  | _ => none

/-- The pieces of a template and the expressions between them. -/
def Node.quasis? (n : Node) : Option (List Node × List Node) :=
  match n.shape with
  | .templateLiteral quasis expressions => some (quasis, expressions)
  | _ => none

/-- Is the text a program of one expression of a kind? -/
def Text.parsesAs (t : Text) (q : Node → Bool) : Bool :=
  (parse t).toOption.any fun p => p.expression?.any q

theorem Text.exists_parsed {q : Node → Bool} (h : t.parsesAs q = true) :
    ∃ p e, parse t = .ok p ∧ p.root.Below e ∧ q e = true :=
  Program.exists_expression h

/-- Expressions of all kinds as they are read. -/
theorem expressions_read :
    (Text.ofString "[a.b, \x7bc: d = 1, e: [...f]\x7d] = g").parsesAs
      (fun n => n.assigned?.any fun left : Node => left.leaves.length == 3) = true ∧
    (Text.ofString "\x60a\x60 = 1").parsesAs
      (fun n => n.assigned?.any fun left : Node => !decide (left.AllLeaves Shape.isReference)) = true ∧
    (Text.ofString "(\x7ba: [b] = c\x7d) => b").parsesAs
      (fun n => (n.arrowParameters? false).any fun params => params.map (·.leaves.length) == [1]) = true ∧
    (Text.ofString "async(1) => 2").parsesAs (fun n => (n.arrowParameters? true).any fun params : List Node =>
      decide (∃ q ∈ params, ¬ q.AllLeaves Shape.isName)) = true ∧
    (Text.ofString "(\x7ba, b: [c]\x7d, ...d) => 1").parsesAs (fun n => (n.arrowParameters? false).any fun params =>
      params.flatMap Node.boundNames == [Text.ofString "a", Text.ofString "c", Text.ofString "d"]) = true ∧
    (Text.ofString "(eval, a, a) => 1").parsesAs (fun n => (n.arrowParameters? false).any fun params : List Node =>
      decide (¬ (params.flatMap Node.boundNames).Nodup)) = true ∧
    (Text.ofString "(a,).b").parsesAs (fun e => e.shape.children.any (·.shape.isPlaceholder)) = true ∧
    (Text.ofString "(a,)+1").parsesAs (fun e => e.shape.children.any (·.shape.isPlaceholder)) = true ∧
    (Text.ofString "\x60a$\x7bb\x7dc\x60").parsesAs (fun n => n.quasis?.any fun x => x.2.length == 1) = true := by
  decide +kernel

/-- A pattern of patterns, of members and of names. -/
theorem parse_targets_pattern :
    ∃ p n left right, parse (Text.ofString "[a.b, \x7bc: d = 1, e: [...f]\x7d] = g") = .ok p ∧ p.root.Below n ∧
      n.shape = .assignmentExpression "=" left right ∧ left.leaves.length = 3 ∧
      left.AllLeaves Shape.passesAsTarget := by
  obtain ⟨p, n, hp, hn, hq⟩ := Text.exists_parsed expressions_read.1
  obtain ⟨left, hleft, hlength⟩ := (Option.any_eq_true _ _).mp hq
  obtain ⟨right, hs⟩ := Node.exists_assigned hleft
  exact ⟨p, n, left, right, hp, hn, hs, beq_iff_eq.mp hlength, ((parse_targets rfl hp hn).1 _ left right hs).1⟩

/-- Nothing is noted against a template when it is read. -/
theorem parse_assigns_template :
    ∃ p n left right, parse (Text.ofString "\x60a\x60 = 1") = .ok p ∧ p.root.Below n ∧
      n.shape = .assignmentExpression "=" left right ∧ ¬ left.AllLeaves Shape.isReference := by
  obtain ⟨p, n, hp, hn, hq⟩ := Text.exists_parsed expressions_read.2.1
  obtain ⟨left, hleft, hleaves⟩ := (Option.any_eq_true _ _).mp hq
  obtain ⟨right, hs⟩ := Node.exists_assigned hleft
  exact ⟨p, n, left, right, hp, hn, hs, by simpa using hleaves⟩

/-! ## Parameters -/

/-- In the tree of a program functions that are not written with an arrow bind names only. Parameters before an
arrow were read as expressions. No leaf of theirs is one that should have become a pattern, and if neither the
first word of an asynchronous function nor a comma at the end of a list keeps them from being looked at, all of
them are names or pass for names. -/
theorem parse_parameters {n : Node} (ht : o.tolerant = false) (h : parse t o = .ok p) (hn : p.root.Below n) :
    (∀ kind id params body,
      n.shape = .functionDeclaration kind id params body ∨ n.shape = .functionExpression kind id params body →
        ∀ q ∈ params, q.AllLeaves Shape.isName) ∧
    ∀ isAsync params body isExpression, n.shape = .arrowFunction isAsync params body isExpression →
      (∀ q ∈ params, q.AllLeaves Shape.isSettled) ∧
        (isAsync = false → ¬ (Source.ofText t).HasTrailingComma → ∀ q ∈ params, q.AllLeaves Shape.passesAsName) := by
  have hproper := ((Program.proper ht h).descend hn).local'
  refine ⟨fun kind id params body hs => ?_, fun isAsync params body isExpression hs => ?_⟩
  · rcases hs with hs | hs
    · rw [hs] at hproper
      exact hproper
    · rw [hs] at hproper
      exact hproper
  · rw [hs] at hproper
    obtain ⟨-, hsettled, hnames⟩ := hproper
    exact ⟨hsettled, fun ha hc => (hnames ha).resolve_left hc⟩

theorem Node.exists_arrowFunction {n : Node} {isAsync : Bool} {params : List Node}
    (h : n.arrowParameters? isAsync = some params) : ∃ body, n.shape = .arrowFunction isAsync params body true := by
  unfold Node.arrowParameters? at h
  split at h
  next info isAsync' params' body isExpression =>
    split at h
    next hkind =>
      obtain rfl := Option.some.inj h
      exact ⟨body, by rw [hkind.1, hkind.2]⟩
    next => cases h
  next => cases h

/-- A pattern before an arrow, in a text without commas. -/
theorem parse_parameters_pattern :
    ∃ p n q body, parse (Text.ofString "(\x7ba: [b] = c\x7d) => b") = .ok p ∧ p.root.Below n ∧
      n.shape = .arrowFunction false [q] body true ∧ q.leaves.length = 1 ∧ q.AllLeaves Shape.passesAsName := by
  obtain ⟨p, n, hp, hn, hq⟩ := Text.exists_parsed expressions_read.2.2.1
  obtain ⟨params, hparams, hlengths⟩ := (Option.any_eq_true _ _).mp hq
  obtain ⟨body, hs⟩ := Node.exists_arrowFunction hparams
  obtain ⟨q, rfl, hlength⟩ := List.map_eq_singleton_iff.mp (beq_iff_eq.mp hlengths)
  have hc : ¬ (Source.ofText (Text.ofString "(\x7ba: [b] = c\x7d) => b")).HasTrailingComma :=
    fun h => absurd h.comma_mem (by decide)
  have hall := ((parse_parameters rfl hp hn).2 _ _ _ _ hs).2 rfl hc
  exact ⟨p, n, q, body, hp, hn, hs, hlength, hall q (.head _)⟩

/-- The arguments of a call may turn out to be the parameters of an asynchronous function. -/
theorem parse_binds_literal :
    ∃ p n params body, parse (Text.ofString "async(1) => 2") = .ok p ∧ p.root.Below n ∧
      n.shape = .arrowFunction true params body true ∧ ∃ q ∈ params, ¬ q.AllLeaves Shape.isName := by
  obtain ⟨p, n, hp, hn, hq⟩ := Text.exists_parsed expressions_read.2.2.2.1
  obtain ⟨params, hparams, hleaf⟩ := (Option.any_eq_true _ _).mp hq
  obtain ⟨body, hs⟩ := Node.exists_arrowFunction hparams
  exact ⟨p, n, params, body, hp, hn, hs, of_decide_eq_true hleaf⟩

/-- In the tree of a program an arrow function binds no name twice, unless it binds a name that strict code may not
bind. Then neither its own code nor the code around it is strict. -/
theorem parse_arrow_names {n : Node} {isAsync : Bool} {params : List Node} {body : Node} {isExpression : Bool}
    (ht : o.tolerant = false) (h : parse t o = .ok p) (hn : p.root.Below n)
    (hs : n.shape = .arrowFunction isAsync params body isExpression) :
    (params.flatMap Node.boundNames).Nodup ∨
      (∃ name ∈ params.flatMap Node.boundNames, Words.isRestricted name = true ∨ Words.isStrict name = true) ∧
        ((∀ names, o.delegate ≠ .rename names) →
          ∀ sc, p.root.Lies sc n → sc.strict = false ∧ body.isStrictBody = false) := by
  have hproper := ((Program.proper ht h).descend hn).local'
  rw [hs] at hproper
  by_cases hnodup : (params.flatMap Node.boundNames).Nodup
  · exact .inl hnodup
  refine .inr ⟨hproper.1.resolve_left hnodup, fun hd sc hsc => ?_⟩
  have hbinds := ((Program.sound ht hd h).lies hsc).binds
  rw [hs] at hbinds
  rw [← Bool.or_eq_false_iff, Bool.eq_false_iff]
  exact fun hstrict => hnodup (hbinds hstrict).1

/-- Names in patterns and in the rest. -/
theorem parse_arrow_names_pattern :
    ∃ p n params body, parse (Text.ofString "(\x7ba, b: [c]\x7d, ...d) => 1") = .ok p ∧ p.root.Below n ∧
      n.shape = .arrowFunction false params body true ∧
      params.flatMap Node.boundNames = [Text.ofString "a", Text.ofString "c", Text.ofString "d"] ∧
      (params.flatMap Node.boundNames).Nodup := by
  obtain ⟨p, n, hp, hn, hq⟩ := Text.exists_parsed expressions_read.2.2.2.2.1
  obtain ⟨params, hparams, hnames⟩ := (Option.any_eq_true _ _).mp hq
  obtain ⟨body, hs⟩ := Node.exists_arrowFunction hparams
  replace hnames := beq_iff_eq.mp hnames
  refine ⟨p, n, params, body, hp, hn, hs, hnames, (parse_arrow_names rfl hp hn hs).resolve_right fun h => ?_⟩
  rw [hnames] at h
  exact absurd h.1 (by decide)

/-- Nothing more is noted of names after one that strict code may not bind. -/
theorem parse_binds_twice :
    ∃ p n params body, parse (Text.ofString "(eval, a, a) => 1") = .ok p ∧ p.root.Below n ∧
      n.shape = .arrowFunction false params body true ∧ ¬ (params.flatMap Node.boundNames).Nodup := by
  obtain ⟨p, n, hp, hn, hq⟩ := Text.exists_parsed expressions_read.2.2.2.2.2.1
  obtain ⟨params, hparams, hnames⟩ := (Option.any_eq_true _ _).mp hq
  obtain ⟨body, hs⟩ := Node.exists_arrowFunction hparams
  exact ⟨p, n, params, body, hp, hn, hs, of_decide_eq_true hnames⟩

/-- In the tree of a program parameters without a function are left over only if a list in parentheses ends with a
comma, and no arrow comes after it. -/
theorem parse_placeholders {n : Node} (ht : o.tolerant = false) (h : parse t o = .ok p) (hn : p.root.Below n)
    (hp : n.shape.isPlaceholder = true) :
    (∃ params, n.shape = .arrowParameters false params ∧ params ≠ []) ∧ (Source.ofText t).HasDanglingComma := by
  have hproper := ((Program.proper ht h).descend hn).local'
  obtain ⟨info, shape⟩ := n
  cases shape with
  | arrowParameters isAsync params =>
    obtain ⟨rfl, hne, hcomma⟩ := hproper
    exact ⟨⟨params, rfl, hne⟩, hcomma⟩
  | _ => cases hp

/-- The object of a member. -/
theorem parse_placeholders_member :
    ∃ p n params, parse (Text.ofString "(a,).b") = .ok p ∧ p.root.Below n ∧
      n.shape = .arrowParameters false params ∧ params ≠ [] ∧
      (Source.ofText (Text.ofString "(a,).b")).HasDanglingComma := by
  obtain ⟨p, e, hp, he, hq⟩ := Text.exists_parsed expressions_read.2.2.2.2.2.2.1
  obtain ⟨n, hn, hplaceholder⟩ := List.any_eq_true.mp hq
  obtain ⟨⟨params, hparams, hne⟩, hcomma⟩ := parse_placeholders rfl hp (he.child hn) hplaceholder
  exact ⟨p, n, params, hp, he.child hn, hparams, hne, hcomma⟩

/-- An operand that is no expression. -/
theorem parse_leaves_parameters :
    ∃ p n, parse (Text.ofString "(a,)+1") = .ok p ∧ p.root.Below n ∧ n.shape.isPlaceholder = true := by
  obtain ⟨p, e, hp, he, hq⟩ := Text.exists_parsed expressions_read.2.2.2.2.2.2.2.1
  obtain ⟨n, hn, hplaceholder⟩ := List.any_eq_true.mp hq
  exact ⟨p, n, hp, he.child hn, hplaceholder⟩

/-! ## Parts of nodes -/

/-- In the tree of a program a template has one piece more than it has expressions, and no piece but the last is
told to be its end; a choice has at most one case without a test; after a block that may fail there is a handler or
a block that comes last; a class has at most one constructor, which is not static and not a generator; and what
reads a property takes no parameter, while what writes one takes one, which is not the rest of the arguments. -/
theorem parse_formed {n : Node} (ht : o.tolerant = false) (h : parse t o = .ok p) (hn : p.root.Below n) :
    (∀ quasis expressions, n.shape = .templateLiteral quasis expressions →
      quasis.length = expressions.length + 1 ∧
        quasis.map Node.tail? = List.replicate expressions.length (some false) ++ [some true]) ∧
    (∀ discriminant cases, n.shape = .switchStatement discriminant cases →
      cases.countP Node.isDefaultCase ≤ 1) ∧
    (∀ block handler finalizer, n.shape = .tryStatement block handler finalizer →
      handler.isSome = true ∨ finalizer.isSome = true) ∧
    (∀ body, n.shape = .classBody body → body.countP Node.isConstructor ≤ 1) ∧
    (∀ key computed value kind isStatic, n.shape = .methodDefinition key computed value kind isStatic →
      (kind = .constructor → Parse.isGenerator value = false ∧ isStatic = false) ∧
        (kind = .get → value.functionParams? = some []) ∧
        (kind = .set → ∃ q, value.functionParams? = some [q] ∧ q.shape.isRest = false)) ∧
    ∀ kind key computed value method shorthand, n.shape = .property kind key computed value method shorthand →
      (kind = .get → value.functionParams? = some []) ∧
        (kind = .set → ∃ q, value.functionParams? = some [q] ∧ q.shape.isRest = false) := by
  have hproper := ((Program.proper ht h).descend hn).local'
  refine ⟨fun quasis expressions hs => ?_, fun discriminant cases hs => ?_, fun block handler finalizer hs => ?_,
    fun body hs => ?_, fun key computed value kind isStatic hs => ?_,
    fun kind key computed value method shorthand hs => ?_⟩
  · rw [hs] at hproper
    have htails : quasis.map Node.tail? = List.replicate expressions.length (some false) ++ [some true] := hproper
    refine ⟨?_, htails⟩
    have hlength := congrArg List.length htails
    simpa using hlength
  · rw [hs] at hproper
    exact hproper
  · rw [hs] at hproper
    exact hproper
  · rw [hs] at hproper
    exact hproper
  · rw [hs] at hproper
    exact ⟨hproper.1, fun hk => hproper.2.1 (beq_iff_eq.mpr hk), fun hk => hproper.2.2 (beq_iff_eq.mpr hk)⟩
  · rw [hs] at hproper
    exact ⟨fun hk => hproper.1 (beq_iff_eq.mpr hk), fun hk => hproper.2 (beq_iff_eq.mpr hk)⟩

/-- A template with one expression. -/
theorem parse_formed_template :
    ∃ p n quasis e, parse (Text.ofString "`a$\x7bb\x7dc`") = .ok p ∧ p.root.Below n ∧
      n.shape = .templateLiteral quasis [e] ∧ quasis.map Node.tail? = [some false, some true] := by
  obtain ⟨p, n, hp, hn, hq⟩ := Text.exists_parsed expressions_read.2.2.2.2.2.2.2.2
  obtain ⟨⟨quasis, expressions⟩, hquasis, hlength⟩ := (Option.any_eq_true _ _).mp hq
  obtain ⟨e, rfl⟩ := List.length_eq_one_iff.mp (beq_iff_eq.mp hlength)
  have hs : n.shape = .templateLiteral quasis [e] := by
    unfold Node.quasis? at hquasis
    split at hquasis
    · cases hquasis
      assumption
    · cases hquasis
  exact ⟨p, n, quasis, e, hp, hn, hs, ((parse_formed rfl hp hn).1 _ _ hs).2⟩

/-! ## Keys -/

/-- In the tree of a program with ranges the key of a member is told to be computed where a bracket comes after the
words and asterisks that the member starts with, and not to be computed where the key itself does. Only the key of an
asynchronous method of a class is never told to be computed. -/
theorem parse_keyed {n : Node} {r : Range} (ht : o.tolerant = false) (h : parse t o = .ok p) (hn : p.root.Below n)
    (hr : n.info.range = some r) :
    (∀ kind key computed value method shorthand, n.shape = .property kind key computed value method shorthand →
      (Source.ofText t).Keyed key computed r.start) ∧
    (∀ key computed value kind isStatic, n.shape = .methodDefinition key computed value kind isStatic →
      if value.isAsync then computed = false
      else (isStatic && (Source.ofText t).hasAt r.start "[") = false → (Source.ofText t).Keyed key computed r.start) ∧
    ∀ key computed value isStatic, n.shape = .fieldDefinition key computed value isStatic →
      computed = false ∧ ((isStatic && (Source.ofText t).hasAt r.start "[") = false →
        (Source.ofText t).Keyed key computed r.start) := by
  have hkeyed := ((Program.proper ht h).descend hn).keyed
  refine ⟨fun kind key computed value method shorthand hs => ?_, fun key computed value kind isStatic hs => ?_,
    fun key computed value isStatic hs => ?_⟩
  all_goals rw [hs] at hkeyed
  · exact hkeyed r hr
  · split
    next ha => exact hkeyed.1 ha
    next ha => exact hkeyed.2 (Bool.eq_false_iff.mpr ha) r hr
  · exact ⟨hkeyed.1, hkeyed.2 r hr⟩

/-- The key of a method of a class, whether it is computed, the function, and whether the method is static. -/
def Node.method? (n : Node) : Option (Node × Bool × Node × Bool) :=
  match n.shape with
  | .methodDefinition key computed value _ isStatic => some (key, computed, value, isStatic)
  | _ => none

theorem exists_method {q : Option Range → Node × Bool × Node × Bool → Bool}
    (h : (parse t o).toOption.any (fun p => p.expression?.any fun e => e.shape.children.any fun body =>
      body.shape.children.any fun n => n.method?.any (q n.info.range)) = true) :
    ∃ p n key computed value kind isStatic, parse t o = .ok p ∧ p.root.Below n ∧
      n.shape = .methodDefinition key computed value kind isStatic ∧
      q n.info.range (key, computed, value, isStatic) = true := by
  obtain ⟨p, e, hp, he, h⟩ := Program.exists_expression h
  obtain ⟨body, hbody, h⟩ := List.any_eq_true.mp h
  obtain ⟨n, hn, h⟩ := List.any_eq_true.mp h
  obtain ⟨⟨key, computed, value, isStatic⟩, hm, hq⟩ := (Option.any_eq_true _ _).mp h
  unfold Node.method? at hm
  split at hm
  next hs =>
    cases hm
    exact ⟨p, n, key, computed, value, _, isStatic, hp, (he.child hbody).child hn, hs, hq⟩
  next => cases hm

theorem methods_read :
    ((parse (Text.ofString "(class \x7bstatic get [x]() \x7b\x7d\x7d)") { range := true }).toOption.any fun p =>
      p.expression?.any fun e => e.shape.children.any fun body => body.shape.children.any fun n => n.method?.any
        fun m => n.info.range == some ⟨8, 27⟩ && m.2.1 && !m.2.2.1.isAsync && m.2.2.2) = true ∧
    ((parse (Text.ofString "(class \x7basync [x]() \x7b\x7d\x7d)") { range := true }).toOption.any fun p =>
      p.expression?.any fun e => e.shape.children.any fun body => body.shape.children.any fun n => n.method?.any
        fun m => m.1.info.range == some ⟨15, 16⟩ && !m.2.1) = true := by
  decide +kernel

/-- Two words stand before a bracket. -/
theorem parse_keyed_getter :
    let src := Text.ofString "(class \x7bstatic get [x]() \x7b\x7d\x7d)"
    ∃ p n key value kind, parse src { range := true } = .ok p ∧ p.root.Below n ∧ n.info.range = some ⟨8, 27⟩ ∧
      n.shape = .methodDefinition key true value kind true ∧ (Source.ofText src).Keyed key true 8 := by
  intro src
  obtain ⟨p, n, key, computed, value, kind, isStatic, hp, hn, hs, hq⟩ := exists_method
    (q := fun r m => r == some ⟨8, 27⟩ && m.2.1 && !m.2.2.1.isAsync && m.2.2.2) methods_read.1
  simp only [Bool.and_eq_true, beq_iff_eq, Bool.not_eq_true'] at hq
  obtain ⟨⟨⟨hr, rfl⟩, ha⟩, rfl⟩ := hq
  have h := (parse_keyed rfl hp hn hr).2.1 _ _ _ _ _ hs
  rw [ha] at h
  exact ⟨p, n, key, value, kind, hp, hn, hr, hs, h rfl⟩

/-- Brackets around the key of an asynchronous method are not told. -/
theorem parse_hides_brackets :
    let src := Text.ofString "(class \x7basync [x]() \x7b\x7d\x7d)"
    ∃ p n key value kind isStatic, parse src { range := true } = .ok p ∧ p.root.Below n ∧
      n.shape = .methodDefinition key false value kind isStatic ∧ key.info.range = some ⟨15, 16⟩ ∧
      (Source.ofText src).hasAt 14 "[" = true ∧ (Source.ofText src).hasAt 16 "]" = true := by
  intro src
  obtain ⟨p, n, key, computed, value, kind, isStatic, hp, hn, hs, hq⟩ := exists_method
    (q := fun _ m => m.1.info.range == some ⟨15, 16⟩ && !m.2.1) methods_read.2
  simp only [Bool.and_eq_true, beq_iff_eq, Bool.not_eq_true'] at hq
  obtain ⟨hr, rfl⟩ := hq
  exact ⟨p, n, key, value, kind, isStatic, hp, hn, hs, hr, rfl, rfl⟩

/-! ## Initial values -/

/-- A node of the program has a declaration in it, and there something is declared without an initial value. -/
structure Program.Bare (p : Program) (n c d id : Node) (kind : DeclarationKind) : Prop where
  below : p.root.Below n
  child : c ∈ n.shape.children
  declared : ∃ declarations, c.shape = .variableDeclaration declarations kind ∧ d ∈ declarations
  bare : d.shape = .variableDeclarator id none

/-- In the tree of a program a variable without an initial value is a name, unless it is declared in the head of a
loop. Only a constant may lack its initial value elsewhere, and only where a word follows by which a loop runs over
something. -/
theorem parse_initialized {n c d id : Node} {kind : DeclarationKind} (ht : o.tolerant = false)
    (h : parse t o = .ok p) (hb : p.Bare n c d id kind) :
    (kind ≠ .const → id.isIdentifier = true ∨ n.shape.loopHead? = some c) ∧
      (kind = .const → ∀ r ∈ d.info.range, ∃ j, (Source.ofText t).Gap r.stop j ∧ (Source.ofText t).RunsOver j) := by
  have horderly := (Program.proper ht h).descend hb.below
  obtain ⟨declarations, hs, hd⟩ := hb.declared
  refine ⟨fun hk => (horderly.whole hb.child).imp_left fun hw => ?_, fun hk => ?_⟩
  · unfold Node.isWhole at hw
    rw [hs] at hw
    have hpattern := (Bool.or_eq_true_iff.mp hw).resolve_left (by simpa using hk)
    simpa [Node.isBarePattern, hb.bare] using List.all_eq_true.mp hpattern d hd
  · have hkeyed := (horderly.children hb.child).keyed
    rw [hs] at hkeyed
    exact hkeyed hk d hd (by simp [Parse.isBareDeclaration, hb.bare])

/-- The variables of a declaration that have no initial value, with what is declared. -/
def Node.bareDeclarators (c : Node) : List (DeclarationKind × Node × Node) :=
  match c.shape with
  | .variableDeclaration declarations kind => declarations.filterMap fun d =>
    match d.shape with
    | .variableDeclarator id none => some (kind, d, id)
    | _ => none
  | _ => []

/-- Is there such a variable in the program or in one of its statements? -/
def Text.bares (t : Text) (o : Parse.Options) (q : Node → DeclarationKind × Node × Node → Bool) : Bool :=
  (parse t o).toOption.any fun p => (p.root :: p.root.shape.children).any fun n =>
    n.shape.children.any fun c => c.bareDeclarators.any (q n)

theorem Text.exists_bare {q : Node → DeclarationKind × Node × Node → Bool} (h : t.bares o q = true) :
    ∃ p n c d id kind, parse t o = .ok p ∧ p.Bare n c d id kind ∧ q n (kind, d, id) = true := by
  obtain ⟨p, hp, h⟩ := Program.exists_parsed h
  obtain ⟨n, hn, h⟩ := List.any_eq_true.mp h
  obtain ⟨c, hc, h⟩ := List.any_eq_true.mp h
  obtain ⟨⟨kind, d, id⟩, hb, hq⟩ := List.any_eq_true.mp h
  have hbelow : p.root.Below n := by
    rcases List.mem_cons.mp hn with rfl | hn
    · exact .root
    · exact .child .root hn
  unfold Node.bareDeclarators at hb
  split at hb
  next declarations kind hs =>
    obtain ⟨d, hd, hb⟩ := List.mem_filterMap.mp hb
    split at hb
    next hbare =>
      cases hb
      exact ⟨p, n, c, d, id, kind, hp, ⟨hbelow, hc, ⟨declarations, hs, hd⟩, hbare⟩, hq⟩
    next => cases hb
  next => cases hb

theorem constants_bare :
    (Text.ofString "for (const [a] of b);").bares { range := true } (fun _ b =>
        b.1 == .const && b.2.1.info.range == some ⟨11, 14⟩ && !b.2.2.isIdentifier) = true ∧
      (Text.ofString "const a\nof").bares {} (fun n b => b.1 == .const && n.shape.loopHead?.isNone) = true := by
  decide +kernel

/-- A constant pattern without an initial value stands in front of the word. -/
theorem parse_initialized_loop :
    let src := Text.ofString "for (const [a] of b);"
    ∃ p n c d id, parse src { range := true } = .ok p ∧ p.Bare n c d id .const ∧ id.isIdentifier = false ∧
      ∃ j, (Source.ofText src).Gap 14 j ∧ (Source.ofText src).RunsOver j := by
  intro src
  obtain ⟨p, n, c, d, id, kind, hp, hb, hq⟩ := Text.exists_bare constants_bare.1
  simp only [Bool.and_eq_true, beq_iff_eq, Bool.not_eq_true'] at hq
  obtain ⟨⟨rfl, hr⟩, hid⟩ := hq
  exact ⟨p, n, c, d, id, hp, hb, hid, (parse_initialized rfl hp hb).2 rfl _ hr⟩

/-- A name on the next line that is spelled like the word lets a constant go without its value. -/
theorem parse_bares_constant : ∃ p n c d id, parse (Text.ofString "const a\nof") = .ok p ∧
    p.Bare n c d id .const ∧ n.shape.loopHead? = none := by
  obtain ⟨p, n, c, d, id, kind, hp, hb, hq⟩ := Text.exists_bare constants_bare.2
  simp only [Bool.and_eq_true, beq_iff_eq, Option.isNone_iff_eq_none] at hq
  obtain ⟨rfl, hl⟩ := hq
  exact ⟨p, n, c, d, id, hp, hb, hl⟩

/-! ## Markup -/

/-- In the tree of a program an element closes itself and has no children, or a tag of the same name closes it. Only
at the end of the program an element may be left open, right behind a tag. Wherever an element is closed, the tags
that were read for it are those of the tree, each of them once and in their order. -/
theorem parse_elements (ht : o.tolerant = false) (h : parse t o = .ok p) :
    (∀ n opening children closing, p.root.Below n → n.shape = .jsxElement opening children closing →
      ∃ name selfClosing attributes, opening.shape = .jsxOpeningElement name selfClosing attributes ∧
        if selfClosing then children = [] ∧ closing = none
        else
          (∃ tag name', closing = some tag ∧ tag.shape = .jsxClosingElement name' ∧
            Parse.qualifiedName name' = Parse.qualifiedName name) ∨
          closing = none ∧ Shape.EndsInTag (.ofText t)) ∧
    ∀ g s s' outer children tag, outer.children = [] →
      Returns (Parse.elementTail g outer) ⟨.ofText t, o⟩ s (children, some tag) s' →
      Parse.ReadsTags ⟨.ofText t, o⟩ g s.cursor (Node.tagsOf children ++ [tag]) s'.cursor := by
  have : Parse.Intolerant ⟨.ofText t, o⟩ := ⟨ht⟩
  refine ⟨fun n opening children closing hn hs => ?_, fun g s s' outer children tag houter hr => ?_⟩
  · have hproper := ((Program.proper ht h).descend hn).local'
    rw [hs] at hproper
    exact hproper
  · exact Parse.elementTail_tags houter hr

def Node.element? (n : Node) : Option (Node × List Node × Option Node) :=
  match n.shape with
  | .jsxElement opening children closing => some (opening, children, closing)
  | _ => none

theorem exists_element {q : Node × List Node × Option Node → Bool}
    (h : (parse t o).toOption.any (fun p => p.expression?.any fun n => n.element?.any q) = true) :
    ∃ p n opening children closing, parse t o = .ok p ∧ p.root.Below n ∧
      n.shape = .jsxElement opening children closing ∧ q (opening, children, closing) = true := by
  obtain ⟨p, n, hp, hn, h⟩ := Program.exists_expression h
  obtain ⟨⟨opening, children, closing⟩, he, hq⟩ := (Option.any_eq_true _ _).mp h
  refine ⟨p, n, opening, children, closing, hp, hn, ?_, hq⟩
  unfold Node.element? at he
  split at he
  · cases he
    assumption
  · cases he

theorem elements_read :
    ((parse (Text.ofString "<a><b/></a>") { jsx := true }).toOption.any fun p => p.expression?.any fun n =>
        n.element?.any fun e => e.2.1.length == 1 && e.2.2.isSome) = true ∧
      ((parse (Text.ofString "<a><b>") { jsx := true }).toOption.any fun p => p.expression?.any fun n =>
        n.element?.any fun e => !Parse.isSelfClosing e.1 && e.2.1.isEmpty && e.2.2.isNone) = true := by
  decide +kernel

/-- An element in an element. -/
theorem parse_elements_nested :
    ∃ p n opening child tag name name' attributes, parse (Text.ofString "<a><b/></a>") { jsx := true } = .ok p ∧
      p.root.Below n ∧ n.shape = .jsxElement opening [child] (some tag) ∧
      opening.shape = .jsxOpeningElement name false attributes ∧ tag.shape = .jsxClosingElement name' ∧
      Parse.qualifiedName name' = Parse.qualifiedName name := by
  obtain ⟨p, n, opening, children, closing, hp, hn, hs, hq⟩ := exists_element elements_read.1
  obtain ⟨hlength, hclosing⟩ := Bool.and_eq_true_iff.mp hq
  obtain ⟨child, rfl⟩ := List.length_eq_one_iff.mp (beq_iff_eq.mp hlength)
  obtain ⟨name, selfClosing, attributes, hopening, h⟩ := (parse_elements rfl hp).1 n opening [child] closing hn hs
  cases selfClosing with
  | true => cases h.1
  | false =>
    rcases h with ⟨tag, name', rfl, htag, hname⟩ | ⟨rfl, -⟩
    · exact ⟨p, n, opening, child, tag, name, name', attributes, hp, hn, hs, hopening, htag, hname⟩
    · cases hclosing

/-- Neither tag is closed, and the second one is in no element. -/
theorem parse_leaves_open :
    ∃ p n opening, parse (Text.ofString "<a><b>") { jsx := true } = .ok p ∧ p.root.Below n ∧
      n.shape = .jsxElement opening [] none ∧ Parse.isSelfClosing opening = false := by
  obtain ⟨p, n, opening, children, closing, hp, hn, hs, hq⟩ := exists_element elements_read.2
  simp only [Bool.and_eq_true, Bool.not_eq_true', List.isEmpty_iff, Option.isNone_iff_eq_none] at hq
  obtain ⟨⟨hopen, rfl⟩, rfl⟩ := hq
  exact ⟨p, n, opening, hp, hn, hs, hopen⟩

end ScriptTree
