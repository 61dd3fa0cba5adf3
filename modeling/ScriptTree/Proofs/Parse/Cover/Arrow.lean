import ScriptTree.Proofs.Parse.Cover.Expression

/-! # Assignments and arrow functions

The names that the parameters of an arrow function bind are noted as those of other functions are, and one that
comes twice is rejected if that was the last thing noted. Nothing is noted after a name that strict code may not
bind, so that two names may be the same then (`Parameters.Apart`). -/

namespace ScriptTree.Parse

variable {isAsync : Bool} {nodes : List Node} {src : Source} {start : Token}

open Parts

/-! ## Names of parameters -/

namespace Parameters

/-- One of the names is none that strict code may bind. -/
def HasSpecial (names : List Text) : Prop :=
  ∃ name ∈ names, Words.isRestricted name = true ∨ Words.isStrict name = true

/-- A name that comes twice is noted, unless there is one that strict code may not bind. -/
structure Apart (p : Parameters) : Prop where
  restricted : p.restricted.isSome = true → HasSpecial p.names
  names : p.names.Nodup ∨ p.message = some .strictDuplicateParameter ∨ HasSpecial p.names

variable {p : Parameters} {strict : Bool} {o : Offender} {name : Text} {n : Node}

theorem Apart.bind (h : p.Apart) : (p.bind strict o name).Apart := by
  by_cases hspecial : HasSpecial (name :: p.names)
  · exact ⟨fun _ => names_bind ▸ hspecial, .inr (.inr (names_bind ▸ hspecial))⟩
  have hmono : HasSpecial p.names → HasSpecial (name :: p.names) := fun ⟨m, hm, h⟩ => ⟨m, .tail _ hm, h⟩
  have hname : Words.isRestricted name = false ∧ Words.isStrict name = false := by
    refine ⟨Bool.eq_false_iff.mpr fun h => hspecial ⟨name, .head _, .inl h⟩, ?_⟩
    exact Bool.eq_false_iff.mpr fun h => hspecial ⟨name, .head _, .inr h⟩
  have hnone : p.restricted = none := by
    cases hr : p.restricted with
    | none => rfl
    | some => exact absurd (hmono (h.restricted (by rw [hr]; rfl))) hspecial
  have hnames : p.names.Nodup ∨ p.message = some .strictDuplicateParameter :=
    h.names.imp id fun h => h.resolve_right fun h => hspecial (hmono h)
  by_cases hknown : name ∈ p.names
  · -- that the name comes twice is noted
    refine ⟨?_, .inr (.inl ?_)⟩
    · cases strict <;> simp [Parameters.bind, hname, hnone, hknown]
    · cases strict <;> simp [Parameters.bind, hname, hnone, hknown]
  · refine ⟨?_, hnames.imp (fun h => ?_) fun h => .inl ?_⟩
    · cases strict <;> simp [Parameters.bind, hname, hnone, hknown]
    · rw [names_bind]
      exact List.nodup_cons.mpr ⟨hknown, h⟩
    · cases strict <;> simp [Parameters.bind, hname, hnone, hknown, h]

/-- What has been noted of nodes that became the parameters of an arrow function. -/
structure Noted (p : Parameters) (nodes : List Node) : Prop extends Apart p where
  params : p.params = nodes.map asArrowParameter
  listed : p.names.reverse = p.params.flatMap Node.boundNames

theorem Noted.empty : Noted {} [] := ⟨⟨nofun, .inl .nil⟩, rfl, rfl⟩

/-- All names of a node are noted. -/
theorem Apart.binds (h : p.Apart) (strict : Bool) (names : List Text) :
    (names.foldl (fun p name => p.bind strict .node name) p).Apart ∧
      (names.foldl (fun p name => p.bind strict .node name) p).names.reverse = p.names.reverse ++ names := by
  induction names generalizing p with
  | nil => exact ⟨h, (List.append_nil _).symm⟩
  | cons name names ih =>
    have hbound : (p.bind strict .node name).Apart := h.bind
    obtain ⟨hapart, hnames⟩ := ih hbound
    exact ⟨hapart, hnames.trans (by simp)⟩

/-- A node is added after its names. -/
theorem Noted.push (h : p.Noted nodes) :
    Noted (((asArrowParameter n).boundNames.foldl (fun p name => p.bind strict .node name) p).push
      (asArrowParameter n)) (nodes ++ [n]) := by
  obtain ⟨hapart, hnames⟩ := h.toApart.binds strict (asArrowParameter n).boundNames
  have hparams := p.params_foldl_bind strict (fun _ => .node) id (asArrowParameter n).boundNames
  refine ⟨⟨hapart.restricted, hapart.names⟩, ?_, ?_⟩
  · simp only [Parameters.push, List.map_append, List.map_singleton]
    rw [← h.params]
    exact congrArg (· ++ [asArrowParameter n]) hparams
  · simp only [Parameters.push, List.flatMap_append, List.flatMap_singleton]
    rw [hnames, h.listed]
    exact congrArg (List.flatMap Node.boundNames · ++ _) hparams.symm

/-- Unless the last thing noted is a name that comes twice, names come once or one of them is special. -/
theorem Noted.namedApart (h : p.Noted nodes)
    (hm : p.message ≠ some .strictDuplicateParameter) : Shape.NamedApart p.params := by
  unfold Shape.NamedApart
  rw [← h.listed]
  refine h.names.imp List.nodup_reverse.mpr fun h => ?_
  obtain ⟨name, hname, hspecial⟩ := h.resolve_left hm
  exact ⟨name, List.mem_reverse.mpr hname, hspecial⟩

/-- Parameters of which an arrow function may be made. -/
structure Suitable (p : Parameters) (src : Source) (isAsync : Bool) : Prop where
  proper : Propers src p.params
  named : Shape.NamedApart p.params
  settled : ∀ n ∈ p.params, n.AllLeaves Shape.isSettled
  names : isAsync = false → src.HasTrailingComma ∨ ∀ n ∈ p.params, n.AllLeaves Shape.passesAsName

end Parameters

/-! ## Parameters -/

theorem leaves_asArrowParameter (n : Node) : (asArrowParameter n).leaves = n.leaves := by
  obtain ⟨info, shape⟩ := n
  unfold asArrowParameter
  dsimp only
  split
  · split <;> rfl
  · rfl

theorem proper_asArrowParameter {n : Node} (h : Proper src n) : Proper src (asArrowParameter n) := by
  obtain ⟨info, shape⟩ := n
  unfold asArrowParameter
  dsimp only
  split
  next left right =>
    split
    · have hparts := h.children
      refine .plain ?_ h.local'
      simp only [Shape.children, Shape.parts, Part.nodes] at hparts ⊢
      simp at hparts ⊢
      exact ⟨hparts.1, .of_isName rfl⟩
    · exact h
  · exact h

theorem Parameters.Suitable.of_noted {p : Parameters}
    (h : p.Noted nodes) (hm : p.message ≠ some .strictDuplicateParameter) (hp : Propers src nodes)
    (hs : ∀ n ∈ nodes, n.AllLeaves Shape.isSettled)
    (hn : isAsync = false → src.HasTrailingComma ∨ ∀ n ∈ nodes, n.AllLeaves Shape.passesAsName) :
    p.Suitable src isAsync := by
  have hleaves {q : Shape Node → Bool} (hq : ∀ n ∈ nodes, n.AllLeaves q) : ∀ n ∈ p.params, n.AllLeaves q := by
    rw [h.params]
    refine List.forall_mem_map.mpr fun n hn => ?_
    rw [Node.AllLeaves, leaves_asArrowParameter]
    exact hq n hn
  refine ⟨?_, h.namedApart hm, hleaves hs, fun ha => (hn ha).imp id hleaves⟩
  rw [h.params]
  exact List.forall_mem_map.mpr fun n hn => proper_asArrowParameter (hp n hn)

variable {β : Type} {env : Env} {g : Grammar} {T B F P : Prop} {t : Token} {s : State} {e : Node}

/-- Parameters that were read before an arrow are suitable, and nothing but names and parameters becomes any. -/
theorem coverParameters_suitable : Leads env (Vouched env T B t) (coverParameters e) fun x s =>
      Vouched env T B t s ∧ (x = none → e.shape.isPlaceholder = false) ∧
        ∀ p ∈ x, BeforeArrow env.source e → p.Suitable env.source ((arrowKind? e).getD false) := by
  unfold coverParameters
  extract_lets p check
  have hcheck : ∀ isAsync nodes,
      (∀ p : Parameters, p.Noted nodes → p.message ≠ some .strictDuplicateParameter → BeforeArrow env.source e →
        p.Suitable env.source ((arrowKind? e).getD false)) →
      Leads env (Vouched env T B t) (check isAsync nodes) fun x s =>
        Vouched env T B t s ∧ (x = none → e.shape.isPlaceholder = false) ∧
          ∀ p ∈ x, BeforeArrow env.source e → p.Suitable env.source ((arrowKind? e).getD false) := by
    intro isAsync nodes hsuitable
    let I (known : List Node) (p : Parameters) (s : State) := Vouched env T B t s ∧ p.Noted known
    refine .idleVouched fun c => .bind (.weaken (P := I [] p) (fun _ h => ⟨h, .empty⟩) (.forIn I ?_)) fun p => ?_
    · refine fun known n p => .fact fun hp => .bind (arrowParameter_keeps isAsync n) fun n' => .pure ?_
      rintro s ⟨h, rfl⟩
      exact ⟨_, rfl, h, hp.push⟩
    · refine .fact fun hp => .when <| .ite (fun _ => .idleVouched fun _ => .fails_bind) fun hm => .pure fun _ h =>
        ⟨h, nofun, ?_⟩
      rintro _ ⟨⟩
      exact hsuitable p hp (by simpa using hm)
  obtain ⟨info, shape⟩ := e
  dsimp only
  split
  next name =>
    refine hcheck _ _ fun p hp hm _ => .of_noted hp hm ?_ ?_ fun _ => .inr ?_
    · exact List.forall_mem_singleton.mpr (.of_isName rfl)
    · exact List.forall_mem_singleton.mpr ((Node.allLeaves_of_not_pattern rfl).mpr rfl)
    · exact List.forall_mem_singleton.mpr ((Node.allLeaves_of_not_pattern rfl).mpr rfl)
  next isAsync nodes =>
    refine hcheck _ _ fun p hp hm he => ?_
    obtain ⟨hproper, hsettled, hnames⟩ := he isAsync nodes rfl
    exact .of_noted hp hm hproper hsettled hnames
  next hname hparameters =>
    refine .pure fun _ h => ⟨h, fun _ => ?_, ?_⟩
    · cases shape with
      | arrowParameters isAsync nodes => exact (hparameters isAsync nodes rfl).elim
      | _ => rfl
    · rintro _ ⟨⟩

variable [Intolerant env] [Covering env g]

omit [Intolerant env] in
/-- The arrow is taken. -/
theorem Leads.takesArrow {f : Unit → Parse β} {R : β → State → Prop}
    (hf : Arrow t → ∀ t', Faces env T B True t' (f ()) R) :
    Leads env (Vouched env T B t) (expect "=>" >>= f) R := by
  unfold expect
  rw [bind_assoc]
  refine .nextsVouched fun t' _ _ _ => ?_
  by_cases hl : t.lexeme.isMark "=>" = true
  · rw [if_pos hl]
    exact .pure_bind (.weaken (fun _ => Vouched.ahead) (hf (eq_of_isMark hl) t'))
  · rw [if_neg hl]
    exact .fails_bind

theorem arrowTail_graded {p : Parameters} (hF : F) (hp : Arrow t → p.Suitable env.source isAsync) :
    Leads env (Vouched env False False t) (arrowTail g start isAsync p) (Graded env F) := by
  refine .idleVouched fun _ => .fork (.idleVouched fun _ => .fails_bind) <| .idleVouched fun before =>
    .flagsVouched (fun _ => id) (fun _ => id) <| .takesArrow fun ha t' => .answers ?_
  replace hp := hp ha
  extract_lets rest
  have hrest body {T B P : Prop} {t} : (P → Proper env.source body) →
      (T ∨ B → ∃ items, body.shape = .blockStatement items) →
      Faces env T B P t (rest body) (Graded env F) := by
    intro hbody hblock
    dsimp -zeta only [rest]
    extract_lets isExpression finished stricted
    let shape := Shape.arrowFunction isAsync p.params body isExpression
    have hloose (h : T ∨ B) (info : Node.Info) : (Node.mk info shape).shape.isLoose = true := by
      obtain ⟨items, hitems⟩ := hblock h
      dsimp only [shape, isExpression]
      rw [hitems]
      rfl
    have hfinished : Faces env T B P t (finished ()) (Graded env F) := by
      refine .shapes fun info => .keepsFlags <| .pure fun _ hs => hs.graded hF (fun hP => ?_) (fun _ h => ?_)
        (fun _ h => ?_) fun _ => .of_not_placeholder rfl
      · refine .of_children ?_ ⟨hp.named, hp.settled, hp.names⟩
        simpa [hbody hP] using hp.proper
      · exact (Node.allTargets_of_isLoose (hloose (.inl h) info)).1
      · exact (Node.allTargets_of_isLoose (hloose (.inr h) info)).2
    refine .keeps fun c => .fork ?_ hfinished
    split
    · exact .fails_bind
    · dsimp only [stricted]
      split
      · exact .fails_bind
      · exact hfinished
  refine .fork ?_ <| .inlays fun _ body t'' => hrest body (fun h => h body (.head _)) ?_
  · exact .keepsFlags <| .settles fun _ body hbody t'' => .keepsFlags <| .pure_bind <|
      hrest body (fun _ => hbody.proper) fun _ => hbody.isBlock
  · exact fun h => h.elim False.elim False.elim

instance : Grades env (yieldExpression g) := by
  refine ⟨fun F => .enters fun t => .expectsWord fun hF _ t' => .past <| .ite
    (fun _ => .gradedLoose hF nofun) fun _ => .keeps fun before => .keepsFlags <| .answers ?_⟩
  extract_lets rest
  have hrest argument t : Faces env True True (Intact env argument) t (rest argument) (Graded env F) := by
    refine .keepsFlags <| .gradedLoose hF fun h => ?_
    simpa using h
  refine .past <| .ite (fun hs => ?_) fun _ => .fork ?_ ?_
  · exact .skips (not_arrow_of_isMark hs (by decide)) fun _ _ => .parts fun _ => hrest
  · exact .parts fun _ => hrest
  · exact .pure_bind (.knowing (fun _ _ => trivial) (fun _ _ => trivial) (fun _ => .nil) (hrest none t'))

/-! ## Assignments -/

omit [Intolerant env] [Covering env g] in
/-- What is assigned to, before the operator. -/
theorem proper_assignment {left : Node} (ho : assignmentOperators.any t.lexeme.isMark = true)
    (he : Expr env.source left) (ht : left.AllTargets Shape.passesAsTarget) (right : Node) :
    (Shape.assignmentExpression (operatorText t.lexeme)
      (if t.lexeme.isMark "=" then left.asPattern else left) right).Proper env.source := by
  obtain ⟨m, -, hm⟩ := List.any_eq_true.mp ho
  have hm := eq_of_isMark hm
  have hmark : (Lexeme.punctuator m).isMark "=" = (m == "=") := rfl
  rw [Shape.Proper, hm, operatorText, hmark]
  by_cases h : m = "="
  · rw [if_pos h, if_pos (beq_iff_eq.mpr h)]
    exact ⟨ht, Shape.isRest_asPattern he.isPart⟩
  · rw [if_neg h, if_neg (mt beq_iff_eq.mp h)]
    exact ⟨ht, he.isPart⟩

theorem assignmentTail_graded (hF : F) (ho : assignmentOperators.any t.lexeme.isMark = true) :
    Faces env (e.AllTargets Shape.passesAsTarget) (e.AllTargets Shape.passesAsName) (Expr env.source e) t
      (assignmentTail g start e) (Graded env F) := by
  have ha : ¬ Arrow t := not_arrow_of_any ho
  refine .settled ha fun he => .readsFlags fun c ht _ => .ite (fun _ => .fails_bind) fun hc => .keeps fun c => ?_
  replace ht := ht ha (by simpa using hc)
  extract_lets assigned rest
  have hassigned left {T B : Prop} : Proper env.source left →
      (∀ right, (Shape.assignmentExpression (operatorText t.lexeme) left right).Proper env.source) →
      (T → left.AllTargets Shape.passesAsTarget) → (B → left.AllTargets Shape.passesAsName) →
      Faces env T B True t (assigned left) (Graded env F) := by
    intro hleft hproper hT hB
    refine .nexts ha fun _ _ => .inlays fun _ right _ => .shapes fun info => .keepsFlags <| .pure fun _ hs => ?_
    refine hs.graded hF (fun hright => .of_children ?_ (hproper right)) (fun _ h => ?_) (fun _ h => ?_)
      fun _ => .of_not_placeholder rfl
    · simpa [hleft] using hright
    · exact Node.allTargets_assignment.mpr (hT h)
    · exact Node.allTargets_assignment.mpr (hB h)
  have hrest : Faces env (e.AllTargets Shape.passesAsTarget) (e.AllTargets Shape.passesAsName) True t
      (rest ()) (Graded env F) := by
    have hproper := proper_assignment ho he ht
    refine .answers <| .ite (fun h => .pure_bind ?_) fun h => .onlyValue <| .pure_bind ?_
    · simp only [if_pos h] at hproper
      exact hassigned _ he.proper.asPattern hproper Node.allTargets_asPattern.mpr Node.allTargets_asPattern.mpr
    · simp only [if_neg h] at hproper
      exact hassigned _ he.proper hproper False.elim False.elim
  refine .fork ?_ hrest
  split
  · exact .when (.when hrest)
  · exact hrest

/-- The name of the parameter of an asynchronous arrow function may come next. -/
theorem Leads.asyncs {f : Node → Parse β} {R : β → State → Prop} (hn : ∀ n t', Proper env.source n →
      Faces env True True True t' (f (arrowParameters true ([n].map Node.asPattern))) R)
    (hf : Faces env T B F t (f e) R) :
    Faces env T B F t (asyncParameter g start e >>= f) R := by
  refine .bind (Q := fun e' s => Ahead env T B F t s ∧ e' = e ∨ ∃ n t', Ahead env True True True t' s ∧
    Proper env.source n ∧ e' = arrowParameters true ([n].map Node.asPattern)) ?_ fun e' => ?_
  · unfold asyncParameter
    refine .answers <| .answers <| .answers <| .ite (fun h => ?_) fun _ => .pure fun _ hs => .inl ⟨hs, rfl⟩
    have ht : (∃ name, t.lexeme = .identifier name) ∨ t.lexeme = .keyword "yield" := by
      refine (Bool.or_eq_true_iff.mp (Bool.and_eq_true_iff.mp h).2).imp (fun h => ?_) eq_of_isWord
      split at h
      next name ht => exact ⟨name, ht⟩
      · cases h
    refine .bind (operand_settled ht) fun n => .pure ?_
    rintro s ⟨-, hn, t', hs⟩
    exact .inr ⟨n, t', hs, hn, rfl⟩
  · rintro s b s' (⟨hs, rfl⟩ | ⟨n, t', hs, hn', rfl⟩)
    · exact hf s b s' hs
    · exact hn n t' hn' s b s' hs

/-- An expression before an arrow, or parameters. -/
theorem arrow_graded (hF : F) (he : (arrowKind? e).isSome = true ∨ Arrow t) (hc : Arrow t → BeforeArrow env.source e) :
    Faces env T B P t (do
      onlyValue
      match ← coverParameters e with
      | some p => arrowTail g start ((arrowKind? e).getD false) p
      | none => return e) (Graded env F) := by
  refine .weaken (fun _ hs => ⟨hs.toSight, fun _ => trivial, fun _ => trivial⟩) <|
    .flagsVouched (T := True) (B := True) (U := False) (V := False) (fun _ _ => nofun) (fun _ _ => nofun) <|
    .bind coverParameters_suitable fun x => .fact fun ⟨hnone, hsome⟩ => ?_
  split
  next => exact arrowTail_graded hF fun ha => hsome _ rfl (hc ha)
  next =>
    have hkind : e.shape.isPlaceholder = false := hnone rfl
    have ha : Arrow t := by
      refine he.resolve_left fun he => ?_
      unfold arrowKind? at he
      split at he
      next h => rw [h] at hkind; cases hkind
      next => cases he
    exact .pure fun _ hs => (hs.toSight.beforeArrow (T := False) (B := False) (F := False) ha).graded hF
      False.elim (fun _ => False.elim) (fun _ => False.elim) hc

instance : Grades env (assignment g) := by
  refine ⟨fun F => .enters fun t => .answers <| .fork .grade <| .answers ?_⟩
  refine .grades fun hF e t' hc => .asyncs (fun n t' hn => ?_) ?_
  · refine .answers <| .ite (fun _ => ?_) fun h => absurd rfl h
    exact arrow_graded hF (.inl rfl) fun _ => beforeArrow_asPatterns (by simpa using hn) nofun
  refine .answers <| .ite (fun h => ?_) fun _ => .answers <| .ite (fun ho => ?_) fun _ => ?_
  · exact arrow_graded hF ((Bool.or_eq_true_iff.mp h).imp id eq_of_isMark) hc
  · exact assignmentTail_graded hF ho
  · exact .pure fun _ hs => hs.graded hF id (fun _ => id) (fun _ => id) hc

end ScriptTree.Parse
