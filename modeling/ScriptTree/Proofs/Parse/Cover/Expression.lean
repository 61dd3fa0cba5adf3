import ScriptTree.Proofs.Parse.Cover.Markup
import ScriptTree.Proofs.Parse.Cover.Object
import ScriptTree.Proofs.Parse.Scope.Expression

/-! # Expressions

Where a list in parentheses ends with a comma, parameters are returned without a look at what comes next. If no
arrow does, they are left over (`groupTail_grouped`). All other parameters are returned before an arrow. -/

namespace ScriptTree.Parse

variable {ns : List Node} {src : Source}

open Parts

variable {β : Type} {env : Env} {g : Grammar} {T B F : Prop} {t : Token} {s : State}

instance : Settles env (fun x => Proper env.source x.1 ∧ x.1.tail? = some x.2) templatePiece := by
  refine ⟨fun F => .enters fun t => ?_⟩
  by_cases ha : Arrow t
  · refine .nextFails ?_
    rw [show t.lexeme = .punctuator "=>" from ha]
    exact .fails
  · refine .nexts ha fun hF t' => ?_
    split
    · exact .shapes fun info => .pure fun _ hs => ⟨hF, ⟨.plain nofun, rfl⟩, hs.reached⟩
    · exact .fails

instance : Settles env (fun x => Proper env.source x.1 ∧ x.1.tail? = some x.2) templateHead := by
  refine ⟨fun F => .facing fun t => .answers ?_⟩
  split
  · exact .weaken (fun _ hs => hs.reached) (Settles.leads F)
  · exact .fails

instance : Settles env (fun x => Proper env.source x.1 ∧ x.1.tail? = some x.2) templateMiddle := by
  refine ⟨fun F => .facing fun t => .answers ?_⟩
  split
  · exact .weaken (fun _ hs => hs.reached) (Settles.leads F)
  · exact .past .fails

variable [Covering env g] {e : Node}

instance : Settles env (ProperLoose env.source) (templateLiteral g) := by
  refine ⟨fun F => ?_⟩
  -- the pieces are in the order of the last one first
  let I (isLast : Bool) (x : List Node × List Node) (s : State) :=
    Reached env True True True s ∧ Propers env.source (x.1 ++ x.2) ∧
      x.1.map Node.tail? = some isLast :: List.replicate x.2.length (some false)
  refine .enters fun t => .settles fun hF (head, isLast) hhead t' => ?_
  refine .loops (Q := I true) (fun x => I x.2.2 (x.1, x.2.1)) (fun _ hs => ⟨hs.reached, ?_⟩) ?_ ?_
  · exact ⟨Propers.cons_iff.mpr ⟨hhead.1, .nil⟩, congrArg (· :: []) hhead.2⟩
  · refine fun (quasis, expressions, isLast) => .fact fun hx => ?_
    refine .ite (fun hl => .pure fun _ hs => ⟨hs, hl ▸ hx⟩) fun hl => ?_
    refine .facing fun t => .inlays fun _ e _ => .settles fun he (quasi, isLast') hquasi _ => ?_
    refine .pure fun _ hs => ⟨hs.reached, ?_, ?_⟩
    · obtain ⟨hq, he'⟩ := Propers.append_iff.mp hx.1
      simpa [hq, he', hquasi.1] using he
    · have htails : quasis.map Node.tail? = some false :: List.replicate expressions.length (some false) := by
        have hlast : isLast = false := Bool.eq_false_iff.mpr hl
        exact hlast ▸ hx.2
      simp [htails, hquasi.2, List.replicate_succ]
  · refine fun (quasis, expressions) => .fact fun hx => .facing fun t => .looseSurely hF (by simpa using hx.1) ?_
    show quasis.reverse.map _ = List.replicate expressions.reverse.length _ ++ _
    rw [List.map_reverse, hx.2]
    simp

/-! ## Parentheses -/

/-- An arrow has to be ahead. -/
theorem Leads.expectsArrow {f : Unit → Parse β} {R : β → State → Prop} (hf : Arrow t → Faces env T B F t (f ()) R) :
    Faces env T B F t (expectArrow >>= f) R := by
  unfold expectArrow
  rw [bind_assoc]
  refine .answers ?_
  by_cases hl : t.lexeme.isMark "=>" = true
  · rw [if_pos hl]
    exact .pure_bind (hf (eq_of_isMark hl))
  · rw [if_neg hl]
    unfold expect
    rw [bind_assoc]
    refine .nextFails ?_
    rw [if_neg hl]
    exact .fails_bind

/-- Expressions that become parameters. -/
theorem beforeArrow_asPatterns {isAsync : Bool} (hp : Propers src ns)
    (hn : isAsync = false → src.HasTrailingComma ∨ ∀ n ∈ ns, n.AllTargets Shape.passesAsName) :
    BeforeArrow src (arrowParameters isAsync (ns.map Node.asPattern)) := by
  rintro _ _ ⟨⟩
  refine ⟨hp.asPatterns, List.forall_mem_map.mpr fun n h => (hp n h).asPattern_settled.2, fun ha => ?_⟩
  exact (hn ha).imp id fun hn => List.forall_mem_map.mpr hn

/-- A pattern of names as the only parameter. -/
theorem BindsNames.beforeArrow {n : Node} (h : BindsNames Node.leaves src n) :
    BeforeArrow src (arrowParameters false [n]) := by
  have hn : BeforeArrow src (arrowParameters false ([n].map Node.asPattern)) :=
    beforeArrow_asPatterns (by simpa using h.proper) fun _ =>
      .inr (List.forall_mem_singleton.mpr (h.allTargets fun _ => Shape.passesAsName_of_isName))
  rwa [List.map_singleton, h.asPattern_eq] at hn

/-- What was read in parentheses. What the flags tell of parameters is lost. -/
def Grouped (env : Env) (F : Prop) (e : Node) (s : State) : Prop :=
  Onward env (e.AllTargets Shape.passesAsTarget) True F (Expr env.source e) s ∧
    (Arrow s.lookahead → BeforeArrow env.source e)

/-- Parameters before an arrow. -/
theorem Sight.grouped (h : Sight env t s) (ha : Arrow t) (hF : F) (he : BeforeArrow env.source e) : Grouped env F e s :=
  ⟨⟨hF, (h.beforeArrow ha).reached⟩, fun _ => he⟩

/-- Parameters in a list that ends with a comma. Without an arrow they are left over. -/
theorem Ahead.grouped (h : Ahead env False B True t s) (hF : F) (hne : ns ≠ [])
    (hns : Propers env.source ns) (hends : env.source.ListEnds t.start) :
    Grouped env F (arrowParameters false (ns.map Node.asPattern)) s := by
  by_cases ha : Arrow t
  · obtain ⟨hat, -⟩ := h.stands.mark "=>" (by decide) ha
    exact h.toSight.grouped ha hF (beforeArrow_asPatterns hns fun _ => .inl ⟨t.start, hends, hat⟩)
  · have hat : env.source.hasAt t.start "=>" = false := Bool.eq_false_iff.mpr fun hat => ha (h.arrow hat)
    have he : Expr env.source (arrowParameters false (ns.map Node.asPattern)) := by
      refine .of_children ?_ ⟨rfl, fun h => hne (List.map_eq_nil_iff.mp h), t.start, hends, hat⟩
      simpa using hns.asPatterns
    exact ⟨⟨hF, (h.imp (fun _ => False.elim) (fun _ _ => trivial) fun _ => he).reached⟩,
      fun ha' => absurd (h.lookahead ▸ ha') ha⟩

theorem groupTail_grouped {first : Node} (hF : F) :
    Faces env T (first.AllTargets Shape.passesAsName) (Proper env.source first) t (groupTail g first)
      fun x s => match x with
        | .inl es => Reached env False (∀ e ∈ es, e.AllTargets Shape.passesAsName) (Propers env.source es) s
        | .inr e => Grouped env F e s := by
  refine .flags (U := False) (fun _ _ => nofun) (fun _ h => h) ?_
  let I (found : List Node) (s : State) :=
    Reached env False (∀ e ∈ found, e.AllTargets Shape.passesAsName) (Propers env.source found) s ∧ found ≠ []
  refine .loop I (fun s hs => ⟨?_, nofun⟩) fun found => .fact fun hne => .facing fun t => .answers <|
    .ite (fun _ => .pure fun s hs => ?_) fun hc => ?_
  · refine (hs.imp (fun _ => id) (fun _ h => ?_) fun h => ?_).reached
    · simpa using h
    · simpa using h
  · refine (hs.imp (fun _ => id) (fun _ h => ?_) fun h => ?_).reached
    · simpa using h
    · simpa using h
  have hc : t.lexeme = .punctuator "," := eq_of_isMark (by simpa using hc)
  refine .skipsMark (by decide) hc (by decide) fun hfound hcomma t' hgap => .answers <|
    .ite (fun hclose => ?_) fun _ => .answers <| .ite (fun hdots => ?_) fun _ => ?_
  · -- a comma and the end of the list
    refine .skipsMark (by decide) (eq_of_isMark hclose) (by decide) fun _ hparen t'' hgap' => .pure fun _ hs => ?_
    refine hs.grouped hF (by simpa using hne) (by simpa using hfound) ?_
    exact ⟨t.start, t'.start, hcomma, hgap, hparen, hgap'⟩
  · refine .readsFlags fun c _ hB => .ite (fun _ => .fails_bind) fun hb => .pattern fun _ rest names _ => .expects
      fun hrest _ _ => .expectsArrow fun ha => .losesFlags <| .pure fun _ hs => hs.toSight.grouped ha hF ?_
    have hfound' := hB (not_arrow_of_isMark hdots (by decide)) (by simpa using hb)
    refine beforeArrow_asPatterns ?_ fun _ => .inr ?_
    · simpa [hrest.proper] using hfound
    · have hall : ∀ n ∈ rest :: found, n.AllTargets Shape.passesAsName :=
        List.forall_mem_cons.mpr ⟨hrest.allTargets fun _ => Shape.passesAsName_of_isName, hfound'⟩
      exact fun n hn => hall n (List.mem_reverse.mp hn)
  · refine .inherits fun _ e t'' _ => .pure fun _ hs =>
      ⟨(hs.imp (fun _ => And.left) (fun _ h => ?_) fun he => ?_).reached, nofun⟩
    · exact List.forall_mem_cons.mpr h.symm
    · exact Propers.cons_iff.mpr ⟨he.proper, hfound⟩

/-- All that the parentheses hold passes for names. -/
def ListsNames (e : Node) : Prop :=
  e.AllTargets Shape.passesAsName ∨
    ∃ es, e.shape = .sequenceExpression es ∧ ∀ e ∈ es, e.AllTargets Shape.passesAsName

theorem ListsNames.of_sequence {es : List Node} (h : ListsNames e)
    (he : e.shape = .sequenceExpression es) : ∀ e ∈ es, e.AllTargets Shape.passesAsName := by
  obtain ⟨info, shape⟩ := e
  cases he
  rcases h with h | ⟨es', he, h⟩
  · cases (Node.allTargets_of_plain rfl rfl).mp h
  · cases he
    exact h

theorem groupEnd_grouped (hF : F) :
    Faces env (e.AllTargets Shape.passesAsTarget) (ListsNames e) (Expr env.source e) t (groupEnd e)
      (Grouped env F) := by
  refine .expectsVouched fun he _ t' => .answersVouched <| .ite (fun hs => ?_) fun hn => ?_
  · have ha : Arrow t' := eq_of_isMark hs
    refine .ite (fun hy => ?_) fun _ => .readsFlagsVouched fun c _ hB => .ite (fun _ => .fails_bind) fun hb => ?_
    · have hbinds : BindsNames Node.leaves env.source e := .of_isName (isName_of_isNamed hy)
      exact .flagsVouched (V := False) (fun _ => id) (fun _ _ => nofun) <| .pure fun _ hs =>
        hs.toSight.grouped ha hF hbinds.beforeArrow
    · refine .flagsVouched (V := False) (fun _ => id) (fun _ _ => nofun) ?_
      have hB := hB (by simpa using hb)
      split
      next es hes =>
        refine .pure fun _ hs => hs.toSight.grouped ha hF (beforeArrow_asPatterns ?_ fun _ => .inr ?_)
        · have hparts := he.proper.children (by rw [hes]; rfl)
          rw [hes] at hparts
          simpa using hparts
        · exact hB.of_sequence hes
      next hes =>
        have hlists := hB.resolve_right (by rintro ⟨es, h, -⟩; exact hes es h)
        have hbefore : BeforeArrow env.source (arrowParameters false ([e].map Node.asPattern)) :=
          beforeArrow_asPatterns (by simpa using he.proper) fun _ => .inr (List.forall_mem_singleton.mpr hlists)
        exact .pure fun _ hs => hs.toSight.grouped ha hF hbefore
  · refine .flagsVouched (U := e.AllTargets Shape.passesAsTarget) (V := False) (fun _ => id) (fun _ _ => nofun) <|
      .pure fun _ hs => ⟨⟨hF, (hs.ahead.imp (fun _ => id) (fun _ _ => trivial) fun _ => he).reached⟩, fun ha => ?_⟩
    rw [hs.lookahead] at ha
    exact absurd ha.isMark hn

theorem group_grouped (F : Prop) : Leads env (Reached env True True F) (group g) (Grouped env F) := by
  refine .facing fun t => .expects fun hF _ t' => .answers <| .ite (fun hclose => ?_) fun _ => .answers <| .answers <|
    .fork ?_ ?_
  · refine .skips (not_arrow_of_isMark hclose (by decide)) fun _ _ => .expectsArrow fun ha => .pure fun _ hs => ?_
    have hnone : BeforeArrow env.source (arrowParameters false ([].map Node.asPattern)) :=
      beforeArrow_asPatterns .nil fun _ => .inr nofun
    exact hs.toSight.grouped ha hF hnone
  · refine .pattern fun _ rest names _ => .expects fun hrest _ _ => .expectsArrow fun ha => .pure fun _ hs => ?_
    exact hs.toSight.grouped ha hF hrest.beforeArrow
  · refine .losesFlags <| .inherits fun _ first _ _ => .answers <| .fork ?_ ?_
    · refine .bind (.knowing (fun _ => id) (fun _ => And.right) Expr.proper (groupTail_grouped hF)) fun x => ?_
      split
      next es =>
        refine .facing fun t => .shapes fun info => .knowing (fun _ => False.elim) (fun _ h => .inr ⟨es, rfl, h⟩)
          (fun h => ?_) (groupEnd_grouped hF)
        exact .of_children (by simpa using h)
      next e => exact .pure fun _ hs => hs
    · exact .knowing (fun _ => And.right) (fun _ h => .inl h.2) id (groupEnd_grouped hF)

/-! ## Operands -/

theorem literal_graded (ha : ¬ Arrow t) : Faces env T B F t literal (Graded env F) :=
  .keeps fun start => .onlyValue <| .nexts ha fun hF t' => .keeps fun raw => .gradedValue hF nofun

theorem regexLiteral_graded (ha : ¬ Arrow t) : Faces env T B F t regexLiteral (Graded env F) := by
  refine .keeps fun start => .onlyValue <| .rescans ha fun hF r t' => ?_
  split
  · exact .keeps fun raw => .gradedValue hF fun _ => .nil
  · exact .fails

variable [Intolerant env]

theorem wordOperand_graded {word : String} (ha : ¬ Arrow t) :
    Faces env T B F t (wordOperand g word) (Graded env F) := by
  refine .keeps fun start => .keeps fun c => .fork .grade <| .fork ?_ <| .onlyValue ?_
  · exact .nexts ha fun hF t' => .nameGraded hF
  refine .fork .grade <| .fork ?_ <| .fork .grade <| .past <| .fork ?_ <| .nextFails .fails
  · exact .skips ha fun hF t' => .gradedValue hF nofun
  · exact .expectsWord fun hF _ t' => .gradedValue hF nofun

instance : Grades env (plainOperand g) := by
  refine ⟨fun F => .enters fun t => .answers ?_⟩
  split
  next name ht =>
    have ha : ¬ Arrow t := fun ha => nomatch ha.symm.trans ht
    refine .keeps fun c => .when <| .past <| .fork .grade ?_
    exact .skips ha fun hF t' => .nameGraded hF
  next ht => exact .keeps fun c => .when <| literal_graded fun ha => nomatch ha.symm.trans ht
  next ht => exact .keeps fun c => .when <| literal_graded fun ha => nomatch ha.symm.trans ht
  next ht => exact literal_graded fun ha => nomatch ha.symm.trans ht
  next ht => exact literal_graded fun ha => nomatch ha.symm.trans ht
  next => exact .grade
  next =>
    rw [← bind_pure (inherit (group g))]
    refine .flags (V := False) (fun _ => id) (fun _ _ => nofun) <| .inheritsBy group_grouped fun hF e t' hc => .pure
      fun _ hs => hs.graded hF id (fun _ => And.right) (fun _ h => h.1.elim) hc
  next => exact .grade
  next => exact .grade
  next ht => exact regexLiteral_graded (not_arrow_of_punctuator ht)
  next ht => exact regexLiteral_graded (not_arrow_of_punctuator ht)
  next ht => exact wordOperand_graded fun ha => nomatch ha.symm.trans ht
  next => exact .nextFails .fails

instance : Grades env (operand g) := by
  refine ⟨fun F => .enters fun t => .answers <| .ite (fun hl => ?_) fun _ => .grade⟩
  have ha : ¬ Arrow t := not_arrow_of_isMark (Bool.and_eq_true_iff.mp hl).2 (by decide)
  rw [← bind_pure (rootElement g)]
  refine .bind (rootElement_loose ha) fun n s a s' ⟨hF, hn, t', hs⟩ h => ?_
  exact Leads.loose hF (fun _ => hn.expr) hn.isLoose s a s' hs h

/-- What is read after the first word of an asynchronous arrow function with one parameter. -/
theorem operand_settled (ht : (∃ name, t.lexeme = .identifier name) ∨ t.lexeme = .keyword "yield") :
    Faces env T B F t (operand g) fun n s => F ∧ Proper env.source n ∧ Reached env True True True s := by
  have hl : ¬ t.lexeme.isMark "<" = true := by
    rcases ht with ⟨name, ht⟩ | ht <;> rw [ht] <;> nofun
  have hname {p : Parse Node} [Names env p] : Faces env True True F t p fun n s =>
      F ∧ Proper env.source n ∧ Reached env True True True s := by
    rw [← bind_pure p]
    exact .named fun hF n hn t' => .pure fun _ hs => ⟨hF, .of_isName hn, hs.reached⟩
  refine .knowing (fun _ _ => trivial) (fun _ _ => trivial) id <| .keeps fun o => .answers <|
    .ite (fun h => ?_) fun _ => ?_
  · exact absurd (Bool.and_eq_true_iff.mp h).2 hl
  refine .keeps fun start => .answers ?_
  dsimp only [id]
  rcases ht with ⟨name, ht⟩ | ht
  · rw [ht]
    refine .keeps fun c => .when <| .past <| .fork ?_ ?_
    · rw [← bind_pure (functionExpression g)]
      exact .settles fun hF n hn t' => .pure fun _ hs => ⟨hF, hn.proper, hs.reached⟩
    · refine .skips (fun ha => nomatch ha.symm.trans ht) fun hF t' => ?_
      rw [← bind_pure (finish start _)]
      exact .names fun n hn _ => .pure fun _ hs => ⟨hF, .of_isName hn, hs.reached⟩
  · rw [ht]
    dsimp only
    refine .keeps fun start => .keeps fun c => .fork hname ?_
    rw [if_neg (by simp)]
    refine .onlyValue ?_
    rw [if_neg (by decide), if_neg (by decide), if_neg (by decide)]
    refine .past <| .fork (.expectsWord fun _ hw _ => ?_) <| .nextFails .fails
    rw [ht] at hw
    exact absurd hw (by decide)

/-! ## Calls and members -/

/-- The rule returns a list that ends with a token that is taken, and raises no flag. -/
class Encloses (env : Env) (p : Parse (List Node)) : Prop where
  leads : ∀ T B F, Leads env (Reached env T B F) p fun ns s => F ∧ Propers env.source ns ∧ Reached env T B True s

omit [Intolerant env] in
/-- A first step that reads a list. -/
theorem Leads.encloses {p : Parse (List Node)} [Encloses env p] {f : List Node → Parse β} {R : β → State → Prop}
    (hf : F → ∀ ns, Propers env.source ns → ∀ t', Faces env T B True t' (f ns) R) :
    Faces env T B F t (p >>= f) R := by
  refine .bind (.weaken (fun _ => Ahead.reached) (Encloses.leads T B F)) fun ns => ?_
  rintro s b s' ⟨hF, hns, t', hs⟩
  exact hf hF ns hns t' s b s' hs

section

omit [Intolerant env]

variable {start : Mark} {object : Node}

theorem namedMember_graded (hF : F) :
    Faces env T B (Expr env.source object) t (namedMember start object) (Graded env F) := by
  refine .onlyTarget <| .expects fun hobject _ _ => .named fun _ name hname _ => .graded hF (fun _ => ?_)
    (fun _ _ _ => ?_) fun _ => False.elim
  · simp [hobject.proper, Proper.of_isName hname]
  · exact (Node.allTargets_of_plain rfl rfl).mpr rfl

theorem computedMember_graded (hF : F) :
    Faces env T B (Expr env.source object) t (computedMember g start object) (Graded env F) := by
  refine .onlyTarget <| .expects fun hobject _ _ => .inlays fun _ key _ => .expects fun hkey _ _ =>
    .graded hF (fun _ => ?_) (fun _ _ _ => ?_) fun _ => False.elim
  · simpa [hobject.proper] using hkey
  · exact (Node.allTargets_of_plain rfl rfl).mpr rfl

theorem taggedTemplate_graded (hF : F) :
    Faces env T B (Expr env.source object) t (taggedTemplate g start object) (Graded env F) := by
  refine .settles fun hobject quasi hquasi _ => .gradedLoose hF fun _ => ?_
  simp [hobject.proper, hquasi.proper]

end

instance {argument : Parse Node} [Builds env argument] : Encloses env (argumentsBy g argument) := by
  refine ⟨fun T B F => .facing fun t => .expects fun hF _ t' => .answers ?_⟩
  extract_lets rest
  let I (found : List Node) := Reached env T B (Propers env.source found)
  have hrest : ∀ found, Leads env (I found) (rest found) fun ns s =>
      F ∧ Propers env.source ns ∧ Reached env T B True s := fun found =>
    .facing fun t => .expects fun hfound _ t' => .pure fun _ hs =>
      ⟨hF, Propers.reverse_iff.mpr hfound, hs.reached⟩
  refine .fork (.pure_bind (.weaken (fun _ hs => hs.known fun _ => .nil) (hrest []))) <|
    .loops (Q := I) I (fun _ hs => hs.known fun _ => .nil) (fun found => .facing fun t => .answers ?_) hrest
  extract_lets last
  have hlast : Propers env.source found → ∀ {n t} {P : Prop}, (P → Proper env.source n) →
      Faces env T B P t (last n) fun r s => r.Satisfies (I · s) (I · s) := by
    intro hfound n t P hn
    have hadd : P → Propers env.source (n :: found) := fun h => Propers.cons_iff.mpr ⟨hn h, hfound⟩
    refine .answers <| .fork (.pure fun _ hs => hs.known hadd) <| .comma fun h _ _ => .answers ?_
    exact .fork (.pure fun _ hs => hs.known fun _ => hadd h) <| .pure fun _ hs => hs.known fun _ => hadd h
  refine .fork (.spreads fun hfound info e t' => ?_) <| .inlays fun hfound n t' => ?_
  · exact .knowing (fun _ => And.left) (fun _ => And.left) id <| hlast hfound fun he => .plain (by simpa using he)
  · exact hlast hfound fun hn => hn n (.head _)

instance : Encloses env (arguments g) := by
  unfold arguments
  infer_instance

instance : Encloses env (asyncArguments g) := by
  have : Builds env (do
      let n ← g.assignment
      setContext fun c => { c with coverError := none }
      return n) := ⟨fun F => .facing fun t => .parts fun hF n t' => .keepsFlags <| .built hF id⟩
  unfold asyncArguments
  infer_instance

instance : Grades env (newExpression g) := by
  refine ⟨fun F => .enters fun t => .named fun hF word hword t' => .fork ?_ .fails_bind⟩
  refine .answers <| .ite (fun hdot => ?_) fun _ => .answers <| .fork .fails ?_
  · refine .skips (not_arrow_of_isMark hdot (by decide)) fun _ _ => .answers <| .past <| .fork ?_ .fails
    refine .named fun _ name hname t' => .gradedLoose hF fun _ => ?_
    simp [Proper.of_isName hword, Proper.of_isName hname]
  · refine .inlays fun _ callee t' => .answers <| .fork ?_ <| .pure_bind ?_
    · refine .encloses fun hcallee args hargs _ => .onlyValue <| .gradedValue hF fun _ => ?_
      simpa [hargs] using hcallee
    · refine .onlyValue <| .gradedValue hF fun hcallee => ?_
      simpa using hcallee

instance : Grades env (newOrOperand g) :=
  ⟨fun _ => .facing fun _ => .answers .grade⟩

theorem callTail_graded {start : Token} {maybeAsync : Bool} {callee : Node} (hF : F) :
    Faces env T B (Expr env.source callee) t (callTail g start maybeAsync callee) (Graded env F) := by
  refine .answers <| .onlyValue ?_
  extract_lets rest
  have hrest : Expr env.source callee → ∀ args, Propers env.source args → ∀ t,
      Faces env False False True t (rest args) (Graded env F) := by
    intro hcallee args hargs t
    dsimp -zeta only [rest]
    extract_lets made
    have hmade : Faces env False False True t (made ()) (Graded env F) := by
      refine .shapes fun info => .answers <| .ite (fun ha => .pure fun _ hs => ?_) fun _ => .value hF fun _ => ?_
      · -- what was read for the arguments is the parameters of an asynchronous arrow function
        have ha : Arrow t := eq_of_isMark (Bool.and_eq_true_iff.mp ha).2
        exact ⟨⟨hF, (hs.toSight.beforeArrow ha).reached⟩, fun _ => beforeArrow_asPatterns hargs nofun⟩
      · exact .of_children (by simpa [hcallee.proper] using hargs)
    split
    · exact .when hmade
    · exact hmade
  exact .fork (.encloses hrest) <| .encloses hrest

/-- An expression to which one of the marks may add. If one does, the flags do not matter. -/
def Extends (env : Env) (ms : List String) (e : Node) (s : State) : Prop :=
  ∃ t, Ahead env (ms.any t.lexeme.isMark = true ∨ e.AllTargets Shape.passesAsTarget)
    (ms.any t.lexeme.isMark = true ∨ e.AllTargets Shape.passesAsName) (Expr env.source e) t s ∧
      (Arrow t → BeforeArrow env.source e)

omit [Intolerant env] in
theorem Graded.extends {ms : List String} {s : State} (h : Graded env F e s) : Extends env ms e s := by
  obtain ⟨⟨-, t, hs⟩, hc⟩ := h
  exact ⟨t, hs.imp (fun _ => .inr) (fun _ => .inr) id, hs.lookahead ▸ hc⟩

section

omit [Intolerant env]

variable {ms : List String} {pending : List Pending}

theorem Leads.extending {α : Type} {p : Parse α} {Q : α → State → Prop} (h : ∀ t, (Arrow t → BeforeArrow env.source e) →
      Faces env (ms.any t.lexeme.isMark = true ∨ e.AllTargets Shape.passesAsTarget)
        (ms.any t.lexeme.isMark = true ∨ e.AllTargets Shape.passesAsName) (Expr env.source e) t p Q) :
    Leads env (Extends env ms e) p Q := by
  rintro s a s' ⟨t, hs, hc⟩
  exact h t hc s a s' hs

/-- If none of the marks is ahead the flags tell of the expression. -/
theorem Extends.graded (hF : F) (hm : ms.any t.lexeme.isMark = false)
    (hs : Ahead env (ms.any t.lexeme.isMark = true ∨ e.AllTargets Shape.passesAsTarget)
      (ms.any t.lexeme.isMark = true ∨ e.AllTargets Shape.passesAsName) (Expr env.source e) t s)
    (hc : Arrow t → BeforeArrow env.source e) : Graded env F e s := by
  have hm : ¬ ms.any t.lexeme.isMark = true := Bool.eq_false_iff.mp hm
  exact hs.graded hF id (fun _ h => h.resolve_left hm) (fun _ h => h.resolve_left hm) hc

end

theorem callBase_extends : Faces env T B F t (callBase g) fun e s => Extends env ["(", ".", "["] e s ∧ F := by
  refine .answers <| .keeps fun c => .ite (fun hs => ?_) fun _ => ?_
  · have ha : ¬ Arrow t := not_arrow_of_isWord (Bool.and_eq_true_iff.mp hs).1
    refine .keeps fun start => .skips ha fun hF t' => .shapes fun info => .answers <|
      .ite (fun hm => ?_) fun _ => .fails_bind
    refine .pure fun _ hs => ⟨⟨t', hs.imp (fun _ _ => .inl hm) (fun _ _ => .inl hm) fun _ => ?_, fun _ => ?_⟩, hF⟩
    · exact .of_children nofun
    · exact .of_not_placeholder rfl
  · rw [← bind_pure (newOrOperand g)]
    refine .grades fun hF e t' hc => .pure fun _ hs => ⟨⟨t', ?_, hc⟩, hF⟩
    exact hs.imp (fun _ => .inr) (fun _ => .inr) id

instance : Grades env (call g) := by
  refine ⟨fun F => .facing fun t => .answers <| .answers <| .keeps fun before => .keepsFlags ?_⟩
  refine .bind callBase_extends fun base => .fact fun hF => ?_
  refine .loops (Q := Graded env F) (Extends env ["(", ".", "["]) (fun _ hs => hs) (fun e => ?_) fun e => ?_
  · refine .extending fun t hc => ?_
    refine .answers <| .ite (fun _ => ?_) fun hdot => .answers <| .ite (fun _ => ?_) fun hcall => .answers <|
      .ite (fun _ => ?_) fun hkey => .past <| .fork ?_ <| .pure fun _ hs => ?_
    · exact .bind (namedMember_graded hF) fun e => .pure fun _ hs => hs.extends
    · exact .bind (callTail_graded hF) fun e => .pure fun _ hs => hs.extends
    · exact .bind (computedMember_graded hF) fun e => .pure fun _ hs => hs.extends
    · exact .bind (taggedTemplate_graded hF) fun e => .pure fun _ hs => hs.extends
    · exact Extends.graded hF (by simp [hdot, hcall, hkey]) hs hc
  · refine .afterGraded fun _ t hc => .keepsFlags <| .pure fun _ hs => ?_
    exact hs.graded hF id (fun _ => id) (fun _ => id) hc

instance : Grades env (callee g) := by
  refine ⟨fun F => .facing fun t => .keeps fun c => .fork (.answers <| .answers <| .keeps fun c => ?_) .fails_bind⟩
  extract_lets rest
  have hrest : ∀ base, Leads env (fun s => Extends env ["[", "."] base s ∧ F) (rest base) (Graded env F) := by
    refine fun base => .fact fun hF => .loop (Extends env ["[", "."]) (fun _ hs => hs) fun e =>
      .extending fun t hc => ?_
    refine .answers <| .ite (fun _ => ?_) fun hkey => .answers <| .ite (fun _ => ?_) fun hdot =>
      .past <| .fork ?_ <| .pure fun _ hs => ?_
    · exact .bind (computedMember_graded hF) fun e => .pure fun _ hs => hs.extends
    · exact .bind (namedMember_graded hF) fun e => .pure fun _ hs => hs.extends
    · exact .bind (taggedTemplate_graded hF) fun e => .pure fun _ hs => hs.extends
    · exact Extends.graded hF (by simp [hdot, hkey]) hs hc
  refine .fork ?_ <| .grades fun hF e t' hc => .weaken (fun _ hs => ⟨⟨t', ?_, hc⟩, hF⟩) (hrest e)
  · refine .keeps fun start => .expectsWord fun hF _ t' => .answers <| .ite (fun hm => ?_) fun _ => .fails_bind
    refine .shapes fun info => .weaken (fun _ hs => ⟨⟨t', ?_, fun _ => .of_not_placeholder rfl⟩, hF⟩) (hrest _)
    exact hs.imp (fun _ _ => .inl hm) (fun _ _ => .inl hm) fun _ => .of_children nofun
  · exact hs.imp (fun _ => .inr) (fun _ => .inr) id

/-! ## Operators -/

instance : Grades env (update g) := by
  refine ⟨fun F => .facing fun t => .answers <| .answers <| .ite (fun hm => ?_) fun _ => ?_⟩
  · refine .nexts (not_arrow_of_any hm) fun hF _ => .inherits fun _ e t' _ => .past <| .when ?_
    refine .readsFlags fun c hT _ => .ite (fun _ => .fails_bind) fun ht => ?_
    refine .also (fun ha => (hT ha (by simpa using ht)).2) ?_
    refine .shapes fun info => .onlyValue <| .value hF fun ⟨he, htarget⟩ => ?_
    exact .of_children (by simpa using he.proper) ⟨htarget, he.isPart⟩
  · refine .inherits fun hF e t' hc => .keeps fun s => .answers <| .ite (fun hm => ?_) fun _ => .pure fun _ hs => ?_
    · have ha := not_arrow_of_any (Bool.and_eq_true_iff.mp hm).2
      refine .past <| .when <| .readsFlags fun c hT _ => .ite (fun _ => .fails_bind) fun ht => .onlyValue <|
        .nexts ha fun he _ => .gradedValue hF (fun _ => ?_) fun _ => ?_
      · simpa using he.proper
      · exact ⟨(hT ha (by simpa using ht)).2, he.isPart⟩
    · exact hs.graded hF id (fun _ => And.right) (fun _ => And.right) hc

instance : Grades env (unary g) := by
  refine ⟨fun F => .facing fun t => .answers <| .answers <| .ite (fun hm => ?_) fun _ => .keeps fun c => .answers <|
    .ite (fun hw => ?_) fun _ => .grade⟩
  · have ha : ¬ Arrow t := (Bool.or_eq_true_iff.mp hm).elim (not_arrow_of_any ·) not_arrow_of_anyWord
    refine .answers <| .nexts ha fun hF _ => .inherits fun _ argument _ _ => .shapes fun info =>
      .past <| .when <| .onlyValue <| .value hF fun he => .of_children ?_
    simpa using he.proper
  · refine .keeps fun start => .skips (not_arrow_of_isName (Bool.and_eq_true_iff.mp hw).2) fun hF _ =>
      .parts fun _ argument _ => .gradedLoose hF fun h => ?_
    simpa using h

instance : Grades env (power g) where
  leads F := by
    refine .facing fun t => .answers <| .inherits fun hF left t' hc => .answers <| .ite (fun hm => ?_) fun _ => ?_
    · refine .skips (not_arrow_of_isMark (Bool.and_eq_true_iff.mp hm).2 (by decide)) fun hleft _ => .onlyValue <|
        .inlays fun _ right _ => .gradedValue hF fun hright => ?_
      simpa [hleft.proper] using hright
    · exact .pure fun _ hs => hs.graded hF id (fun _ => And.right) (fun _ => And.right) hc

/-- Two operands are joined. -/
theorem propers_joined {token : Token} {info : Node.Info} {right : Operand} {p : Pending}
    (h : Propers src (pendingNodes right (p :: pending))) :
    Propers src (pendingNodes ⟨token, info, .binaryExpression p.operator p.left.node right.node⟩ pending) := by
  simp only [pendingNodes, List.map_cons, Propers.cons_iff] at h ⊢
  obtain ⟨hright, hleft, hrest⟩ := h
  exact ⟨.plain (by simp [hleft, hright]), hrest⟩

omit [Intolerant env] in
theorem reduce_proper {least : Nat} (right : Operand) :
    Faces env T B (Propers env.source (pendingNodes right pending)) t (reduce least right pending)
      fun x => Ahead env T B (Propers env.source (pendingNodes x.1 x.2)) t := by
  induction pending generalizing right with
  | nil => exact .pure fun _ hs => hs
  | cons p rest ih =>
    refine .fork (.shapes fun info => ?_) <| .pure fun _ hs => hs
    exact .knowing (fun _ => id) (fun _ => id) propers_joined (ih _)

omit [Intolerant env] in
theorem reduceAll_graded (right : Operand) (hF : F)
    (hright : pending = [] → right.node.shape.isPart = false ∧ right.node.shape.isPlaceholder = false) :
    Faces env False False (Propers env.source (pendingNodes right pending)) t (reduceAll right pending)
      (Graded env F) := by
  induction pending generalizing right with
  | nil =>
    obtain ⟨hpart, hplaceholder⟩ := hright rfl
    exact .value hF (fun h => ⟨h _ (.head _), hpart⟩) hplaceholder
  | cons p rest ih =>
    exact .shapes fun info => .knowing (fun _ => id) (fun _ => id) propers_joined (ih _ fun _ => ⟨rfl, rfl⟩)

theorem not_arrow_of_precedence {allowIn : Bool} (h : ¬ (precedence allowIn t.lexeme == 0) = true) : ¬ Arrow t := by
  intro ha
  rw [ha] at h
  exact h rfl

instance : Grades env (binary g) := by
  refine ⟨fun F => .facing fun t => .answers <| .inherits fun hF first t' hc => .keeps fun c => .answers ?_⟩
  refine .ite (fun _ => ?_) fun hp => ?_
  · exact .pure fun _ hs => hs.graded hF id (fun _ => And.right) (fun _ => And.right) hc
  refine .nexts (not_arrow_of_precedence hp) fun hfirst _ => .onlyValue <| .answers <| .inlays fun _ second _ => ?_
  let I (x : Operand × List Pending) (s : State) :=
    Reached env False False (Propers env.source (pendingNodes x.1 x.2)) s ∧ x.2 ≠ []
  refine .loop I (fun _ hs => ⟨hs.known fun h => ?_, nofun⟩) fun (right, pending) => .fact fun hne =>
    .enters fun t => .answers <| .ite (fun _ => ?_) fun hp => ?_
  · simpa [pendingNodes, hfirst.proper] using h
  · exact .bind (reduceAll_graded right hF fun h => absurd h hne) fun n => .pure fun _ hs => hs
  · refine .bind (reduce_proper right) fun (left, pending) => .nexts (not_arrow_of_precedence hp) fun hall _ => ?_
    refine .answers <| .inlays fun _ n _ => .pure fun _ hs => ⟨hs.known fun hn => ?_, nofun⟩
    simp only [pendingNodes, List.map_cons, Propers.cons_iff] at hall ⊢
    exact ⟨hn n (.head _), hall⟩

instance : Grades env (conditional g) := by
  refine ⟨fun F => .facing fun t => .answers <| .inherits fun hF test t' hc => .answers <| .ite (fun hm => ?_) fun _ =>
    .pure fun _ hs => hs.graded hF id (fun _ => And.right) (fun _ => And.right) hc⟩
  refine .skips (not_arrow_of_isMark hm (by decide)) fun htest _ => .keeps fun before => .keepsFlags ?_
  refine .inlays fun _ consequent _ => .keepsFlags <| .expects fun hconsequent _ _ => .inlays fun _ alternate _ => ?_
  refine .shapes fun info => .onlyValue <| .value hF fun halternate => .of_children ?_
  have hconsequent := hconsequent consequent (.head _)
  have halternate := halternate alternate (.head _)
  simp [htest.proper, hconsequent, halternate]

end ScriptTree.Parse
