import ScriptTree.Proofs.Parse.Context.Statement
import ScriptTree.Proofs.Parse.Nest.Statement
import ScriptTree.Proofs.Parse.Scope.Object

/-! # Statements in their scope

Declarations of variables and other statements without statements inside are like expressions. Loops,
switches and labels change the context for the statements inside them in the way that the tree shows, and a
jump is rejected unless the context allows it. -/

namespace ScriptTree.Parse

open Parts

variable {α : Type} {env : Env} [Exact env] {g : Grammar} [Scoping env g] {strict : Bool} {c : Context}

namespace Expresses

instance (kind : DeclarationKind) (inFor : Bool) : Expresses env (lexicalBinding g kind inFor) := .routine

instance (p : Parse Node) [Expresses env p] : Expresses env (separated p) := .routine

instance : Expresses env (lexicalDeclaration g) := .routine

instance (inFor : Bool) : Expresses env (variableBinding g inFor) := .routine

instance : Expresses env (variableStatement g) := .routine

instance : Expresses env emptyStatement := .routine

instance : Expresses env (expressionStatement g) := .routine

instance : Expresses env (throwStatement g) := .routine

instance : Expresses env debuggerStatement := .routine

instance [Held α] (p : Parse α) [Expresses env p] : Expresses env (withoutIn p) := .routine

instance (init : Option Node) : Continues env init.toList (loopSteps g init) := .routine

instance (left : Node) : Continues env [left] (loopIn g left) := .routine

omit [Exact env] in
instance (left : Node) : Continues env [left] (loopOf g left) := .routine

instance : Expresses env (loopVar g) := .routine

instance (kind : DeclarationKind) : Expresses env (loopLexical g kind) := .routine

instance : Expresses env (loopExpression g) := .routine

instance : Expresses env (loopHead g) := .routine

end Expresses

/-- Where nothing is tolerated, a body is there. -/
theorem Leads.body {missing body : Parse α} {Q : α → State → Prop} (h : Leads env (Under c) body Q) :
    Leads env (Under c) (withBody missing body) Q := by
  refine .past <| .past <| .fork (.past .fails_bind) ?_
  exact .past h

namespace States

instance : States env (block g) := by
  refine ⟨fun c => .past <| .past <| .statements fun items hitems => .past <| .closes fun info _ h => ⟨h, ?_⟩⟩
  exact List.forall_mem_singleton.mpr ⟨⟨.block fun n hn => (hitems n hn).sound, rfl⟩, rfl⟩

instance : States env (branch g) := by
  refine ⟨fun c => .past <| .past <| .pastIf ?_⟩
  exact States.leads c

instance : States env (ifStatement g) := by
  refine ⟨fun c => .past <| .past <| .past <| .expression fun test htest => ?_⟩
  refine .bind (Q := fun x s => Under c s ∧ Stated c x.1 ∧ ∀ n ∈ x.2, Stated c n) (.body ?_)
    fun (consequent, alternate) => .fact fun ⟨hconsequent, halternate⟩ => .statesPlain ?_
  · refine .statement fun consequent hconsequent => .past <| .fork (.keeps fun _ => ?_) ?_
    · refine .statement fun alternate halternate => .pure fun _ h => ⟨h, hconsequent, ?_⟩
      simpa using halternate
    · exact .pure fun _ h => ⟨h, hconsequent, nofun⟩
  · simpa using ⟨htest.free.seated rfl, hconsequent.seated, fun n hn => (halternate n hn).seated⟩

instance : States env (withStatement g) := by
  refine ⟨fun c => .past <| .pastIf <| .past <| .past <| .past <| .expression fun object hobject => ?_⟩
  refine .bind (.body (States.leads c)) fun body => .fact fun hbody => .statesPlain ?_
  simp at hbody ⊢
  exact ⟨hobject.free.seated rfl, hbody.seated⟩

instance : States env (catchClause g) := by
  refine ⟨fun c => .past <| .past <| .past <| .past <| .pastIf <| .fineParts fun (param, names) h => ?_⟩
  refine .past <| .past <| .pastIf <| .past <| .statement fun body hbody => .statesPlain ?_
  simp at h ⊢
  exact ⟨h.free.seated rfl, hbody.seated⟩

instance : States env (tryStatement g) := by
  refine ⟨fun c => .past <| .past <| .statement fun body hbody => .keeps fun _ => ?_⟩
  extract_lets rest
  have hrest (handler : Option Node) : (∀ n ∈ handler, Stated c n) →
      Leads env (Under c) (rest handler) fun n s => Under c s ∧ ∀ n' ∈ Held.nodes n, Stated c n' := by
    intro hhandler
    refine .keeps fun _ => ?_
    extract_lets last
    have hlast (finalizer : Option Node) : (∀ n ∈ finalizer, Stated c n) →
        Leads env (Under c) (last finalizer) fun n s => Under c s ∧ ∀ n' ∈ Held.nodes n, Stated c n' := by
      intro hfinalizer
      refine .when <| .statesPlain ?_
      simp
      exact ⟨hbody.seated, fun n hn => hn.elim (fun h => (hhandler n h).seated) fun h => (hfinalizer n h).seated⟩
    refine .fork (.past <| .statedParts fun finalizer h => ?_) <| .pure_bind (hlast none nofun)
    exact hlast finalizer (by simpa using h)
  refine .fork (.statedParts fun handler h => ?_) <| .pure_bind (hrest none nofun)
  exact hrest handler (by simpa using h)

end States

omit [Exact env] in
theorem loopBody_sound {body : Parse Node} [States env body] :
    Leads env (Under c) (loopBody body) fun n s => Under c s ∧ Seated { c.scope with inLoop := true } n := by
  refine .look fun before hb => .turns { c with inIteration := true } (fun _ h => { h with inIteration := rfl }) ?_
  refine .statement fun n hn => .turns c (fun _ h => { h with inIteration := hb.inIteration }) ?_
  exact .pure fun _ h => ⟨h, hn.seated⟩

namespace States

instance : States env (doWhileStatement g) := by
  refine ⟨fun c => .past <| .past <| .bind loopBody_sound fun body => .fact fun hbody => ?_⟩
  refine .past <| .past <| .expression fun test htest => .past <| .states trivial ?_
  simpa [Shape.enclosed] using ⟨hbody, htest.free.seated rfl⟩

instance : States env (whileStatement g) := by
  refine ⟨fun c => .past <| .past <| .past <| .expression fun test htest => ?_⟩
  refine .bind (.body loopBody_sound) fun body => .fact fun hbody => .states trivial ?_
  simpa [Shape.enclosed] using ⟨htest.free.seated rfl, hbody⟩

instance : States env (forStatement g) := by
  refine ⟨fun c => .past <| .past <| .past <| .fineParts fun head hhead => ?_⟩
  refine .bind (.body loopBody_sound) fun body => .fact fun hbody => ?_
  have hhead : ∀ x ∈ (Held.nodes head).map (c.scope, ·), Seated x.1 x.2 := by
    intro x hx
    obtain ⟨n, hn, rfl⟩ := List.mem_map.mp hx
    exact (hhead n hn).free.seated rfl
  rcases head with ⟨init, test, update⟩ | ⟨_ | _, left, right⟩
  · exact .states trivial (List.forall_mem_append.mpr ⟨hhead, List.forall_mem_singleton.mpr hbody⟩)
  · exact .states trivial (List.forall_mem_append.mpr ⟨hhead, List.forall_mem_singleton.mpr hbody⟩)
  · exact .states trivial (List.forall_mem_append.mpr ⟨hhead, List.forall_mem_singleton.mpr hbody⟩)

end States

/-- A label that a jump names is one of a statement around it. -/
theorem jumpLabel_known : Leads env (Under c) jumpLabel
    fun label s => Under c s ∧ ∀ l ∈ label, Fine c.strict l ∧ ∃ name ∈ c.labels, l.name? = some name := by
  refine .past <| .past <| .fork ?_ <| .pure fun _ h => ⟨h, nofun⟩
  refine .bind (Q := fun id s => Under c s ∧ Fine c.strict id ∧ ∃ name, id.name? = some name) (fun s id s' hs h => ?_)
    fun id => .fact fun ⟨hid, name, hname⟩ => .look fun d hd => ?_
  · obtain ⟨hcode, info, hn⟩ := bindingName_names s id s' ⟨⟨hs.strict, .nil⟩, rfl⟩ h
    refine ⟨Kept.trans hs (Restores.since h).toKept, hcode.2 id (List.mem_singleton_self id),
      nameText s.lookahead.lexeme, ?_⟩
    rw [hn]
    rfl
  · refine .ite (fun hknown => .pure fun _ h => ⟨h, ?_⟩) fun _ => .fails_bind
    rintro _ ⟨⟩
    rw [hname, hd.labels] at hknown
    exact ⟨hid, name, List.contains_iff_mem.mp hknown, hname⟩

/-- A jump has no more in it than a label. -/
theorem enclosed_label {sc : Scope} {label : Option Node} (h : ∀ l ∈ label, Seated sc l) :
    ∀ x ∈ (Shape.breakStatement label).enclosed sc, Seated x.1 x.2 := by
  intro x hx
  obtain ⟨l, hl, rfl⟩ := List.mem_map.mp hx
  exact h l (by simpa using hl)

namespace States

instance : States env continueStatement := by
  refine ⟨fun c => .past <| .past <| .bind jumpLabel_known fun label => .fact fun hlabel => .keeps fun _ => ?_⟩
  refine .look fun d hd => .ite (fun _ => .fails_bind) fun hin => .states ?_ ?_
  · cases label with
    | some l => exact (hlabel l rfl).2
    | none =>
      have hin : d.inIteration = true := by simpa using hin
      exact hd.inIteration.symm.trans hin
  · exact enclosed_label fun l hl => (hlabel l hl).1.free.seated rfl

instance : States env breakStatement := by
  refine ⟨fun c => .past <| .past <| .bind jumpLabel_known fun label => .fact fun hlabel => .keeps fun _ => ?_⟩
  refine .look fun d hd => .ite (fun _ => .fails_bind) fun hin => .states ?_ ?_
  · cases label with
    | some l => exact (hlabel l rfl).2
    | none =>
      have hin : d.inIteration = false → d.inSwitch = true := by simpa using hin
      cases hloop : d.inIteration with
      | true => exact .inl (hd.inIteration.symm.trans hloop)
      | false => exact .inr (hd.inSwitch.symm.trans (hin hloop))
  · exact enclosed_label fun l hl => (hlabel l hl).1.free.seated rfl

instance : States env (returnStatement g) := by
  refine ⟨fun c => .look fun d hd => .ite (fun _ => .fails_bind) fun hin => ?_⟩
  have hin : c.inFunction = true := by
    rw [← hd.inFunction]
    simpa using hin
  have hreturn (argument : Option Node) : Fines c.strict (Held.nodes argument) →
      ∀ x ∈ (Shape.returnStatement argument).enclosed c.scope, Seated x.1 x.2 := by
    intro hargument x hx
    obtain ⟨n, hn, rfl⟩ := List.mem_map.mp hx
    exact (hargument n (by simpa using hn)).free.seated rfl
  refine .past <| .past <| .past <| .past <| .past <| .past <| .keeps fun _ => ?_
  refine .fork (.fineParts fun argument hargument => .keeps fun _ => ?_) <| .pure_bind <| .keeps fun _ => ?_
  · exact .states hin (hreturn argument hargument)
  · exact .states hin (hreturn none .nil)

end States

/-- A case is sound in the switch around it, and also where there is none, as it is the case that lets
jumps out. -/
theorem switchCase_sound (hc : c.inSwitch = true) : Leads env (Under c) (switchCase g)
    fun x s => Under c s ∧ ∀ inSwitch, Seated { c.scope with inSwitch } x.1 := by
  refine .past <| .keeps fun _ => ?_
  extract_lets rest
  have hrest (test : Option Node) : Fines c.strict (Held.nodes test) → Leads env (Under c) (rest test)
      fun x s => Under c s ∧ ∀ inSwitch, Seated { c.scope with inSwitch } x.1 := by
    intro htest
    refine .past <| .statements fun consequent hconsequent => .bind (.closes fun info s h => ⟨h, fun inSwitch =>
      ⟨.node trivial trivial ⟨nofun, nofun⟩ (List.forall_mem_append.mpr ⟨?_, ?_⟩), rfl⟩⟩) fun n => .fact fun hn =>
        .pure fun _ h => ⟨h, hn⟩
    · intro x hx
      obtain ⟨n, hn, rfl⟩ := List.mem_map.mp hx
      exact (htest n hn).free _ rfl
    · intro x hx
      obtain ⟨n, hn, rfl⟩ := List.mem_map.mp hx
      have hsound := (hconsequent n hn).sound
      rw [Context.scope, hc] at hsound
      exact hsound
  refine .fork (.past <| .pure_bind (hrest none .nil)) <| .keeps fun _ => ?_
  exact .fineParts hrest

namespace States

instance : States env (switchStatement g) := by
  refine ⟨fun c => .past <| .past <| .past <| .expression fun discriminant hdiscriminant => .keeps fun _ => ?_⟩
  refine .look fun before hb => .turns { c with inSwitch := true } (fun _ h => { h with inSwitch := rfl }) ?_
  refine .keeps fun _ => ?_
  let I (found : List Node) (s : State) := Under { c with inSwitch := true } s ∧ ∀ n ∈ found, Seated c.scope n
  refine .loops (Q := I) (fun x => I x.1) (fun _ h => ⟨h, nofun⟩) (fun (found, hasDefault) =>
    .fact fun hfound => ?_)
    fun found => .fact fun hfound => ?_
  · refine .past <| .fork (.pure fun _ h => ⟨h, hfound⟩) ?_
    refine .bind (switchCase_sound rfl) fun (n, isDefault) => .fact fun hn => .when <| .pure fun _ h => ⟨h, ?_⟩
    exact List.forall_mem_cons.mpr ⟨hn c.inSwitch, hfound⟩
  · refine .past <| .turns c (fun _ h => { h with inSwitch := hb.inSwitch }) <| .statesPlain ?_
    simpa using ⟨hdiscriminant.free.seated rfl, hfound⟩

instance : States env (labelledBody g) := by
  refine ⟨fun c => .past <| .fork (.past .fails_bind) <| .past <| .fork ?_ <| States.leads c⟩
  refine .past <| .statedParts fun n hn => .past <| .fork .fails_bind <| .when ?_
  exact .pure fun _ h => ⟨h, hn⟩

instance : States env (labelledStatement g) := by
  refine ⟨fun c => .keeps fun start => .expression fun e he => ?_⟩
  have hplain : Leads env (Under c) (do
      semicolon
      finish start (.expressionStatement e)) fun n s => Under c s ∧ ∀ n' ∈ Held.nodes n, Stated c n' := by
    refine .past <| .statesPlain ?_
    simpa using he.free.seated rfl
  split
  next name hname =>
    refine .past <| .fork (.past <| .look fun d hd => .ite (fun _ => .fails_bind) fun hnew => ?_) hplain
    have hname : e.name? = some name := by
      unfold Node.name?
      rw [hname]
    have hnew : name ∉ c.labels := by
      rw [← hd.labels]
      simpa using hnew
    refine .turns { c with labels := name :: c.labels } (fun _ h =>
      { h with labels := congrArg (name :: ·) h.labels }) ?_
    refine .statement fun body hbody => .turns c (fun _ h => ?_) (.states ⟨name, hname, hnew⟩ ?_)
    · refine { h with labels := ?_ }
      rw [h.labels]
      exact List.erase_cons_head ..
    · simp [Shape.enclosed, hname]
      exact ⟨he.free.seated rfl, hbody.seated⟩
  next => exact hplain

instance (word : String) : States env (wordStatement g word) := by
  unfold wordStatement
  split <;> infer_instance

instance : States env (statement g) := by
  refine ⟨fun c => .keeps fun _ => ?_⟩
  split
  all_goals first
    | exact States.leads c
    | exact .fails
    | exact .past <| .fork (States.leads c) <| States.leads c

end States

end ScriptTree.Parse
