import ScriptTree.Proofs.Parse.Context.Basic

/-! # Names, patterns and functions restore the context

One instance of `Restores` for each rule, over a grammar whose members restore the context (`Restoring`).
What a rule overwrites for a part of what it reads is remembered before (`Leads.before`) and set again
after (`Leads.sets`). Only the body of a function may make the rest strict, until the function ends. -/

namespace ScriptTree.Parse

variable {c : Context} {r : Residue} {β : Type}

/-- The members of the grammar restore the context. -/
class Restoring (env : Env) (g : Grammar) : Prop where
  restoresAssignment : Restores env g.assignment
  restoresUnary : Restores env g.unary
  restoresPower : Restores env g.power
  restoresCall : Restores env g.call
  restoresCallee : Restores env g.callee
  restoresPattern : ∀ kind, Restores env (g.pattern kind)
  restoresStatement : Restores env g.statement
  restoresItem : Restores env g.item
  restoresElement : Restores env g.element

attribute [instance] Restoring.restoresAssignment Restoring.restoresUnary Restoring.restoresPower
  Restoring.restoresCall Restoring.restoresCallee Restoring.restoresPattern Restoring.restoresStatement
  Restoring.restoresItem Restoring.restoresElement

open Parts

attribute [local simp] Shape.functionParts Shape.classParts

variable {α : Type} {env : Env} {g : Grammar} [Restoring env g]

namespace Restores

variable [Leaves α] {p : Parse α}

instance [Restores env p] : Restores env (isolate p) := .routine

instance [Restores env p] : Restores env (inherit p) := .routine

end Restores

/-- A rule that changes nothing and whose result leaves nothing behind. -/
class Plain [Leaves α] (env : Env) (p : Parse α) : Prop where
  leads : ∀ c, Leads env (After c ∅) p fun a s => After c ∅ s ∧ residue a = ∅

theorem Plain.routine [Leaves α] {p : Parse α}
    (h : ∀ c, Leads env (After c ∅) p (fun a s => After c ∅ s ∧ residue a = ∅) := by exact fun _ => .restoring) :
    Plain env p := ⟨h⟩

instance [Leaves α] (p : Parse α) [Plain env p] : Restores env p := by
  refine .of_leads fun c s a s' hs h => ?_
  obtain ⟨hs', ha⟩ := Plain.leads c s a s' hs h
  rwa [Leaving, ha]

/-- A first step that reads a plain node. -/
theorem Leads.plain {p : Parse Node} [Plain env p] {f : Node → Parse β}
    {R : β → State → Prop} (hf : ∀ n : Node, n.residue = ∅ → Leads env (After c r) (f n) R) :
    Leads env (After c r) (p >>= f) R := by
  intro s b s' hs h
  obtain ⟨n, u, h₁, h₂⟩ := h.bind
  obtain ⟨hu, hn⟩ := Plain.leads s.context s n u (.refl _) h₁
  have hboth : Since c (r ∪ ∅) u.context := Since.trans hs hu
  rw [Residue.union_empty] at hboth
  exact hf n hn u b s' hboth h₂

/-- A node that leaves nothing behind. -/
theorem Leads.endsPlain {m : Mark} {shape : Shape Node} (hs : (Node.bare shape).residue = ∅ := by rfl) :
    Leads env (After c r) (Parse.finish m shape) fun n s => After c r s ∧ residue n = ∅ := by
  intro s n s' hs' h
  exact ⟨Since.same hs' (Neutral.same h), (congrArg Node.Summary.own (finish_summary h)).trans hs⟩

instance : Plain env anyName := .routine

instance (kind : Option DeclarationKind) : Plain env (bindingName kind) := .routine

namespace Restores

instance : Restores env (propertyKey g) := .routine

instance : Restores env (expression g) := .routine

end Restores

section

variable (kind : Option DeclarationKind)

namespace Restores

instance : Restores env (patternWithDefault g kind) := by
  refine .after fun c => .leaves fun (left, names) => .keeps fun _ => ?_
  refine .fork (.keeps fun _ => ?_) <| .shown rfl
  -- whatever the initial value does to the permission for yields is undone after it
  refine .before fun before hb => .resets { c with allowYield := true } ∅ (fun _ h => ?_) ?_
  · exact { h with allowYield := .refl _ }
  refine .leaves fun right => .resets c (residue left) (fun _ h => ?_) ?_
  · simp at hb
    exact { h with allowYield := hb.allowYield }
  · exact .endsPairAs Node.residue_binding.symm

instance : Restores env (bindingRest g kind) := .routine

instance : Restores env (arrayPattern g kind) := .routine

instance : Restores env (propertyPattern g kind) := by
  refine .after fun _ => .keeps fun _ => ?_
  split
  · refine .plain fun key hkey => .makes fun init hinit => .keeps fun _ => ?_
    have hnone : init.summary.initial = ∅ := congrArg Node.Summary.initial hinit
    replace hinit : init.residue = ∅ := congrArg Node.Summary.own hinit
    refine .fork (.keeps fun _ => ?_) <| .past <| .fork ?_ ?_
    · -- the initial value is read as part of an expression would be, and nothing is given back after it
      refine .leaves fun right => .makes fun value hvalue => .endsPairAs ?_
      have hr : value.residue = init.residue := (congrArg Node.Summary.own hvalue).trans Node.residue_binding
      have hi : value.summary.initial = right.residue := congrArg Node.Summary.initial hvalue
      simp [hkey, hr, hinit, hi]
    · refine .endsPairAs ?_
      simp [hkey, hinit, hnone]
    · refine .past <| .leaves fun (value, _) => .endsPairAs ?_
      simp [hkey]
  · refine .past <| .leaves fun key => .past <| .leaves fun (value, _) => .endsPairAs ?_
    simp

instance : Restores env (restProperty g) := .routine

instance : Restores env (objectPattern g kind) := .routine

instance : Restores env (pattern g kind) := .routine

end Restores

end

/-! ## Parameters -/

instance : Leaves Parameters := ⟨fun p => residue p.params⟩

namespace Restores

instance : Restores env (restParameter g) := .routine

theorem residue_push (p : Parameters) (n : Node) {q : Parameters} (hq : q.params = p.params) :
    residue (q.push n) = residue p ∪ n.residue := by
  show residue (q.params ++ [n]) = residue p.params ∪ n.residue
  rw [hq]
  simp

instance (p : Parameters) : Carries env (residue p) (parameter g p) := by
  refine ⟨fun c => .keeps fun _ => ?_⟩
  extract_lets rest
  have hrest : ∀ x, Leads env (After c (residue p ∪ residue x)) (rest x) (Leaving c) := by
    intro (n, names)
    refine .keeps fun d => .shown ?_
    rw [residue_push p n (p.params_foldl_bind ..)]
    simp
  exact .fork (.leaves hrest) <| .leaves hrest

instance (o : Option Offender) : Restores env (parameters g o) := .routine

instance : Restores env (directive g) := by
  refine .of_leads fun c => .past <| .past <| .leaves fun e => ?_
  extract_lets rest
  have hrest text : Leads env (After c (∅ ∪ residue e)) (rest text) (Leaving c) := by
    refine .past ?_
    split <;> exact .restoring
  split
  · exact .past <| .pure_bind <| hrest _
  · exact .past <| .pure_bind <| hrest _
  · exact .pure_bind <| hrest _

end Restores

/-- The rule restores the context, but the code may have become strict. -/
class Hardens [Leaves α] (env : Env) (p : Parse α) : Prop where
  since : ∀ {s s' : State} {a : α}, Returns p env s a s' →
    ∃ strict, Since { s.context with strict } (residue a) s'.context

/-- The code may have become strict. -/
def Hardened (c : Context) (r : Residue) (s : State) : Prop :=
  ∃ strict, After { c with strict } r s

theorem Hardens.of_leads [Leaves α] {p : Parse α}
    (h : ∀ c, Leads env (After c ∅) p fun a => Hardened c (residue a)) : Hardens env p where
  since := @fun s s' a hp => h s.context s a s' (.refl _) hp

/-- A first step after which the code may be strict. -/
theorem Leads.hardens [Leaves α] {p : Parse α} [Hardens env p] {f : α → Parse β} {R : β → State → Prop}
    (hf : ∀ a strict, Leads env (After { c with strict } (r ∪ residue a)) (f a) R) :
    Leads env (After c r) (p >>= f) R := by
  intro s b s' hs h
  obtain ⟨a, u, h₁, h₂⟩ := h.bind
  obtain ⟨strict, hu⟩ := Hardens.since h₁
  have hs' : Since { c with strict } r { s.context with strict } := { hs with strict := rfl }
  exact hf a strict u b s' (hs'.trans hu) h₂

namespace Hardens

instance : Hardens env (prologue g) := by
  refine .of_leads fun c => ?_
  let I (found : List Node) := Hardened c (residue found)
  refine .loops (Q := I) (fun x => I x.1) (fun s h => ⟨c.strict, h⟩) (fun (found, octal) => ?_) fun found => ?_
  · refine .some fun strict => .keeps fun _ => ?_
    split
    · refine .leaves fun n => ?_
      have hpush : residue (n :: found) = residue found ∪ residue n :=
        Residue.union_comm ..
      split
      · refine .fork ?_ <| .pure fun _ h => ⟨strict, h.of_eq hpush⟩
        refine .sets { c with strict := true } (fun _ h => { h with strict := rfl }) ?_
        split
        · exact .past <| .past <| .pastIf <| .pure fun _ h => ⟨true, h.of_eq hpush⟩
        · exact .past <| .pastIf <| .pure fun _ h => ⟨true, h.of_eq hpush⟩
      · exact .pure fun _ h => ⟨strict, h.of_eq hpush⟩
    · exact .pure fun _ h => ⟨strict, h⟩
  · refine .pure fun _ h => ?_
    rwa [Restores.residue_reverse]

instance : Hardens env (functionBody g) := by
  refine .of_leads fun c => .past <| .past <| .hardens fun directives strict => ?_
  refine .before fun before hb => ?_
  refine .sets
    { c with strict, labels := [], inIteration := false, inSwitch := false, inFunction := true } (fun _ h => ?_) ?_
  · exact { h with labels := rfl, inIteration := rfl, inSwitch := rfl, inFunction := rfl }
  refine .leaves fun items => .past <| .sets { c with strict } (fun _ h => ?_) ?_
  · exact { h with
      labels := hb.labels, inIteration := hb.inIteration, inSwitch := hb.inSwitch, inFunction := hb.inFunction }
  · refine .conclude (.ends ?_) fun _ _ h => ⟨strict, h⟩
    simp

instance [Leaves α] {p : Parse α} [Hardens env p] : Hardens env (isolate p) := by
  refine .of_leads fun c => .before fun _ _ => .past <| .hardens fun a strict => .keeps fun _ => ?_
  split
  · exact .fails_bind
  · refine .sets { c with strict } (fun _ h => { h with }) ?_
    exact .pure fun _ h => ⟨strict, h⟩

end Hardens

instance (id : Node) (t : Token) : Neutral (checkFunctionName id t) := .bind

instance : Neutral functionHead := .bind

namespace Restores

instance (name : FunctionName) : Restores env (functionTail g name) := .routine

instance (nameIsOptional : Bool) : Plain env (functionDeclaration g nameIsOptional) := .routine

instance : Plain env (functionExpression g) := .routine

instance (p : Parameters) : Restores env (methodBody g p) := .routine

instance : Plain env (plainMethod g) := .routine

instance : Plain env (asyncMethod g) := .routine

instance : Plain env (getter g) := .routine

instance : Plain env (setter g) := .routine

instance : Plain env (generatorMethod g) := .routine

end Restores

end ScriptTree.Parse
