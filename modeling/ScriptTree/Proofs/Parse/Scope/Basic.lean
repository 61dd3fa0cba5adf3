import ScriptTree.Proofs.Node.Scope
import ScriptTree.Proofs.Parse.Context.Function
import ScriptTree.Proofs.Parse.Nest.Function

/-! # Rules and the scope around them

The context of a rule tells what encloses its nodes. Expressions and declarations depend on nothing of it
but whether the code is strict (`Expresses`), and what they have read so far is kept as a list of nodes that
are fine (`Code`). Statements depend on all of it (`States`). -/

namespace ScriptTree.Parse

variable {b : Prop} {m : Mark} {shape : Shape Node} {change : Context → Context} {n : Node}

/-- Nothing is tolerated, and no node is replaced. -/
class Exact (env : Env) : Prop extends Intolerant env where
  kept : ∀ names, env.options.delegate ≠ .rename names

variable {α β σ : Type} {env : Env} {strict : Bool} {ns : List Node} {s s' : State}

theorem finish_exact [Exact env] {m : Mark} {shape : Shape Node}
    (h : Returns (finish m shape) env s n s') : ∃ info, n = ⟨info, shape⟩ := by
  obtain ⟨-, hn⟩ := finish_returns h
  obtain ⟨id, hn⟩ := hn Exact.kept
  exact ⟨_, hn⟩

/-! ## Expressions -/

/-- Whether the code is strict, and nodes of it that were read. -/
def Code (strict : Bool) (ns : List Node) (s : State) : Prop := s.context.strict = strict ∧ Fines strict ns

@[simp] abbrev Coded {α : Type} [Held α] (strict : Bool) (a : α) : State → Prop := Code strict (Held.nodes a)

/-- Nothing but whether the code is strict matters to the nodes that the rule returns, and after the rule it
is as before. -/
class Expresses [Held α] (env : Env) (p : Parse α) : Prop where
  leads : ∀ strict, Leads env (Code strict []) p (Coded strict)

/-- The same if such nodes were read before. -/
class Continues [Held α] (env : Env) (ns : outParam (List Node)) (p : Parse α) : Prop where
  leads : ∀ strict, Leads env (Code strict ns) p (Coded strict)

theorem Code.same {u : State} (h : Code strict ns s) (hs : Same s.context u.context) : Code strict ns u :=
  ⟨hs.strict.trans h.1, h.2⟩

namespace Leads

variable {l : List Node} {p : Parse α} {f : α → Parse β} {R : β → State → Prop} [Decidable b]

/-- What was read is known to be something else. -/
theorem knows {Q : α → State → Prop} (hl : Fines strict ns → Fines strict l)
    (h : Leads env (Code strict l) p Q) : Leads env (Code strict ns) p Q :=
  .weaken (fun _ hs => ⟨hs.1, hl hs.2⟩) h

instance [Neutral p] : Keeps env (Code strict ns) p := ⟨fun _ _ _ hs h => hs.same (Neutral.same h)⟩

/-- A change of the context that leaves the code strict or not. -/
theorem alters {f : Unit → Parse β} (h : Leads env (Code strict ns) (f ()) R)
    (hc : ∀ c, (change c).strict = c.strict := by exact fun _ => rfl) :
    Leads env (Code strict ns) (setContext change >>= f) R := by
  intro s b s' hs h'
  exact h { s with context := change s.context } b s' ⟨(hc _).trans hs.1, hs.2⟩ h'.modify

/-- A change of the context after which the code is strict, or is not. -/
theorem becomes {f : Unit → Parse β} {strict' : Bool}
    (hc : ∀ c, (change c).strict = strict') (hf : Fines strict ns → Leads env (Code strict' []) (f ()) R) :
    Leads env (Code strict ns) (setContext change >>= f) R := by
  intro s b s' hs h
  exact hf hs.2 { s with context := change s.context } b s' ⟨hc _, .nil⟩ h.modify

/-- The context is remembered. -/
theorem recalls {f : Context → Parse β} (hf : ∀ d, d.strict = strict → Leads env (Code strict ns) (f d) R) :
    Leads env (Code strict ns) (context >>= f) R := by
  intro s b s' hs h
  exact hf s.context hs.1 s b s' hs (h.first rfl)

/-- The last step. -/
theorem heard [Held α] [Expresses env p] : Leads env (Code strict ns) p (Coded strict) := by
  intro s a s' hs h
  exact Expresses.leads strict s a s' ⟨hs.1, .nil⟩ h

theorem continued [Held α] [h : Continues env l p] (hl : Fines strict ns → Fines strict l) :
    Leads env (Code strict ns) p (Coded strict) :=
  .knows hl (h.leads strict)

theorem rounds [Held σ] [Held α] {x : σ} {round : σ → Parse (Round σ α)}
    (hx : Fines strict ns → Fines strict (Held.nodes x))
    (step : ∀ x, Leads env (Coded strict x) (round x) (Coded strict)) :
    Leads env (Code strict ns) (Parse.loop x round) (Coded strict) := by
  refine .loop (Coded strict) (fun _ h => ⟨h.1, hx h.2⟩) fun x s r s' hs h => ?_
  have := step x s r s' hs h
  cases r <;> exact this

/-- A first step that reads nodes. -/
theorem adds [Held α] (hp : Leads env (Code strict ns) p (Coded strict))
    (hf : ∀ a, Leads env (Code strict (ns ++ Held.nodes a)) (f a) R) : Leads env (Code strict ns) (p >>= f) R := by
  intro s b s' hs h
  obtain ⟨a, u, h₁, h₂⟩ := h.bind
  have hu := hp s a u hs h₁
  exact hf a u b s' ⟨hu.1, Fines.append_iff.mpr ⟨hs.2, hu.2⟩⟩ h₂

theorem hears [Held α] [Expresses env p] (hf : ∀ a, Leads env (Code strict (ns ++ Held.nodes a)) (f a) R) :
    Leads env (Code strict ns) (p >>= f) R :=
  .adds .heard hf

/-- A first step that returns something of which more is known than its nodes. -/
theorem notes {P : α → Prop} (hp : Leads env (Code strict []) p fun a s => Code strict [] s ∧ P a)
    (hf : ∀ a, P a → Leads env (Code strict ns) (f a) R) : Leads env (Code strict ns) (p >>= f) R := by
  intro s b s' hs h
  obtain ⟨a, u, h₁, h₂⟩ := h.bind
  obtain ⟨hu, ha⟩ := hp s a u ⟨hs.1, .nil⟩ h₁
  exact hf a ha u b s' ⟨hu.1, hs.2⟩ h₂

/-- The nodes of the result are known. -/
theorem gives [Held α] {a : α} (h : Fines strict ns → Fines strict (Held.nodes a)) :
    Leads env (Code strict ns) (Pure.pure a) (Coded strict) :=
  .pure fun _ hs => ⟨hs.1, h hs.2⟩

variable [Exact env]

/-- A node in between. -/
theorem forms {f : Node → Parse β} (hns : ∀ info, Fines strict ns → Fine strict ⟨info, shape⟩)
    (hf : ∀ info, Leads env (Code strict (ns ++ [⟨info, shape⟩])) (f ⟨info, shape⟩) R) :
    Leads env (Code strict ns) (Parse.finish m shape >>= f) R := by
  intro s b s' hs h
  obtain ⟨n, u, h₁, h₂⟩ := h.bind
  obtain ⟨info, rfl⟩ := finish_exact h₁
  refine hf info u b s' (Code.same ⟨hs.1, ?_⟩ (Neutral.same h₁)) h₂
  simpa using ⟨hs.2, hns info hs.2⟩

theorem formed (hns : ∀ info, Fines strict ns → Fine strict ⟨info, shape⟩) :
    Leads env (Code strict ns) (Parse.finish m shape) (Coded strict) := by
  intro s n s' hs h
  obtain ⟨info, rfl⟩ := finish_exact h
  exact Code.same ⟨hs.1, by simpa using hns info hs.2⟩ (Neutral.same h)

/-- A node whose parts are known. -/
theorem joins {f : Node → Parse β} (hns : Fines strict ns → Fines strict shape.children)
    (hf : ∀ info, Leads env (Code strict (ns ++ [⟨info, shape⟩])) (f ⟨info, shape⟩) R)
    (hs : shape.isPlain = true := by rfl) :
    Leads env (Code strict ns) (Parse.finish m shape >>= f) R :=
  .forms (fun _ h => .plain (hns h) hs) hf

theorem joined (hns : Fines strict ns → Fines strict shape.children) (hs : shape.isPlain = true := by rfl) :
    Leads env (Code strict ns) (Parse.finish m shape) (Coded strict) :=
  .formed fun _ h => .plain (hns h) hs

/-- A node with something besides that is no node. -/
theorem joinedPair [Held α] {a : α} (hns : Fines strict ns → Fines strict shape.children)
    (hs : shape.isPlain = true := by rfl) (ha : Held.nodes a = [] := by rfl) :
    Leads env (Code strict ns) (Parse.finish m shape >>= fun n => Pure.pure (n, a)) (Coded strict) := by
  refine .joins hns (fun info => .gives fun h => ?_) hs
  have hx : Held.nodes ((⟨info, shape⟩ : Node), a) = [⟨info, shape⟩] ++ Held.nodes a := rfl
  rw [hx, ha]
  simp at h ⊢
  exact h.2

end Leads

namespace Expresses

variable [Held α] {p : Parse α} {stop : Parse Bool}

instance [Expresses env p] : Expresses env (isolate p) := by
  refine ⟨fun strict => .past <| .past <| .hears fun a => .keeps fun _ => ?_⟩
  split
  · exact .fails_bind
  · exact .alters <| .gives fun h => h

instance [Expresses env p] : Expresses env (inherit p) := by
  refine ⟨fun strict => .past <| .past <| .hears fun a => .alters <| .gives fun h => h⟩

instance {q : Parse α} {b : Prop} [Decidable b] [Expresses env p] [Expresses env q] :
    Expresses env (if b then p else q) := by
  split <;> assumption

instance {p : Parse Node} [Expresses env p] : Expresses env (some <$> p) where
  leads strict := by
    intro s a s' hs h
    obtain ⟨n, hn, rfl⟩ := returns_map.mp h
    exact leads strict s n s' hs hn

end Expresses

/-- What holds before each item and of each item. -/
theorem Leads.each {J : State → Prop} {P : α → Prop} {p : Parse α}
    (hstop : Leads env J stop fun _ => J) (hp : Leads env J p fun a s => J s ∧ P a) :
    Leads env J (until' stop p) fun as s => J s ∧ ∀ a ∈ as, P a := by
  let I (as : List α) (s : State) := J s ∧ ∀ a ∈ as, P a
  refine .loops (Q := I) I (fun _ h => ⟨h, nofun⟩) (fun as => .fact fun has => .bind hstop fun _ => ?_) fun as => ?_
  · refine .fork (.pure fun _ h => ⟨h, has⟩) <| .bind hp fun a => .pure fun _ h => ⟨h.1, ?_⟩
    exact List.forall_mem_cons.mpr ⟨h.2, has⟩
  · exact .pure fun _ h => ⟨h.1, fun a ha => h.2 a (List.mem_reverse.mp ha)⟩

/-- Items that a rule reads. -/
theorem Leads.items [Held α] [Neutral stop] {p : Parse α} {f : List α → Parse β}
    {R : β → State → Prop} (hp : Expresses env p)
    (hf : ∀ as : List α, Leads env (Code strict (ns ++ as.flatMap Held.nodes)) (f as) R) :
    Leads env (Code strict ns) (until' stop p >>= f) R := by
  have heach : Leads env (Code strict ns) (until' stop p)
      fun as s => Code strict ns s ∧ ∀ a ∈ as, Fines strict (Held.nodes a) := by
    refine .each (fun s _ s' hs h => hs.same (Neutral.same h)) fun s a s' hs h => ?_
    have ha := Expresses.leads strict s a s' ⟨hs.1, .nil⟩ h
    exact ⟨⟨ha.1, hs.2⟩, ha.2⟩
  refine .bind heach fun as => .weaken (fun s hs => ⟨hs.1.1, Fines.append_iff.mpr ⟨hs.1.2, fun n hn => ?_⟩⟩) (hf as)
  obtain ⟨a, ha, hn⟩ := List.mem_flatMap.mp hn
  exact hs.2 a ha n hn

instance {p : Parse Node} [Neutral stop] [Expresses env p] : Expresses env (until' stop p) where
  leads strict := by
    rw [← bind_pure (until' stop p)]
    refine .items inferInstance fun as => .gives fun h => ?_
    simpa [flatMap_nodes] using h

/-- Rules that are put together from others in the usual ways. -/
theorem Leads.expressing [Held α] {p : Parse α} (h : Leads env (Code strict ns) p (Coded strict) := by
    repeat' first
      | with_reducible refine Prod.forall.mpr fun _ => ?_
      | with_reducible intro _
      | with_reducible exact .fails
      | with_reducible exact .fails_bind
      | with_reducible exact .heard
      | with_reducible refine .joinedPair ?_ ?_ ?_
      | with_reducible refine .joined ?_ ?_
      | with_reducible refine .joins ?_ ?_ ?_
      | with_reducible refine .gives ?_
      | with_reducible refine .fork ?_ ?_
      | with_reducible refine .pure_bind ?_
      | with_reducible refine .alters ?_ ?_
      | with_reducible refine .binds ?_
      | with_reducible refine .hears ?_
      | with_reducible refine .items ?_ ?_
      | with_reducible refine .past ?_
      | with_reducible refine .adds (.rounds ?_ ?_) ?_
      | with_reducible refine .rounds ?_ ?_
      | with_reducible refine .adds (.continued ?_) ?_
      | with_reducible refine .continued ?_
      | dsimp only
      | infer_instance
      | rfl
      | split
      | refine .hears ?_
      | refine .past ?_
      | simp_all [flatMap_nodes, flatMap_nodes_option, Fines.asPatterns, Fine.asPattern]) : Leads env (Code strict ns) p (Coded strict) := h

theorem Expresses.routine [Held α] {p : Parse α} (h : ∀ strict, Leads env (Code strict []) p (Coded strict) := by
      intro _
      try change Leads _ _ (_ >>= _) _
      exact .expressing) : Expresses env p := ⟨h⟩

theorem Continues.routine [Held α] {p : Parse α} (h : ∀ strict, Leads env (Code strict ns) p (Coded strict) := by
      intro _
      try change Leads _ _ (_ >>= _) _
      exact .expressing) : Continues env ns p := ⟨h⟩

/-! ## Statements -/

/-- What encloses the nodes that a rule reads. -/
def Context.scope (c : Context) : Scope := ⟨c.labels, c.inIteration, c.inSwitch, c.inFunction, c.strict⟩

def Under (c : Context) (s : State) : Prop := Kept c s.context

/-- The node is sound in a context, where it may be an import or an export, and no directive for strict code. -/
structure Itemed (c : Context) (n : Node) : Prop where
  sound : Sound c.scope n
  isStrictDirective : n.isStrictDirective = false

/-- The node is sound in a context, and neither an import nor an export nor a directive for strict code. -/
structure Stated (c : Context) (n : Node) : Prop where
  seated : Seated c.scope n
  isStrictDirective : n.isStrictDirective = false

theorem Stated.itemed {c : Context} (h : Stated c n) : Itemed c n := ⟨h.seated.sound, h.isStrictDirective⟩

/-- After the rule the context is as before, and the nodes that it returns are sound in it. -/
class States [Held α] (env : Env) (p : Parse α) : Prop where
  leads : ∀ c, Leads env (Under c) p fun a s => Under c s ∧ ∀ n ∈ Held.nodes a, Stated c n

/-- After the rule the context is as before, and the item that it returns is sound in it. -/
class Itemizes (env : Env) (p : Parse Node) : Prop where
  leads : ∀ c, Leads env (Under c) p fun n s => Under c s ∧ Itemed c n

instance {p : Parse Node} [States env p] : Itemizes env p where
  leads c := .conclude (States.leads c) fun n _ h => ⟨h.1, (h.2 n (List.mem_singleton_self n)).itemed⟩

theorem Stated.of_fine {c : Context} (h : Fine c.strict n) : Stated c n :=
  ⟨h.free.seated rfl, h.isStrictDirective⟩

variable {c : Context}

namespace Leads

variable {p : Parse α} {f : α → Parse β} {R : β → State → Prop} [Decidable b]

instance [Neutral p] : Keeps env (Under c) p := ⟨fun _ _ _ hs h => Kept.trans hs (Neutral.same h).toKept⟩

/-- The context is looked at. -/
theorem look {f : Context → Parse β} (hf : ∀ d, Kept c d → Leads env (Under c) (f d) R) :
    Leads env (Under c) (context >>= f) R := by
  intro s b s' hs h
  exact hf s.context hs s b s' hs (h.first rfl)

/-- The context is changed. -/
theorem turns {f : Unit → Parse β} (d : Context)
    (hd : ∀ e, Kept c e → Kept d (change e)) (hf : Leads env (Under d) (f ()) R) :
    Leads env (Under c) (setContext change >>= f) R := by
  intro s b s' hs h
  exact hf { s with context := change s.context } b s' (hd _ hs) h.modify

/-- A first step that reads what does not depend on the rest of the scope. -/
theorem fineParts [Leaves α] [Restores env p] [Held α] [Expresses env p]
    (hf : ∀ a, Fines c.strict (Held.nodes a) → Leads env (Under c) (f a) R) :
    Leads env (Under c) (p >>= f) R := by
  intro s b s' hs h
  obtain ⟨a, u, h₁, h₂⟩ := h.bind
  have ha := (Expresses.leads c.strict s a u ⟨hs.strict, .nil⟩ h₁).2
  exact hf a ha u b s' (Kept.trans hs (Restores.since h₁).toKept) h₂

theorem expression {p : Parse Node} {f : Node → Parse β} [Restores env p] [Expresses env p]
    (hf : ∀ e, Fine c.strict e → Leads env (Under c) (f e) R) : Leads env (Under c) (p >>= f) R :=
  .fineParts fun e he => hf e (he e (List.mem_singleton_self e))

/-- A first step that reads statements. -/
theorem statedParts [Held α] [States env p] (hf : ∀ a, (∀ n ∈ Held.nodes a, Stated c n) → Leads env (Under c) (f a) R) :
    Leads env (Under c) (p >>= f) R :=
  .bind (States.leads c) fun a => .fact (hf a)

theorem statement {p : Parse Node} {f : Node → Parse β} [States env p]
    (hf : ∀ n, Stated c n → Leads env (Under c) (f n) R) : Leads env (Under c) (p >>= f) R :=
  .statedParts fun n hn => hf n (hn n (List.mem_singleton_self n))

theorem statements {stop : Parse Bool} [Neutral stop] {p : Parse Node} [Itemizes env p] {f : List Node → Parse β}
    (hf : ∀ ns : List Node, (∀ n ∈ ns, Itemed c n) → Leads env (Under c) (f ns) R) :
    Leads env (Under c) (until' stop p >>= f) R := by
  refine .bind (.each (P := Itemed c) (fun s _ s' hs h => ?_) (Itemizes.leads c)) fun ns => .fact (hf ns)
  exact Kept.trans hs (Neutral.same h).toKept

/-- A rule that depends on nothing but whether the code is strict. -/
theorem code [Leaves α] [Restores env p] {P : α → Prop}
    (h : Leads env (Code c.strict []) p fun a s => Code c.strict [] s ∧ P a) :
    Leads env (Under c) p fun a s => Under c s ∧ P a := by
  intro s a s' hs hp
  exact ⟨Kept.trans hs (Restores.since hp).toKept, (h s a s' ⟨hs.strict, .nil⟩ hp).2⟩

/-- The context as a whole, where it matters. -/
theorem within {Q : α → State → Prop} (h : ∀ c, c.strict = strict → Fines strict ns → Leads env (Under c) p Q) :
    Leads env (Code strict ns) p Q := by
  intro s a s' hs hp
  exact h s.context hs.1 hs.2 s a s' (.refl _) hp

/-- The last step. -/
theorem closes [Exact env] {Q : Node → State → Prop}
    (h : ∀ info s, Under c s → Q ⟨info, shape⟩ s) : Leads env (Under c) (Parse.finish m shape) Q := by
  intro s n s' hs h'
  obtain ⟨info, rfl⟩ := finish_exact h'
  exact h info s' (Kept.trans hs (Neutral.same h').toKept)

/-- A statement whose parts are known. -/
theorem states [Exact env] (hj : shape.Jumps c.scope)
    (h : ∀ x ∈ shape.enclosed c.scope, Seated x.1 x.2) (hb : shape.Binds c.scope := by trivial)
    (hd : ∀ info, Node.isStrictDirective ⟨info, shape⟩ = false := by exact fun _ => rfl)
    (hm : shape.isModuleItem = false := by rfl) :
    Leads env (Under c) (Parse.finish m shape) fun n s => Under c s ∧ ∀ n' ∈ Held.nodes n, Stated c n' :=
  .closes fun info _ hs => ⟨hs, List.forall_mem_singleton.mpr ⟨⟨.of_seated hj hb h hm, hm⟩, hd info⟩⟩

/-- A statement that leaves the scope as it is. -/
theorem statesPlain [Exact env] (h : ∀ n ∈ shape.children, Seated c.scope n) (hs : shape.isPlain = true := by rfl)
    (hd : ∀ info, Node.isStrictDirective ⟨info, shape⟩ = false := by exact fun _ => rfl) :
    Leads env (Under c) (Parse.finish m shape) fun n s => Under c s ∧ ∀ n' ∈ Held.nodes n, Stated c n' := by
  refine .states (Shape.jumps_plain hs) (fun x hx => ?_) (Shape.binds_plain hs) hd (Shape.isModuleItem_plain hs)
  rw [Shape.enclosed_plain hs] at hx
  obtain ⟨n, hn, rfl⟩ := List.mem_map.mp hx
  exact h n hn

/-- An import or an export outside of a function. -/
theorem itemizes [Exact env] (hf : c.inFunction = false)
    (h : ∀ n ∈ shape.children, Seated c.scope n) (hm : shape.isModuleItem = true := by rfl) :
    Leads env (Under c) (Parse.finish m shape) fun n s => Under c s ∧ Itemed c n := by
  refine .closes fun info _ hs => ⟨hs, .node ?_ ?_ ⟨fun _ => hf, fun _ n hn => (h n hn).inner⟩ fun x hx => ?_, ?_⟩
  · cases shape <;> trivial
  · cases shape <;> trivial
  · have hx : x ∈ shape.children.map (c.scope, ·) := by
      cases shape <;> first | exact hx | cases hm
    obtain ⟨n, hn, rfl⟩ := List.mem_map.mp hx
    exact (h n hn).sound
  · cases shape <;> first | rfl | cases hm

end Leads

namespace States

variable [Held α] {p : Parse α}

/-- What does not depend on the rest of the scope. -/
instance [Leaves α] [Restores env p] [Expresses env p] : States env p where
  leads c := by
    rw [← bind_pure p]
    exact .fineParts fun a ha => .pure fun _ h => ⟨h, fun n hn => .of_fine (ha n hn)⟩

instance {p : Parse Node} [States env p] : States env (some <$> p) where
  leads c := by
    intro s a s' hs h
    obtain ⟨n, hn, rfl⟩ := returns_map.mp h
    exact States.leads c s n s' hs hn

instance [States env p] : States env (isolate p) := by
  refine ⟨fun c => .look fun before _ => .past <| .statedParts fun a ha => .keeps fun _ => ?_⟩
  split
  · exact .fails_bind
  · exact .turns c (fun _ h => { h with }) (.pure fun _ h => ⟨h, ha⟩)

end States

end ScriptTree.Parse
