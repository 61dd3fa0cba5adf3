import Mathlib.Data.List.Nodup
import ScriptTree.Proofs.Parse.Scope.Basic

/-! # Names, patterns and functions in their scope

A pattern binds the names of the tokens that its rule returns (`Binding`). What strict code has against the
names of parameters is collected while they are read (`Listed`), and once the body of the function is known,
so is whether its code is strict, and nothing is left against them if it is (`Listed.legal`). -/

namespace ScriptTree.Parse

variable {p : Parameters} {n : Node} {m : Mark} {t : Token}

def namesOf (ts : List Token) : List Text := ts.map fun t => nameText t.lexeme

/-- A part of a pattern was read, with the tokens of the names that it binds. -/
def Bound (view : Node → List Text) (strict : Bool) (x : Node × List Token) (s : State) : Prop :=
  Code strict [x.1] s ∧ view x.1 = namesOf x.2

/-- The rule returns a pattern with the tokens of the names that it binds. -/
class Binding (env : Env) (p : Parse (Node × List Token)) : Prop where
  leads : ∀ strict, Leads env (Code strict []) p (Bound Node.boundNames strict)

/-- A first step that reads a pattern. -/
theorem Leads.binds {β : Type} {env : Env} {strict : Bool} {ns : List Node} {p : Parse (Node × List Token)}
    {f : Node × List Token → Parse β} {R : β → State → Prop} [Binding env p]
    (hf : ∀ n names, n.boundNames = namesOf names → Leads env (Code strict (ns ++ [n])) (f (n, names)) R) :
    Leads env (Code strict ns) (p >>= f) R := by
  intro s b s' hs h
  obtain ⟨⟨n, names⟩, u, h₁, h₂⟩ := h.bind
  obtain ⟨hu, hn⟩ := Binding.leads strict s (n, names) u ⟨hs.1, .nil⟩ h₁
  exact hf n names hn u b s' ⟨hu.1, Fines.append_iff.mpr ⟨hs.2, hu.2⟩⟩ h₂

instance {env : Env} (p : Parse (Node × List Token)) [Binding env p] : Expresses env p where
  leads strict := by
    intro s (n, names) s' hs h
    simpa using (Binding.leads strict s (n, names) s' hs h).1

/-- The nodes that the members of the grammar return are sound in the context of the rule. -/
class Scoping (env : Env) (g : Grammar) : Prop extends Restoring env g where
  expressesAssignment : Expresses env g.assignment
  expressesUnary : Expresses env g.unary
  expressesPower : Expresses env g.power
  expressesCall : Expresses env g.call
  expressesCallee : Expresses env g.callee
  expressesElement : Expresses env g.element
  bindsPattern : ∀ kind, Binding env (g.pattern kind)
  statesStatement : States env g.statement
  itemizesItem : Itemizes env g.item
  /-- What starts with another word is neither an import nor an export. -/
  statesItem : ∀ c, Leads env (fun s => Under c s ∧ s.lookahead.lexeme ≠ .keyword "import" ∧
    s.lookahead.lexeme ≠ .keyword "export") g.item fun n s => Under c s ∧ Stated c n

attribute [instance] Scoping.expressesAssignment Scoping.expressesUnary Scoping.expressesPower
  Scoping.expressesCall Scoping.expressesCallee Scoping.expressesElement Scoping.bindsPattern
  Scoping.statesStatement Scoping.itemizesItem

open Parts

attribute [local simp] flatMap_nodes

variable {α β : Type} {env : Env} [Exact env] {g : Grammar} [Scoping env g] {strict : Bool} {ns : List Node}

/-- A name that is bound is that of the token ahead. -/
theorem bindingName_names {kind : Option DeclarationKind} :
    Leads env (fun s => Code strict [] s ∧ s.lookahead = t) (bindingName kind)
      fun n s => Code strict [n] s ∧ ∃ info, n = ⟨info, .identifier (nameText t.lexeme)⟩ := by
  refine .bind (Q := fun _ s => Code strict [] s ∧ s.lookahead = t) (fun s m s' hs h => ?_) fun m => ?_
  · cases h
    exact hs
  refine .bind (Q := fun t' s => Code strict [] s ∧ t' = t) (fun s t' s' hs h => ?_) fun t' => .fact fun ht => ?_
  · exact ⟨hs.1.same (Neutral.same h), (next_moves h).1.trans hs.2⟩
  subst ht
  refine .keeps fun c => ?_
  extract_lets rest
  have hrest : Leads env (Code strict []) (rest ())
      fun n s => Code strict [n] s ∧ ∃ info, n = ⟨info, .identifier (nameText t'.lexeme)⟩ := by
    intro s n s' hs h
    obtain ⟨info, rfl⟩ := finish_exact h
    refine ⟨Code.same ⟨hs.1, ?_⟩ (Neutral.same h), info, rfl⟩
    simpa using Fine.plain .nil rfl
  split
  · exact .fork .fails_bind <| .when hrest
  · exact .when hrest
  · exact .fork .fails_bind <| .when hrest

namespace Expresses

instance : Expresses env anyName := .routine

instance (kind : Option DeclarationKind) : Expresses env (bindingName kind) := .routine

instance : Expresses env (propertyKey g) := .routine

instance : Expresses env (expression g) := .routine

end Expresses

/-! ## Patterns -/

/-- A pattern whose parts are known. -/
theorem Leads.bound {shape : Shape Node} {names : List Token} {view : Node → List Text}
    (hns : Fines strict ns → Fines strict shape.children)
    (hnames : ∀ info, view ⟨info, shape⟩ = namesOf names) (hs : shape.isPlain = true := by rfl) :
    Leads env (Code strict ns) (Parse.finish m shape >>= fun n => Pure.pure (n, names)) (Bound view strict) := by
  refine .joins hns (fun info => .pure fun _ h => ⟨⟨h.1, ?_⟩, hnames info⟩) hs
  exact (Fines.append_iff.mp h.2).2

theorem namesOf_append (ts us : List Token) : namesOf (ts ++ us) = namesOf ts ++ namesOf us := List.map_append

section

variable (kind : Option DeclarationKind)

namespace Binding

instance : Binding env (patternWithDefault g kind) := by
  refine ⟨fun strict => .past <| .binds fun left names hleft => .past <| .fork ?_ ?_⟩
  · refine .past <| .past <| .alters <| .hears fun right => .alters <| .bound (fun h => ?_) fun _ => ?_
    · simpa using h
    · exact hleft
  · exact .pure fun _ h => ⟨h, hleft⟩

instance : Binding env (bindingRest g kind) := by
  refine ⟨fun strict => .past <| .past <| .binds fun argument names hargument => .bound (fun h => ?_) fun _ => ?_⟩
  · simpa using h
  · exact hargument

/-- The elements of an array bind names one after another. -/
theorem boundNamesOfElements_append (xs ys : List (Option Node)) :
    Node.boundNamesOfElements (xs ++ ys) = Node.boundNamesOfElements xs ++ Node.boundNamesOfElements ys := by
  induction xs with
  | nil => rfl
  | cons x xs ih =>
    cases x with
    | none => exact ih
    | some n =>
      show n.boundNames ++ Node.boundNamesOfElements (xs ++ ys) = n.boundNames ++ _ ++ _
      rw [ih, List.append_assoc]

theorem boundNamesOfElements_some (n : Node) : Node.boundNamesOfElements [some n] = n.boundNames :=
  List.append_nil _

instance : Binding env (arrayPattern g kind) := by
  refine ⟨fun strict => .past <| .keeps fun _ => ?_⟩
  let I (x : List (Option Node) × List Token) (s : State) :=
    Code strict (x.1.filterMap id) s ∧ Node.boundNamesOfElements x.1.reverse = namesOf x.2
  refine .loops (Q := I) I (fun _ h => ⟨h, rfl⟩) (fun (elements, names) => .fact fun hnames => .keeps fun _ =>
    ?_) fun (elements, names) => .fact fun hnames => ?_
  · have hadd n more : n.boundNames = namesOf more → ∀ s, Code strict (elements.filterMap id ++ [n]) s →
        I (some n :: elements, names ++ more) s := by
      intro hn s hs
      refine ⟨⟨hs.1, ?_⟩, ?_⟩
      · simpa [and_comm] using hs.2
      · rw [List.reverse_cons, boundNamesOfElements_append, hnames, boundNamesOfElements_some, hn, namesOf_append]
    refine .fork (.pure fun _ h => ⟨h, hnames⟩) <| .past <| .fork ?_ ?_
    · refine .past <| .pure fun _ h => ⟨h, ?_⟩
      rw [List.reverse_cons, boundNamesOfElements_append, hnames]
      exact List.append_nil _
    · refine .past <| .fork ?_ ?_
      · exact .binds fun n more hn => .pure fun s h => hadd n more hn s h
      · exact .binds fun n more hn => .past <| .pastUnless <| .pure fun s h => hadd n more hn s h
  · refine .past <| .bound (fun h => ?_) fun _ => hnames
    simpa using h

/-- The names that a property binds, as one among those of an object. -/
def propertyNames (n : Node) : List Text := Node.boundNamesOfProperties [n]

theorem boundNamesOfProperties_eq_flatMap (ns : List Node) :
    Node.boundNamesOfProperties ns = ns.flatMap propertyNames := by
  induction ns with
  | nil => rfl
  | cons n ns ih =>
    obtain ⟨info, shape⟩ := n
    rw [List.flatMap_cons, ← ih]
    cases shape <;> simp [propertyNames, Node.boundNamesOfProperties]

theorem propertyPattern_names : Leads env (Code strict []) (propertyPattern g kind) (Bound propertyNames strict) := by
  refine .past <| .keeps fun t => ?_
  split
  next name hname =>
    have ht : [name] = namesOf [t] := by simp [namesOf, hname, nameText, Lexeme.value]
    refine .hears fun key => .joins (fun _ => .nil) fun _ => .past <| .fork (.keeps fun _ => ?_) <| .past <| .fork ?_ ?_
    · refine .hears fun right => .joins (fun h => ?_) fun _ => .bound (fun h => ?_) fun _ => ht
      · simp at h ⊢
        exact h.2
      · simp at h ⊢
        exact ⟨h.1, h.2.2.2⟩
    · refine .bound (fun h => ?_) fun _ => ht
      simpa using h
    · refine .past <| .binds fun value names hvalue => .bound (fun h => ?_) fun _ => ?_
      · simp at h ⊢
        exact ⟨h.1, h.2.2⟩
      · exact (List.append_nil _).trans hvalue
  next =>
    refine .past <| .hears fun key => .past <| .binds fun value names hvalue => .bound (fun h => ?_) fun _ => ?_
    · simpa using h
    · exact (List.append_nil _).trans hvalue

theorem restProperty_names : Leads env (Code strict []) (restProperty g) (Bound propertyNames strict) := by
  refine .past <| .past <| .binds fun argument names hargument => .past <| .pastIf <|
    .past <| .pastUnless <| .bound (fun h => ?_) fun _ => ?_
  · simpa using h
  · exact (List.append_nil _).trans hargument

instance : Binding env (objectPattern g kind) := by
  refine ⟨fun strict => .past <| .past <| .bind (.each (P := fun x => Fine strict x.1 ∧ propertyNames x.1 = namesOf x.2)
    (fun s _ s' hs h => hs.same (Neutral.same h)) ?_) fun found => .fact fun hfound => ?_⟩
  · refine .keeps fun _ => ?_
    extract_lets rest
    have hrest x : Leads env (Bound propertyNames strict x) (rest x)
        fun x s => Code strict [] s ∧ Fine strict x.1 ∧ propertyNames x.1 = namesOf x.2 := by
      refine .fact fun hx => .past <| .pastUnless <| .pure fun _ h => ?_
      have hfine := h.2
      simp at hfine
      exact ⟨⟨h.1, .nil⟩, hfine, hx⟩
    exact .fork (.bind restProperty_names hrest) <| .bind (propertyPattern_names kind) hrest
  · refine .past <| .bound (fun _ => ?_) fun _ => ?_
    · simpa [Fines] using fun x hx => (hfound x hx).1
    · show Node.boundNamesOfProperties (found.map Prod.fst) = namesOf (found.flatMap Prod.snd)
      rw [boundNamesOfProperties_eq_flatMap, namesOf, List.flatMap_map, List.map_flatMap]
      exact List.flatMap_congr fun x hx => (hfound x hx).2

instance : Binding env (pattern g kind) := by
  refine ⟨fun strict => .past <| .fork (Binding.leads strict) <| .past <| .fork (Binding.leads strict) ?_⟩
  refine .bind (Q := fun t s => Code strict [] s ∧ s.lookahead = t) (fun s t s' hs h => ?_) fun t => .when ?_
  · cases h
    exact ⟨hs, rfl⟩
  · refine .bind bindingName_names fun n => .pure fun _ ⟨h, info, hn⟩ => ⟨h, ?_⟩
    subst hn
    rfl

end Binding

end

/-! ## Parameters -/

namespace Parameters

/-- Strict code has nothing against the names. -/
def Clean (p : Parameters) : Prop := p.names.Nodup ∧ ∀ name ∈ p.names, Words.isRestricted name = false

/-- If nothing is left against the names, there is nothing. -/
def Checked (p : Parameters) : Prop := p.stricted = none → p.restricted = none → p.Clean

variable {b : Bool} {o : Offender} {name : Text}

@[simp] theorem names_bind : (p.bind b o name).names = name :: p.names := by
  unfold Parameters.bind
  dsimp only
  repeat' split <;> try rfl

@[simp] theorem simple_bind : (p.bind b o name).simple = p.simple := by
  unfold Parameters.bind
  dsimp only
  repeat' split <;> try rfl

/-- What there is against a name is noted, unless something was noted before. -/
theorem bind_noted (hs : (p.bind b o name).stricted = none) (hr : (p.bind b o name).restricted = none) :
    (p.stricted = none ∧ p.restricted = none) ∧ name ∉ p.names ∧ Words.isRestricted name = false := by
  by_cases hknown : name ∈ p.names
  · -- a name for the second time is noted in either code, if nothing else is
    cases b with
    | true => simp [Parameters.bind, hknown] at hs
    | false =>
      cases hp : p.restricted with
      | some => simp [Parameters.bind, hp] at hr
      | none => grind [Parameters.bind]
  · by_cases hname : Words.isRestricted name = true
    · cases b with
      | true => simp [Parameters.bind, hknown, hname] at hs
      | false =>
        cases hp : p.restricted with
        | some => simp [Parameters.bind, hp] at hr
        | none => simp [Parameters.bind, hp, hname] at hr
    · grind [Parameters.bind]

theorem Checked.bind (h : p.Checked) : (p.bind b o name).Checked := by
  intro hs hr
  obtain ⟨⟨hs, hr⟩, hnew, hname⟩ := bind_noted hs hr
  obtain ⟨hnodup, hall⟩ := h hs hr
  unfold Clean
  rw [names_bind]
  exact ⟨List.nodup_cons.mpr ⟨hnew, hnodup⟩, List.forall_mem_cons.mpr ⟨hname, hall⟩⟩

end Parameters

/-- Parameters that were read. -/
structure Listed (strict : Bool) (p : Parameters) : Prop where
  free : ∀ n ∈ p.params, Freestanding strict n
  names : p.names.reverse = p.params.flatMap Node.boundNames
  simple : p.simple = true → ∀ n ∈ p.params, n.isIdentifier = true
  checked : p.Checked

namespace Listed

variable {body : Node}

theorem empty (o : Option Offender) : Listed strict { restricted := o } :=
  ⟨nofun, rfl, nofun, fun _ _ => ⟨.nil, nofun⟩⟩

/-- A parameter is added after all of its names. -/
theorem push {γ : Type} {o : γ → Offender} {name : γ → Text} {cs : List γ} {b : Bool} (h : Listed strict p)
    (hn : Freestanding strict n) (hnames : n.boundNames = cs.map name) :
    Listed strict ((cs.foldl (fun p c => p.bind b (o c) (name c)) p).push n) := by
  have hfold : ∀ (cs : List γ) (q : Parameters), q.Checked → (cs.foldl (fun p c => p.bind b (o c) (name c)) q).Checked ∧
      (cs.foldl (fun p c => p.bind b (o c) (name c)) q).simple = q.simple ∧
      (cs.foldl (fun p c => p.bind b (o c) (name c)) q).names.reverse = q.names.reverse ++ cs.map name := by
    intro cs
    induction cs with
    | nil => exact fun q hq => ⟨hq, rfl, (List.append_nil _).symm⟩
    | cons c cs ih =>
      intro q hq
      obtain ⟨hchecked, hsimple, hnames⟩ := ih (q.bind b (o c) (name c)) hq.bind
      refine ⟨hchecked, hsimple.trans Parameters.simple_bind, hnames.trans ?_⟩
      simp
  obtain ⟨hchecked, hsimple, hreverse⟩ := hfold cs p h.checked
  have hparams := p.params_foldl_bind b o name cs
  refine ⟨?_, ?_, ?_, hchecked⟩
  · simp only [Parameters.push, hparams]
    exact List.forall_mem_append.mpr ⟨h.free, List.forall_mem_singleton.mpr hn⟩
  · simp only [Parameters.push, hparams, List.flatMap_append, ← h.names]
    refine hreverse.trans ?_
    simp [hnames]
  · simp only [Parameters.push, hparams, hsimple, Bool.and_eq_true]
    rintro ⟨⟨hp, hid⟩, -⟩
    exact List.forall_mem_append.mpr ⟨h.simple hp, List.forall_mem_singleton.mpr hid⟩

/-- Once the body is known, so is whether the code of the function is strict. -/
theorem legal (h : Listed strict p) (hbody : Sound { inFunction := true, strict := strict || body.isStrictBody } body)
    (hsimple : body.isStrictBody = true → p.simple = true)
    (hnone : (strict || body.isStrictBody) = true → p.stricted = none ∧ p.restricted = none) :
    Legal strict p.params body := by
  refine ⟨fun n hn => ?_, hbody, fun hstrict => ?_⟩
  · cases hb : body.isStrictBody with
    | false =>
      rw [Bool.or_false]
      exact h.free n hn
    | true =>
      -- a directive is only allowed after plain names, which are fine in strict code too
      obtain ⟨info, shape⟩ := n
      have hid := h.simple (hsimple hb) ⟨info, shape⟩ hn
      cases shape <;> first | exact .leaf | cases hid
  · obtain ⟨hs, hr⟩ := hnone hstrict
    obtain ⟨hnodup, hall⟩ := h.checked hs hr
    unfold Shape.StrictParameters
    rw [← h.names]
    refine ⟨List.nodup_reverse.mpr hnodup, fun name hname => ?_⟩
    have hname := hall name (List.mem_reverse.mp hname)
    simpa [Words.isRestricted, Words.restricted, Text.isOneOf, Text.is] using hname

end Listed

instance : Binding env (restParameter g) := by
  refine ⟨fun strict => .past <| .past <| .binds fun argument names hargument => .past <| .pastIf <|
    .past <| .pastUnless <| .bound (fun h => ?_) fun _ => hargument⟩
  simpa using h

variable {c : Context}

theorem parameter_listed (hp : Listed strict p) :
    Leads env (Code strict []) (parameter g p) fun q s => Code strict [] s ∧ Listed strict q := by
  refine .keeps fun _ => ?_
  extract_lets rest
  have hrest n names : n.boundNames = namesOf names →
      Leads env (Code strict ([] ++ [n])) (rest (n, names)) fun q s => Code strict [] s ∧ Listed strict q := by
    intro hn
    refine .keeps fun c => .pure fun s h => ⟨⟨h.1, .nil⟩, hp.push ?_ hn⟩
    exact (h.2 n (List.mem_singleton_self n)).free
  exact .fork (.binds hrest) <| .binds hrest

theorem parameters_listed {o : Option Offender} :
    Leads env (Code strict []) (parameters g o) fun p s => Code strict [] s ∧ Listed strict p := by
  refine .past <| .keeps fun _ => ?_
  extract_lets rest
  let I (p : Parameters) (s : State) := Code strict [] s ∧ Listed strict p
  have hrest : ∀ p, Leads env (I p) (rest p) I := fun p =>
    .fact fun hp => .past <| .pure fun _ h => ⟨h, hp⟩
  refine .fork (.pure_bind (.weaken (fun _ h => ⟨h, .empty o⟩) (hrest _))) ?_
  refine .loops (Q := I) I (fun _ h => ⟨h, .empty o⟩) (fun p => .fact fun hp => .keeps fun _ => ?_) hrest
  refine .fork (.pure fun _ h => ⟨h, hp⟩) <| .bind (parameter_listed hp) fun q => .fact fun hq => ?_
  refine .past <| .fork (.pure fun _ h => ⟨h, hq⟩) <| .past <| .keeps fun _ => ?_
  exact .fork (.pure fun _ h => ⟨h, hq⟩) <| .pure fun _ h => ⟨h, hq⟩

/-! ## Bodies -/

/-- A string as a statement that was read: if it is a directive, it is fine in strict code and elsewhere. -/
def Directed (strict : Bool) (n : Node) : Prop :=
  Freestanding strict n ∧ ∀ e text, n.shape = .directive e text → ∀ b, Freestanding b n

theorem directive_directed :
    Leads env (Code strict []) (directive g) fun n s => Code strict [] s ∧ Directed strict n := by
  refine .past <| .past <| .hears fun e => ?_
  extract_lets rest
  have hrest (text : Text) : (text = [] ∨ ∀ b, Freestanding b e) →
      Leads env (Code strict ([] ++ Held.nodes e)) (rest text) fun n s =>
        Code strict [] s ∧ Directed strict n := by
    intro htext
    refine .keeps fun _ s n s' hs h => ?_
    obtain ⟨info, rfl⟩ := finish_exact h
    refine ⟨Code.same ⟨hs.1, .nil⟩ (Neutral.same h), ?_⟩
    have he : Fine strict e := hs.2 e (List.mem_singleton_self e)
    split
    · exact ⟨(Fine.plain (by simpa using he) rfl).free, nofun⟩
    next hempty =>
      rcases htext with rfl | hfree
      · exact absurd rfl hempty
      · exact ⟨.directive (hfree strict), fun _ _ _ b => .directive (hfree b)⟩
  obtain ⟨info, shape⟩ := e
  dsimp only
  split
  · exact .past <| hrest _ (.inr fun b => .leaf)
  · exact .past <| hrest _ (.inr fun b => .leaf)
  · exact .pure_bind (hrest _ (.inl rfl))

/-- The directives of a body that were read in a context, and a first statement. -/
structure Opening (c : Context) (found : List Node) : Prop where
  free : ∀ n ∈ found, Freestanding (c.strict || found.any Node.isStrictDirective) n
  allowed : found.any Node.isStrictDirective = true → c.allowStrictDirective = true

/-- After directives the code is strict if it was so before or if one of them tells so. -/
def Context.opened (c : Context) (found : List Node) : Context :=
  { c with strict := c.strict || found.any Node.isStrictDirective }

@[simp] theorem Context.opened_nil (c : Context) : c.opened [] = c := by
  simp [Context.opened]

theorem Context.opened_cons {n : Node} {found : List Node} (hn : n.isStrictDirective = false) :
    c.opened (n :: found) = c.opened found := by
  simp [Context.opened, hn]

@[simp] theorem Context.opened_reverse (c : Context) (found : List Node) :
    c.opened found.reverse = c.opened found := by
  simp [Context.opened]

theorem prologue_opens :
    Leads env (Under c) (prologue g) fun found s => Under (c.opened found) s ∧ Opening c found := by
  -- directives but the last statement are fine in any code, as nobody knows yet what it will be
  let I (x : List Node × Option Token) (s : State) := Under (c.opened x.1) s ∧
    (∀ n ∈ x.1, ∀ b, Freestanding b n) ∧ (x.1.any Node.isStrictDirective = true → c.allowStrictDirective = true)
  let Q (found : List Node) (s : State) := Under (c.opened found) s ∧ Opening c found
  refine .loops (Q := Q) I (fun s h => ⟨?_, by simp, by simp⟩) (fun x => .fact fun hx => ?_)
    fun found => .pure fun s h => ⟨?_, fun n hn => ?_, fun ha => ?_⟩
  · simpa using h
  · obtain ⟨found, octal⟩ := x
    obtain ⟨hfree, hallowed⟩ := hx
    refine .keeps fun t => ?_
    split
    · refine .bind (.code directive_directed) fun n => .fact fun hd => ?_
      obtain ⟨hn, hany⟩ := hd
      split
      next e text hshape =>
        have hdirective : n.isStrictDirective = text.is "use strict" := by
          unfold Node.isStrictDirective
          rw [hshape]
        have hcons : ∀ n' ∈ n :: found, ∀ b, Freestanding b n' :=
          List.forall_mem_cons.mpr ⟨hany e text hshape, hfree⟩
        refine .ite (fun hstrict => ?_) fun hstrict => .pure fun s h => ⟨?_, hcons, ?_⟩
        · rw [hstrict] at hdirective
          have hnow : (c.opened (n :: found)).strict = true := by simp [Context.opened, hdirective]
          refine .turns (c.opened (n :: found)) (fun _ h => { h with strict := hnow.symm }) ?_
          split
          · exact .fails_bind
          refine .look fun d hd => .ite (fun _ => .fails_bind) fun hallow => .pure fun s h =>
            ⟨h, hcons, fun _ => ?_⟩
          have hd : d.allowStrictDirective = c.allowStrictDirective := hd.allowStrictDirective
          rw [← hd]
          simpa using hallow
        · rw [Bool.not_eq_true] at hstrict
          rwa [Context.opened_cons (hdirective.trans hstrict)]
        · rw [Bool.not_eq_true] at hstrict
          simpa [hdirective, hstrict] using hallowed
      next hshape =>
        have hdirective : n.isStrictDirective = false := by
          unfold Node.isStrictDirective
          split
          · exact absurd ‹_› (hshape _ _)
          · rfl
        have hsame : (n :: found).any Node.isStrictDirective = found.any Node.isStrictDirective := by
          simp [hdirective]
        refine .pure fun s h => ⟨?_, fun n' hn' => ?_, ?_⟩
        · rwa [Context.opened_cons hdirective]
        · rw [hsame]
          rcases List.mem_cons.mp hn' with rfl | hn'
          · exact hn
          · exact hfree n' hn' _
        · rwa [hsame]
    · exact .pure fun s h => ⟨h, fun n hn => hfree n hn _, hallowed⟩
  · simpa using h.1
  · simpa using h.2.free n (List.mem_reverse.mp hn)
  · exact h.2.allowed (by simpa using ha)

/-- No directive comes after the first ones. -/
theorem any_isStrictDirective {directives items : List Node} (h : ∀ n ∈ items, Itemed c n) :
    (directives ++ items).any Node.isStrictDirective = directives.any Node.isStrictDirective := by
  have hnone : items.any Node.isStrictDirective = false := by
    rw [List.any_eq_false]
    intro n hn
    simp [(h n hn).isStrictDirective]
  rw [List.any_append, hnone, Bool.or_false]

/-- The body of a function that was read in a context. -/
structure Bodied (c : Context) (body : Node) : Prop where
  sound : Sound { inFunction := true, strict := c.strict || body.isStrictBody } body
  allowed : body.isStrictBody = true → c.allowStrictDirective = true

/-- The body of a function was read, and its code may have turned out to be strict. -/
def Embodied (c : Context) (body : Node) (s : State) : Prop :=
  Under { c with strict := c.strict || body.isStrictBody } s ∧ Bodied c body

theorem functionBody_bodied : Leads env (Under c) (functionBody g) (Embodied c) := by
  refine .past <| .past <| .bind prologue_opens fun directives => .fact fun hopened => ?_
  refine .look fun before hb => ?_
  let inside : Context :=
    { c.opened directives with labels := [], inIteration := false, inSwitch := false, inFunction := true }
  refine .turns inside (fun _ h => ?_) <| .statements fun items hitems => .keeps fun _ => ?_
  · exact { h with labels := rfl, inIteration := rfl, inSwitch := rfl, inFunction := rfl }
  refine .turns (c.opened directives) (fun _ h => ?_) <| .closes fun info s h => ?_
  · exact { h with
      labels := hb.labels, inIteration := hb.inIteration, inSwitch := hb.inSwitch, inFunction := hb.inFunction }
  have hstrict : Node.isStrictBody ⟨info, .blockStatement (directives ++ items)⟩ =
      directives.any Node.isStrictDirective := any_isStrictDirective hitems
  refine ⟨?_, ?_, ?_⟩
  · rw [hstrict]
    exact h
  · rw [hstrict]
    refine .block fun n hn => ?_
    rcases List.mem_append.mp hn with hn | hn
    · exact hopened.free n hn _ rfl
    · exact (hitems n hn).sound
  · rw [hstrict]
    exact hopened.allowed

omit [Exact env] in
/-- The flags of what was read last do not matter to a body. -/
theorem isolate_bodied {p : Parse Node} (hp : Leads env (Under c) p (Embodied c)) :
    Leads env (Under c) (isolate p) (Embodied c) := by
  refine .look fun before _ => .past <| .bind hp fun body => .fact fun hbody => .keeps fun _ => ?_
  split
  · exact .fails_bind
  · refine .turns { c with strict := c.strict || body.isStrictBody } (fun _ h => { h with }) ?_
    exact .pure fun _ h => ⟨h, hbody⟩

/-! ## Functions -/

omit [Exact env] in
/-- Nothing is tolerated, so that in strict code nothing is left against the names after the check. -/
theorem Leads.checked {P : State → Prop} {R : β → State → Prop} {b : Bool}
    (q r : Offender → Parse Unit) [∀ o, Fails env (q o)] [∀ o, Fails env (r o)] {f : Unit → Parse β}
    (hf : (b = true → p.stricted = none ∧ p.restricted = none) → Leads env P (f ()) R) :
    Leads env P (do
      if b then
        if let .some o := p.restricted then q o
        if let .some o := p.stricted then r o
      f ()) R := by
  extract_lets rest stricted
  refine .ite (fun _ => ?_) fun hsloppy => hf fun h => absurd h hsloppy
  cases hr : p.restricted with
  | some => exact .fails_bind
  | none =>
    dsimp only [stricted]
    cases hs : p.stricted with
    | some => exact .fails_bind
    | none => exact hf fun _ => ⟨hs, hr⟩

omit [Exact env] in
/-- After the body of a function its parameters are checked, and the context is as before. -/
theorem Leads.judged {c before : Context} {body : Node} {x : β} (hp : Listed c.strict p)
    (hb : Kept c before) (q r : Offender → Parse Unit) [∀ o, Fails env (q o)] [∀ o, Fails env (r o)] :
    Leads env (Embodied { c with allowStrictDirective := p.simple } body) (do
      if (← context).strict then
        if let .some o := p.restricted then q o
        if let .some o := p.stricted then r o
      setContext fun c =>
        { c with strict := before.strict, allowStrictDirective := before.allowStrictDirective }
      return x) fun y s => Code c.strict [] s ∧ y = x ∧ Legal c.strict p.params body := by
  refine .fact fun hbody => .look fun d hd => ?_
  extract_lets rest
  refine .checked q r (f := rest) fun hnone => ?_
  refine .turns c (fun _ h => ?_) (.pure fun _ h => ⟨⟨h.strict, .nil⟩, rfl, ?_⟩)
  · exact { h with strict := hb.strict, allowStrictDirective := hb.allowStrictDirective }
  · exact hp.legal hbody.sound hbody.allowed fun h => hnone (hd.strict.trans h)

theorem functionTail_legal {name : FunctionName} : Leads env (Code strict []) (functionTail g name)
      fun x s => Code strict [] s ∧ Legal strict x.1 x.2 := by
  refine .bind parameters_listed fun p => .fact fun hp => .within fun c hc _ => .look fun before hb => ?_
  refine .turns { c with allowStrictDirective := p.simple } (fun _ h => { h with allowStrictDirective := rfl }) ?_
  subst hc
  refine .bind functionBody_bodied fun body => ?_
  refine .conclude (.judged hp hb (rejectOffender · _) (complainOffender · _)) fun x s ⟨hs, hx, hlegal⟩ => ?_
  exact ⟨hs, hx ▸ hlegal⟩

omit [Exact env] in
/-- The name of a function is what was read as one. -/
theorem checkFunctionName_id {id : Node} :
    Leads env (Code strict [id]) (checkFunctionName id t) fun name => Code strict name.id.toList := by
  refine .keeps fun c => .fork ?_ ?_
  · exact .pastIf .pure
  · exact .fork .pure <| .fork .pure .pure

namespace Expresses

instance (nameIsOptional : Bool) : Expresses env (functionDeclaration g nameIsOptional) := by
  refine ⟨fun strict => .past <| .keeps fun kind => .keeps fun _ => ?_⟩
  extract_lets rest
  have hrest name : Leads env (Code strict name.id.toList) (rest name) fun n =>
      Coded strict n := by
    refine .keeps fun before => .alters <| .notes functionTail_legal fun (params, body) hlegal => .alters ?_
    exact .formed fun _ hid => (Fine.functions hid hlegal).1
  refine .fork (.pure_bind (hrest {})) <| .keeps fun t => ?_
  exact .hears fun id => .bind checkFunctionName_id hrest

instance : Expresses env (functionExpression g) := by
  refine ⟨fun strict => .past <| .keeps fun kind => .keeps fun before => .alters <| .keeps fun _ => ?_⟩
  extract_lets rest
  have hrest name : Leads env (Code strict name.id.toList) (rest name) fun n =>
      Coded strict n := by
    refine .notes functionTail_legal fun (params, body) hlegal => .alters ?_
    exact .formed fun _ hid => (Fine.functions hid hlegal).2
  refine .fork (.pure_bind (hrest {})) <| .keeps fun t => .keeps fun _ => ?_
  refine .fork ?_ ?_
  · exact .hears fun id => .bind checkFunctionName_id hrest
  · exact .hears fun id => .bind checkFunctionName_id hrest

end Expresses

theorem methodBody_legal (hp : Listed strict p) : Leads env (Code strict []) (methodBody g p) fun body s =>
      Code strict [] s ∧ Legal strict p.params body := by
  refine .past <| .within fun c hc _ => .look fun before hb => ?_
  refine .turns { c with allowStrictDirective := p.simple } (fun _ h => { h with allowStrictDirective := rfl }) ?_
  subst hc
  refine .bind (isolate_bodied functionBody_bodied) fun body => ?_
  refine .conclude (.judged hp hb (complainOffender · _) (complainOffender · _)) fun x s ⟨hs, hx, hlegal⟩ => ?_
  exact ⟨hs, hx ▸ hlegal⟩

/-- Once its parameters are read, the kinds of methods differ in nothing that matters. -/
theorem methodTail_fine {kind : FunctionKind} {change : Context → Context}
    (hp : Listed strict p) (hc : ∀ c, (change c).strict = c.strict := by exact fun _ => rfl) :
    Leads env (Code strict []) (do
      let body ← methodBody g p
      setContext change
      finish m (.functionExpression kind none p.params body)) (Coded strict) := by
  refine .notes (methodBody_legal hp) fun body hlegal => .alters ?_ hc
  exact .formed fun _ _ => (Fine.functions .nil hlegal).2

namespace Expresses

instance : Expresses env (plainMethod g) where
  leads _ := .past <| .past <| .alters <| .notes parameters_listed fun _ hp => methodTail_fine hp

instance : Expresses env (asyncMethod g) where
  leads _ := .past <| .past <| .alters <| .notes parameters_listed fun _ hp => methodTail_fine hp

instance : Expresses env (getter g) := by
  refine ⟨fun _ => .past <| .past <| .alters <| .notes parameters_listed fun _ hp => .guard ?_⟩
  exact methodTail_fine hp

instance : Expresses env (setter g) := by
  refine ⟨fun strict => .past <| .past <| .alters <| .notes parameters_listed fun p hp => ?_⟩
  extract_lets rest
  have hrest : Leads env (Code strict []) (rest ()) (Coded strict) := methodTail_fine hp
  split
  · exact .when hrest
  · exact .fails_bind

instance : Expresses env (generatorMethod g) := by
  refine ⟨fun _ => .past <| .past <| .alters <| .notes parameters_listed fun _ hp => .alters ?_⟩
  exact methodTail_fine hp

end Expresses

end ScriptTree.Parse
