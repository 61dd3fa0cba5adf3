import ScriptTree.Proofs.Node.Residue
import ScriptTree.Proofs.Parse.Reads

/-! # The context around a rule

Rules overwrite parts of the context for what they read and put them back afterwards. `Kept` says which
parts are as before, `Since` adds what has become of the permission for yields, which depends on what was
read. A rule that returns no nodes changes neither (`Neutral`), and a rule that does leaves behind what its
result shows (`Restores`). -/

namespace ScriptTree.Parse

variable {n : Node} {stop : Parse Bool}

/-- All of the context is as before but for the flags of what was read last and the permission for
yields. -/
structure Kept (c d : Context) : Prop where
  isModule : d.isModule = c.isModule
  strict : d.strict = c.strict
  allowIn : d.allowIn = c.allowIn
  allowAwait : d.allowAwait = c.allowAwait
  allowStrictDirective : d.allowStrictDirective = c.allowStrictDirective
  inFunction : d.inFunction = c.inFunction
  inIteration : d.inIteration = c.inIteration
  inSwitch : d.inSwitch = c.inSwitch
  labels : d.labels = c.labels

/-- Nothing but the flags of what was read last has changed. -/
structure Same (c d : Context) : Prop extends Kept c d where
  allowYield : d.allowYield = c.allowYield

/-- From one permission for yields to a later one, with pieces of the program in between of which `r` is
left. It is never given, a getter takes it away, and if all that was read is known nothing else does. -/
structure Permits (r : Residue) (before after : Bool) : Prop where
  mono : after = true → before = true
  taken : r.getter = true → after = false
  kept : r = ∅ → after = before

/-- Since the context was `c`, pieces of the program were read of which `r` is left. -/
structure Since (c : Context) (r : Residue) (d : Context) : Prop extends Kept c d where
  allowYield : Permits r c.allowYield d.allowYield

variable {α β σ : Type} {env : Env} {c d e : Context} {r r' : Residue} {s s' : State}

theorem Kept.refl (c : Context) : Kept c c := ⟨rfl, rfl, rfl, rfl, rfl, rfl, rfl, rfl, rfl⟩

theorem Kept.trans (h : Kept c d) (h' : Kept d e) : Kept c e where
  isModule := h'.isModule.trans h.isModule
  strict := h'.strict.trans h.strict
  allowIn := h'.allowIn.trans h.allowIn
  allowAwait := h'.allowAwait.trans h.allowAwait
  allowStrictDirective := h'.allowStrictDirective.trans h.allowStrictDirective
  inFunction := h'.inFunction.trans h.inFunction
  inIteration := h'.inIteration.trans h.inIteration
  inSwitch := h'.inSwitch.trans h.inSwitch
  labels := h'.labels.trans h.labels

theorem Same.refl (c : Context) : Same c c := ⟨.refl c, rfl⟩

theorem Same.trans (h : Same c d) (h' : Same d e) : Same c e :=
  ⟨h.toKept.trans h'.toKept, h'.allowYield.trans h.allowYield⟩

theorem Same.of_eq (h : d = c) : Same c d := h ▸ .refl c

namespace Permits

theorem refl (b : Bool) : Permits ∅ b b := ⟨id, nofun, fun _ => rfl⟩

theorem getter (b : Bool) : Permits { getter := true } b false := ⟨nofun, fun _ => rfl, nofun⟩

end Permits

theorem since_iff : Since c r d ↔ (d.isModule = c.isModule ∧ d.strict = c.strict ∧ d.allowIn = c.allowIn ∧
    d.allowAwait = c.allowAwait ∧ d.allowStrictDirective = c.allowStrictDirective ∧ d.inFunction = c.inFunction ∧
    d.inIteration = c.inIteration ∧ d.inSwitch = c.inSwitch ∧ d.labels = c.labels) ∧
    Permits r c.allowYield d.allowYield :=
  ⟨fun h => ⟨⟨h.isModule, h.strict, h.allowIn, h.allowAwait, h.allowStrictDirective, h.inFunction, h.inIteration,
    h.inSwitch, h.labels⟩, h.allowYield⟩, fun h => ⟨⟨h.1.1, h.1.2.1, h.1.2.2.1, h.1.2.2.2.1, h.1.2.2.2.2.1,
    h.1.2.2.2.2.2.1, h.1.2.2.2.2.2.2.1, h.1.2.2.2.2.2.2.2.1, h.1.2.2.2.2.2.2.2.2⟩, h.2⟩⟩

theorem Same.since (h : Same c d) : Since c ∅ d := by
  refine ⟨h.toKept, ?_⟩
  rw [h.allowYield]
  exact .refl _

theorem Since.refl (c : Context) : Since c ∅ c := (Same.refl c).since

theorem Since.trans (h : Since c r d) (h' : Since d r' e) : Since c (r ∪ r') e := by
  refine ⟨h.toKept.trans h'.toKept, fun he => ?_, fun hg => ?_, fun hr => ?_⟩
  · exact h.allowYield.mono (h'.allowYield.mono he)
  · rcases Bool.or_eq_true_iff.mp hg with hg | hg
    · have hd := h.allowYield.taken hg
      refine Bool.eq_false_iff.mpr fun he => ?_
      rw [h'.allowYield.mono he] at hd
      cases hd
    · exact h'.allowYield.taken hg
  · obtain ⟨hr, hr'⟩ := Residue.union_eq_empty.mp hr
    rw [h'.allowYield.kept hr', h.allowYield.kept hr]

theorem Since.same (h : Since c r d) (h' : Same d e) : Since c r e := by
  have hboth : Since c (r ∪ ∅) e := h.trans h'.since
  rwa [Residue.union_empty] at hboth

/-! ## Rules that change nothing -/

/-- The rule changes no more of the context than the flags of what was read last. -/
class Neutral (p : Parse α) : Prop where
  same : ∀ {env : Env} {s s' : State} {a : α}, Returns p env s a s' → Same s.context s'.context

namespace Neutral

variable {p : Parse α}

theorem bind {f : α → Parse β} [Neutral p] (hf : ∀ a, Neutral (f a) := by infer_instance) : Neutral (p >>= f) where
  same h := by
    obtain ⟨a, u, h₁, h₂⟩ := h.bind
    exact (same h₁).trans ((hf a).same h₂)

instance [hp : Inspects p] : Neutral p := ⟨fun h => .of_eq (by rw [hp.eq h])⟩

instance (a : α) : Neutral (pure a : Parse α) := inferInstance

instance (p : Parse α) (f : α → Parse β) [Neutral p] [∀ a, Neutral (f a)] : Neutral (p >>= f) :=
  bind inferInstance

instance (b : Prop) [Decidable b] (p q : Parse α) [Neutral p] [Neutral q] : Neutral (if b then p else q) := by
  split <;> assumption

theorem of_modify {f : State → State} (hf : ∀ s, Same s.context (f s).context) : Neutral (modify f : Parse Unit) where
  same h := by
    obtain rfl := returns_modify.mp h
    exact hf _

instance (m : State → Mark) : Neutral (modify fun s => { s with startMark := m s } : Parse Unit) :=
  of_modify fun _ => .refl _

instance (m : State → Mark) : Neutral (modify fun s => { s with lastMark := m s } : Parse Unit) :=
  of_modify fun _ => .refl _

/-- Only the flags are set. -/
theorem of_setContext {f : Context → Context} (hf : ∀ c, Same c (f c)) : Neutral (setContext f) :=
  of_modify fun s => hf s.context

/-- The scan knows nothing of the context. -/
instance (p : Scan α) : Neutral (scan p) where
  same h := by
    obtain ⟨d, -, rfl⟩ := returns_scan.mp h
    exact .refl _

instance : Neutral next where
  same h := by
    obtain ⟨-, ms, c, k, h⟩ := next_moves h
    exact .of_eq h.context

instance : Neutral nextRegex where
  same h := by
    obtain ⟨ms, c, u, hr, h⟩ := nextRegex_rescans h
    exact (Same.of_eq hr.context).trans (same h)

instance : Neutral takeComments where
  same h := by
    obtain ⟨ms, -, hs, -⟩ := takeComments_returns h
    exact .of_eq (by rw [hs])

instance (t : Token) : Neutral (listToken t) where
  same h := .of_eq (by rw [listToken_returns h])

instance (start : Mark) (shape : Shape Node) : Neutral (finish start shape) where
  same h := .of_eq (by rw [(finish_returns h).1])

instance : Neutral peekNext := by unfold peekNext; infer_instance

/-! Questions, complaints and demands. -/

instance : Neutral seesAsyncFunction := .bind
instance : Neutral seesImportCall := .bind
instance : Neutral seesLexicalDeclaration := by
  refine bind fun t => ?_
  split <;> infer_instance
instance : Neutral skip := .bind
instance : Neutral unlistToken := of_modify fun _ => .refl _

instance (m : Message) (parts : List Text) : Neutral (complain m parts) := .bind
instance (t : Token) (m : Option Message) : Neutral (complainToken t m) := .bind
instance (o : Offender) (m : Option Message) : Neutral (complainOffender o m) := .bind
instance (p : Parse α) [∀ env, Fails env p] : Neutral p where
  same := by
    intro env s s' a h
    exact absurd h Fails.fails

instance (mark : String) : Neutral (expect mark) := .bind
instance (word : String) : Neutral (expectWord word) := .bind
instance : Neutral expectArrow := .bind
instance : Neutral expectComma := .bind
instance : Neutral semicolon := .bind

instance (b : Bool) : Neutral (setContext fun c => { c with isTarget := b }) :=
  of_setContext fun _ => { Same.refl _ with }
instance (b : Bool) : Neutral (setContext fun c => { c with isBinding := b }) :=
  of_setContext fun _ => { Same.refl _ with }
instance (o : Option Token) : Neutral (setContext fun c => { c with coverError := o }) :=
  of_setContext fun _ => { Same.refl _ with }
instance : Neutral onlyValue := of_setContext fun _ => { Same.refl _ with }
instance : Neutral onlyTarget := of_setContext fun _ => { Same.refl _ with }
instance : Neutral freshCover := of_setContext fun _ => { Same.refl _ with }

end Neutral

/-! ## Rules that leave behind what their results show -/

/-- What is left of a result. -/
class Leaves (α : Type) where
  residue : α → Residue

export Leaves (residue)

instance : Leaves Node := ⟨Node.residue⟩
instance : Leaves Bool := ⟨fun _ => ∅⟩
instance : Leaves Token := ⟨fun _ => ∅⟩
instance [Leaves α] : Leaves (Option α) := ⟨fun a => .unions (a.toList.map residue)⟩
instance [Leaves α] : Leaves (List α) := ⟨fun as => .unions (as.map residue)⟩
instance [Leaves α] [Leaves β] : Leaves (α × β) := ⟨fun a => residue a.1 ∪ residue a.2⟩

@[simp] theorem residue_node (n : Node) : residue n = n.residue := rfl
@[simp] theorem residue_bool (b : Bool) : residue b = ∅ := rfl
@[simp] theorem residue_token (t : Token) : residue t = ∅ := rfl
@[simp] theorem residue_option (n : Option Node) :
    residue n = .unions (n.toList.map Node.residue) := rfl
theorem residue_some (n : Node) : residue (some n) = n.residue := Residue.union_empty _
@[simp] theorem residue_list (ns : List Node) : residue ns = .unions (ns.map Node.residue) := rfl
@[simp] theorem residue_pair [Leaves α] [Leaves β] (a : α) (b : β) :
    residue (a, b) = residue a ∪ residue b := rfl

instance [Leaves σ] [Leaves α] : Leaves (Round σ α) where
  residue
    | .again x => residue x
    | .done a => residue a

@[simp] theorem residue_again [Leaves σ] [Leaves α] (x : σ) : residue (.again x : Round σ α) = residue x := rfl
@[simp] theorem residue_done [Leaves σ] [Leaves α] (a : α) : residue (.done a : Round σ α) = residue a := rfl

@[simp] theorem residue_tokens (ts : List Token) : residue ts = ∅ := by
  induction ts with
  | nil => rfl
  | cons t ts ih => exact ih

@[simp] theorem residue_holes (ns : List (Option Node)) :
    residue ns = .unions ((ns.filterMap id).map Node.residue) := by
  induction ns with
  | nil => rfl
  | cons n ns ih =>
    show residue n ∪ residue ns = _
    cases n <;> simp [ih]

/-- Nodes with something besides that leaves nothing behind. -/
@[simp] theorem residue_pairs [Leaves α] (hα : ∀ a : α, residue a = ∅) (xs : List (Node × α)) :
    residue xs = .unions ((xs.map Prod.fst).map Node.residue) := by
  induction xs with
  | nil => rfl
  | cons x xs ih =>
    obtain ⟨n, a⟩ := x
    show n.residue ∪ residue a ∪ residue xs = _
    rw [ih, hα, Residue.union_empty]
    rfl

/-- After the rule the context is as it was before it, but for what its result leaves behind. -/
class Restores [Leaves α] (env : Env) (p : Parse α) : Prop where
  since : ∀ {s s' : State} {a : α}, Returns p env s a s' → Since s.context (residue a) s'.context

/-- Since the context was `c`, pieces of the program were read of which `r` is left. -/
def After (c : Context) (r : Residue) (s : State) : Prop := Since c r s.context

abbrev Leaving {α : Type} [Leaves α] (c : Context) (a : α) : State → Prop := After c (residue a)

/-- Something is missing in the tree, and what is left is in the rest of it. -/
theorem After.hide (h : After c r s) (hg : r'.getter = true → r.getter = true) (hh : r'.hides = true) :
    After c r' s := by
  refine { h with allowYield := ⟨h.allowYield.mono, fun hg' => h.allowYield.taken (hg hg'), fun he => ?_⟩ }
  rw [he] at hh
  cases hh

theorem After.of_eq (h : After c r s) (hr : r' = r) : After c r' s := hr ▸ h

theorem Restores.of_leads [Leaves α] {p : Parse α} (h : ∀ c, Leads env (After c ∅) p (Leaving c)) : Restores env p where
  since := @fun s s' a hp => h s.context s a s' (.refl _) hp

theorem eq_of_isMark {l : Lexeme} {mark : String} (h : l.isMark mark = true) : l = .punctuator mark := by
  cases l with
  | punctuator m => exact congrArg _ (beq_iff_eq.mp h)
  | _ => cases h

/-- A finished node has the shape that it is given, unless it is an identifier that a delegate has
replaced. -/
theorem finish_shape {m : Mark} {shape : Shape Node} (h : Returns (finish m shape) env s n s') :
    n.info.cover = none ∧ (n.shape = shape ∨ ∃ name new, shape = .identifier name ∧ n.shape = .identifier new) := by
  obtain ⟨-, id, rfl⟩ := finish_makes h
  unfold nodeAt
  split
  · split
    · exact ⟨rfl, .inr ⟨_, _, rfl, rfl⟩⟩
    · exact ⟨rfl, .inl rfl⟩
  · exact ⟨rfl, .inl rfl⟩

theorem shape_of_finish {m : Mark} {shape : Shape Node} (h : Returns (finish m shape) env s n s')
    (hs : ∀ name, shape ≠ .identifier name := by intro _ h; cases h) : n.shape = shape := by
  refine (finish_shape h).2.resolve_right ?_
  rintro ⟨name, _, hn, -⟩
  exact hs name hn

theorem finish_summary {m : Mark} {shape : Shape Node} (h : Returns (finish m shape) env s n s') :
    n.summary = (Node.bare shape).summary := by
  obtain ⟨info, shape'⟩ := n
  obtain ⟨hc, hs⟩ := finish_shape h
  rcases hs with rfl | ⟨name, new, rfl, rfl⟩
  · exact Node.summary_congr hc
  · rfl

namespace Leads

variable {a : α} {change : Context → Context} {round : σ → Parse (Round σ α)} {x : σ} {p : Parse α} {f : α → Parse β}
  {P : State → Prop} {Q : α → State → Prop} {R : β → State → Prop} {b : Prop} [Decidable b] {shape : Shape Node}
  {m : Mark}

/-- Something that holds for one value or another. -/
theorem some {ι : Type} {P : ι → State → Prop} (h : ∀ i, Leads env (P i) p Q) :
    Leads env (fun s => ∃ i, P i s) p Q := by
  rintro s a s' ⟨i, hs⟩
  exact h i s a s' hs

theorem conclude {Q' : α → State → Prop} (h : Leads env P p Q) (hQ : ∀ a s, Q a s → Q' a s) :
    Leads env P p Q' := by
  intro s a s' hs hp
  exact hQ a s' (h s a s' hs hp)

instance [Neutral p] : Keeps env (After c r) p := ⟨fun _ _ _ hs h => Since.same hs (Neutral.same h)⟩

/-- The context is remembered. -/
theorem before {f : Context → Parse β} (hf : ∀ d, Since c r d → Leads env (After c r) (f d) R) :
    Leads env (After c r) (context >>= f) R := by
  intro s b s' hs h
  exact hf s.context hs s b s' hs (h.first rfl)

/-- The context is changed, and with it what is left of the pieces before. -/
theorem resets {f : Unit → Parse β} (d : Context) (r' : Residue)
    (hd : ∀ e, Since c r e → Since d r' (change e)) (hf : Leads env (After d r') (f ()) R) :
    Leads env (After c r) (setContext change >>= f) R := by
  intro s b s' hs h
  exact hf { s with context := change s.context } b s' (hd _ hs) h.modify

/-- The context is changed. -/
theorem sets {f : Unit → Parse β} (d : Context)
    (hd : ∀ e, Since c r e → Since d r (change e)) (hf : Leads env (After d r) (f ()) R) :
    Leads env (After c r) (setContext change >>= f) R :=
  .resets d r hd hf

/-- The context is changed, and what was read before has had no part in that. -/
theorem shifts {f : Unit → Parse β} (hd : ∀ e, Since c r e → Since (change c) r (change e))
    (hf : Leads env (After (change c) r) (f ()) R) : Leads env (After c r) (setContext change >>= f) R :=
  .resets _ r hd hf

theorem shiftsAll {f : Unit → Parse β} (hd : ∀ e, Since c r e → Since (change c) ∅ (change e))
    (hf : Leads env (After (change c) ∅) (f ()) R) : Leads env (After c r) (setContext change >>= f) R :=
  .resets _ ∅ hd hf

/-- The context is what it was before the rule again. -/
theorem reverts [Leaves β] {f : Unit → Parse β} (hd : ∀ e, Since d r e → Since c r (change e))
    (hf : Leads env (After c r) (f ()) (Leaving c)) : Leads env (After d r) (setContext change >>= f) (Leaving c) :=
  .resets c r hd hf

theorem revertsAll {f : Unit → Parse β} {F : β → Prop}
    (hd : ∀ e, Since d r e → Since c ∅ (change e)) (hf : Leads env (After c ∅) (f ()) fun b s => After c ∅ s ∧ F b) :
    Leads env (After d r) (setContext change >>= f) fun b s => After c ∅ s ∧ F b :=
  .resets c ∅ hd hf

/-- A loop that starts with what was read before it. -/
theorem circles [Leaves σ] [Leaves α] (hx : r = residue x) (step : ∀ x, Leads env (Leaving c x) (round x) (Leaving c)) :
    Leads env (After c r) (Parse.loop x round) (Leaving c) := by
  refine .loop (Leaving c) (fun _ h => h.of_eq hx.symm) fun x => .conclude (step x) fun y s h => ?_
  cases y <;> exact h

theorem circlesThen [Leaves σ] [Leaves α] (hx : r = residue x)
    (step : ∀ x, Leads env (Leaving c x) (round x) (Leaving c)) (hf : ∀ a, Leads env (Leaving c a) (f a) R) :
    Leads env (After c r) (Parse.loop x round >>= f) R :=
  .bind (.circles hx step) hf

/-- A first step that leaves something behind. -/
theorem leaves [Leaves α] [Restores env p] (hf : ∀ a, Leads env (After c (r ∪ residue a)) (f a) R) :
    Leads env (After c r) (p >>= f) R := by
  intro s b s' hs h
  obtain ⟨a, u, h₁, h₂⟩ := h.bind
  exact hf a u b s' (Since.trans hs (Restores.since h₁)) h₂

/-- A loop that starts with nothing. -/
theorem cycles [Leaves σ] [Leaves α] (hx : ∅ = residue x) (step : ∀ c x, Leads env (Leaving c x) (round x) (Leaving c))
    (hf : ∀ a, Leads env (After c (r ∪ residue a)) (f a) R) : Leads env (After c r) (Parse.loop x round >>= f) R :=
  have := Restores.of_leads fun c => circles hx (step c)
  .leaves hf

/-- The last step. -/
theorem left [Leaves α] [Restores env p] : Leads env (After c ∅) p (Leaving c) := by
  intro s a s' hs h
  exact Since.trans hs (Restores.since h)

/-- All that was read is in the result. -/
theorem shown [Leaves α] (hr : r = residue a) : Leads env (After c r) (Pure.pure a) (Leaving c) := by
  subst hr
  exact .pure

/-- A node in between. -/
theorem makes {f : Node → Parse β}
    (hf : ∀ n : Node, n.summary = (Node.bare shape).summary → Leads env (After c r) (f n) R) :
    Leads env (After c r) (Parse.finish m shape >>= f) R := by
  intro s b s' hs h
  obtain ⟨n, u, h₁, h₂⟩ := h.bind
  exact hf n (finish_summary h₁) u b s' (Since.same hs (Neutral.same h₁)) h₂

theorem builds {f : Node → Parse β}
    (hf : ∀ n : Node, n.residue = .unions (shape.children.map Node.residue) → Leads env (After c r) (f n) R)
    (hs : shape.isOrdinary = true := by rfl) :
    Leads env (After c r) (Parse.finish m shape >>= f) R :=
  .makes fun n hn => hf n ((congrArg Node.Summary.own hn).trans (Node.residue_ordinary hs))

/-- All that was read is in the node. -/
theorem endsAs (hr : r = (Node.bare shape).residue) : Leads env (After c r) (Parse.finish m shape) (Leaving c) := by
  intro s n s' hs h
  have hn : n.residue = r := (congrArg Node.Summary.own (finish_summary h)).trans hr.symm
  have hs' := Since.same hs (Neutral.same h)
  rw [← hn] at hs'
  exact hs'

theorem ends (hr : r = .unions (shape.children.map Node.residue)) (hs : shape.isOrdinary = true := by rfl) :
    Leads env (After c r) (Parse.finish m shape) (Leaving c) :=
  .endsAs (hr.trans (Node.residue_ordinary hs).symm)

/-- A node with something besides that leaves nothing behind. -/
theorem endsPairAs [Leaves α] (hr : r = (Node.bare shape).residue) (ha : residue a = ∅ := by simp) :
    Leads env (After c r) (Parse.finish m shape >>= fun n => Pure.pure (n, a)) (Leaving c) := by
  refine .bind (.endsAs hr) fun n => .shown ?_
  rw [residue_pair, ha, Residue.union_empty]

theorem endsPair [Leaves α]
    (hr : r = .unions (shape.children.map Node.residue)) (hs : shape.isOrdinary = true := by rfl)
    (ha : residue a = ∅ := by simp) :
    Leads env (After c r) (Parse.finish m shape >>= fun n => Pure.pure (n, a)) (Leaving c) :=
  .endsPairAs (hr.trans (Node.residue_ordinary hs).symm) ha

end Leads

/-- A rule whose first step leaves the context alone. -/
theorem Restores.after [Leaves β] {p : Parse α} {f : α → Parse β} [Neutral p]
    (h : ∀ c {a}, Leads env (After c ∅) (f a) (Leaving c)) : Restores env (p >>= f) :=
  .of_leads fun c => .past (h c)

namespace Restores

variable [Leaves α] {p : Parse α}

instance [Restores env p] : Restores env (some <$> p) where
  since h := by
    obtain ⟨a, ha, rfl⟩ := returns_map.mp h
    have hr : residue (some a) = residue a := Residue.union_empty _
    rw [hr]
    exact since ha

@[simp] theorem residue_reverse (as : List α) : residue as.reverse = residue as := by
  show Residue.unions (as.reverse.map residue) = Residue.unions (as.map residue)
  rw [List.map_reverse, Residue.unions_reverse]

instance {q : Parse α} {b : Prop} [Decidable b] [Restores env p] [Restores env q] :
    Restores env (if b then p else q) := by
  split <;> assumption

/-- Items are collected in reverse. -/
instance [Neutral stop] [Restores env p] : Restores env (until' stop p) := by
  refine .of_leads fun c => ?_
  let I (found : List α) := Leaving c found
  refine .loops (Q := I) I (fun _ h => h) (fun found => .keeps fun _ => ?_) fun found => ?_
  · refine .fork .pure <| .leaves fun a => .pure fun _ h => h.of_eq ?_
    exact Residue.union_comm ..
  · exact .shown (residue_reverse found).symm

end Restores

/-- Items that a rule without a name reads. -/
theorem Leads.gathers [Leaves α] [Neutral stop] {p : Parse α} {f : List α → Parse β}
    {R : β → State → Prop} (hp : Restores env p)
    (hf : ∀ as, Leads env (After c (r ∪ residue as)) (f as) R) :
    Leads env (After c r) (until' stop p >>= f) R :=
  .leaves hf

/-- The rule goes on with what is known of what was read before it, and its result takes that in. -/
class Carries [Leaves α] (env : Env) (r : outParam Residue) (p : Parse α) : Prop where
  leads : ∀ c, Leads env (After c r) p (Leaving c)

theorem Leads.carried [Leaves α] {p : Parse α} [h : Carries env r' p] (hr : r = r') :
    Leads env (After c r) p (Leaving c) :=
  hr ▸ h.leads c

theorem Leads.carries [Leaves α] {p : Parse α} {f : α → Parse β} {R : β → State → Prop} [Carries env r' p] (hr : r = r')
    (hf : ∀ a, Leads env (Leaving c a) (f a) R) : Leads env (After c r) (p >>= f) R :=
  .bind (.carried hr) hf

/-- Rules that are put together from others in the usual ways. -/
theorem Leads.restoring {p : Parse α} {Q : α → State → Prop} (h : Leads env (After c r) p Q := by
    repeat' first
      | with_reducible refine Prod.forall.mpr fun _ => ?_
      | with_reducible intro _
      | with_reducible exact .left
      | with_reducible exact .fails
      | with_reducible exact .fails_bind
      | (with_reducible refine .ends ?_ ?_) <;> first | rfl | (simp [*, Residue.union_assoc]; done) | (simp [*]; ac_rfl)
      | (with_reducible refine .endsPair ?_ ?_ ?_) <;> first | rfl | (simp [*, Residue.union_assoc]; done) | (simp [*]; ac_rfl)
      | (with_reducible refine .shown ?_) <;>
          first | rfl | (simp [*, Residue.union_assoc, Function.comp_def]; done) | (simp [*]; ac_rfl)
      | (with_reducible refine .builds ?_ ?_); rotate_left; rfl
      | with_reducible refine .pastIf ?_
      | with_reducible refine .fork ?_ ?_
      | with_reducible refine .pure_bind ?_
      | with_reducible refine .before ?_
      | with_reducible refine .past ?_
      | (with_reducible refine .endsPlain ?_); rfl
      | with_reducible refine .plain ?_
      | with_reducible refine .hardens ?_
      | with_reducible refine .leaves ?_
      | (with_reducible refine .circlesThen ?_ ?_ ?_); focus (first | rfl | (simp [*]; done))
      | (with_reducible refine .circles ?_ ?_); focus (first | rfl | (simp [*]; done))
      | (with_reducible refine .cycles ?_ ?_ ?_); rfl
      | (with_reducible refine .reverts ?_ ?_); focus
          (simp_all only [since_iff, Permits.refl, List.erase_cons_head, eq_self, and_self, and_true, true_and, implies_true]; done)
      | (with_reducible refine .revertsAll ?_ ?_); focus
          (simp_all only [since_iff, Permits.refl, List.erase_cons_head, eq_self, and_self, and_true, true_and, implies_true]; done)
      | (with_reducible refine .shifts ?_ ?_); focus
          (simp_all only [since_iff, Permits.refl, List.erase_cons_head, eq_self, and_self, and_true, true_and, implies_true]; done)
      | (with_reducible refine .shiftsAll ?_ ?_); focus
          (simp_all only [since_iff, Permits.refl, List.erase_cons_head, eq_self, and_self, and_true, true_and, implies_true]; done)
      | (with_reducible refine .gathers (.of_leads fun _ => ?_) ?_)
      | (with_reducible refine .carries ?_ ?_); focus (first | rfl | (simp [*]; done))
      | (with_reducible refine .carried ?_); focus (first | rfl | (simp [*]; done))
      | dsimp only
      | unfold enterFunction
      | unfold leaveFunction
      | split
      | refine .before ?_
      | refine .past ?_
      | refine .leaves ?_) : Leads env (After c r) p Q := h

theorem Carries.routine [Leaves α] {p : Parse α}
    (h : ∀ c, Leads env (After c r) p (Leaving c) := by exact fun _ => .restoring) : Carries env r p := ⟨h⟩

theorem Restores.routine [Leaves α] {p : Parse α}
    (h : ∀ c, Leads env (After c ∅) p (Leaving c) := by exact fun _ => .restoring) : Restores env p := .of_leads h

end ScriptTree.Parse
