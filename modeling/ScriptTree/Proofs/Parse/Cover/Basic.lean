import ScriptTree.Proofs.Node.Proper
import ScriptTree.Proofs.Parse.Context.Basic

/-! # What a rule has read, and the arrow after it

Expressions in parentheses may turn out to be parameters, and then an arrow comes next. No rule but the one
for arrow functions takes an arrow. So what has been read is only known to be proper if no arrow is ahead,
and the next token that is taken settles it (`Ahead`). In the same way the flags of the context tell what an
expression passes for.

A rule that `Builds` nodes settles what was read before it, and leaves its own nodes open to question until
a token is taken after them. A rule that `Grades` an expression leaves flags that are true of it as well. -/

namespace ScriptTree.Parse

variable {P : Prop} {shape : Shape Node} {m : Mark} {src : Source} {word : String}

def Arrow (t : Token) : Prop := t.lexeme = .punctuator "=>"

/-- The token stands in the source, and ends at an offset. -/
structure Stands (src : Source) (t : Token) (stop : Nat) : Prop where
  mark : ∀ m ∈ Scan.singleMarks ++ Scan.longMarks, t.lexeme = .punctuator m →
    src.hasAt t.start m = true ∧ stop = t.start + m.length
  word : (isNameToken t.lexeme || t.lexeme.isMark "*") = true → src.HasWord t.start stop

/-- The token ahead stands where it says, and if an arrow stands there it is one. -/
structure Sight (env : Env) (t : Token) (s : State) : Prop where
  lookahead : s.lookahead = t
  start : s.startMark.index = t.start
  stands : Stands env.source t s.cursor.index
  arrow : env.source.hasAt t.start "=>" = true → Arrow t

/-- The token is ahead. Unless it is an arrow, something holds, and the flags of the context for targets and
for parameters vouch for two other things. -/
structure Ahead (env : Env) (T B F : Prop) (t : Token) (s : State) : Prop extends Sight env t s where
  fact : ¬ Arrow t → F
  target : ¬ Arrow t → s.context.isTarget = true → T
  binding : ¬ Arrow t → s.context.isBinding = true → B

/-- The token is ahead, and the flags vouch for two things whatever token it is. -/
structure Vouched (env : Env) (T B : Prop) (t : Token) (s : State) : Prop extends Sight env t s where
  target : s.context.isTarget = true → T
  binding : s.context.isBinding = true → B

/-- What is known of the token ahead, whichever it is. -/
def Reached (env : Env) (T B F : Prop) (s : State) : Prop := ∃ t, Ahead env T B F t s

/-- What a rule leads to from before a token. -/
abbrev Faces {α : Type} (env : Env) (T B F : Prop) (t : Token) (p : Parse α) (Q : α → State → Prop) : Prop :=
  Leads env (Ahead env T B F t) p Q

variable {α β : Type} {env : Env} {T B F U V F' : Prop} {t : Token} {s s' : State}

theorem not_arrow_of_isMark {m : String} (h : t.lexeme.isMark m = true) (hm : m ≠ "=>") : ¬ Arrow t := by
  intro ha
  rw [ha] at h
  exact hm (beq_iff_eq.mp h).symm

theorem not_arrow_of_punctuator {m : String} (h : t.lexeme = .punctuator m) (hm : m ≠ "=>" := by decide) : ¬ Arrow t :=
  fun ha => hm (Lexeme.punctuator.inj (h.symm.trans ha))

theorem Arrow.isMark (h : Arrow t) : t.lexeme.isMark "=>" = true := by
  rw [h]
  rfl

theorem not_arrow_of_any {ms : List String} (h : ms.any t.lexeme.isMark = true) (hm : "=>" ∉ ms := by decide) :
    ¬ Arrow t := by
  obtain ⟨m, hmem, h⟩ := List.any_eq_true.mp h
  exact not_arrow_of_isMark h fun he => hm (he ▸ hmem)

theorem not_arrow_of_isName {name : String} (h : t.lexeme.isName name = true) : ¬ Arrow t := by
  intro ha
  rw [ha] at h
  cases h

theorem eq_of_isWord {l : Lexeme} (h : l.isWord word = true) : l = .keyword word := by
  cases l with
  | keyword w => exact congrArg _ (beq_iff_eq.mp h)
  | _ => cases h

theorem not_arrow_of_isWord (h : t.lexeme.isWord word = true) : ¬ Arrow t := by
  intro ha
  rw [ha] at h
  cases h

theorem not_arrow_of_anyWord {ws : List String} (h : ws.any t.lexeme.isWord = true) : ¬ Arrow t :=
  (List.any_eq_true.mp h).elim fun _ h => not_arrow_of_isWord h.2

/-- The token after the one that is taken. Between them there is a gap. -/
theorem next_sight (h : Returns next env s t s') :
    t = s.lookahead ∧ Sight env s'.lookahead s' ∧ s'.context = s.context ∧
      env.source.Gap s.cursor.index s'.lookahead.start := by
  obtain ⟨rfl, ms, c, k, hm⟩ := next_moves h
  have hstart : s'.lookahead.start = c.index := by
    rw [hm.lookahead]
    exact (Scan.next_start hm.scanned : k.start = c.index)
  refine ⟨rfl, ⟨rfl, hm.start.trans hstart.symm, ⟨fun m hmem hl => ?_, fun hl => ?_⟩, fun ha => ?_⟩, hm.context, ?_⟩
  · rw [hm.lookahead] at hl
    rw [hstart]
    exact Scan.next_mark hmem hm.scanned (reserve_eq_punctuator.mp hl)
  · refine ⟨settings env s, c, s'.cursor, k, rfl, hstart.symm, rfl, ?_, hm.scanned⟩
    rw [hm.lookahead] at hl
    revert hl
    cases k.lexeme with
    | identifier => exact fun _ => rfl
    | _ => exact id
  · rw [hstart] at ha
    have hk : k.lexeme = .punctuator "=>" := by
      refine Scan.next_arrow ?_ hm.scanned
      exact ha
    rw [Arrow, hm.lookahead, hk]
    rfl
  · exact ⟨settings env s, s.cursor, c, ms, rfl, rfl, hstart.symm, hm.skipped⟩

namespace Ahead

/-- What is vouched for is known to imply something else. -/
theorem imp (h : Ahead env T B F t s) (hT : F → T → U) (hB : F → B → V) (hF : F → F') : Ahead env U V F' t s :=
  { h with
    fact := fun ha => hF (h.fact ha)
    target := fun ha ht => hT (h.fact ha) (h.target ha ht)
    binding := fun ha hb => hB (h.fact ha) (h.binding ha hb) }

/-- The flags of the context are others. -/
theorem reset (h : Ahead env T B F t s) {c : Context} (hT : (s.context.isTarget = true → T) → c.isTarget = true → U)
    (hB : (s.context.isBinding = true → B) → c.isBinding = true → V) :
    Ahead env U V F t { s with context := c } :=
  { h with
    target := fun ha => hT (h.target ha)
    binding := fun ha => hB (h.binding ha) }

theorem reached (h : Ahead env T B F t s) : Reached env T B F s := ⟨t, h⟩

/-- With new flags, what the flags before vouch for is settled together with what was read before. -/
theorem fresh (h : Ahead env T B F t s) :
    Reached env True True (F ∧ (s.context.isTarget = true → T) ∧ (s.context.isBinding = true → B))
      { s with context := { s.context with isTarget := true, isBinding := true, coverError := none } } :=
  ⟨t, { h with
    fact := fun ha => ⟨h.fact ha, h.target ha, h.binding ha⟩
    target := fun _ _ => trivial
    binding := fun _ _ => trivial }⟩

/-- Something else is known. -/
theorem known (h : Ahead env T B F t s) (hF : F → F') : Reached env T B F' s :=
  ⟨t, h.imp (fun _ => id) (fun _ => id) hF⟩

theorem vouched (h : Ahead env T B F t s) (ha : ¬ Arrow t) : Vouched env T B t s :=
  { h with
    target := h.target ha
    binding := h.binding ha }

end Ahead

theorem Vouched.ahead (h : Vouched env T B t s) : Ahead env T B True t s :=
  { h with
    fact := fun _ => trivial
    target := fun _ => h.target
    binding := fun _ => h.binding }

/-- Before an arrow there is nothing to know. -/
theorem Sight.beforeArrow (h : Sight env t s) (ha : Arrow t) : Ahead env T B F t s :=
  { h with
    fact := fun hn => absurd ha hn
    target := fun hn => absurd ha hn
    binding := fun hn => absurd ha hn }

theorem Reached.known (h : Reached env T B F s) (hF : F → F') : Reached env T B F' s :=
  h.elim fun _ h => h.known hF

/-- A node starts at its mark and ends with the last token. -/
theorem finish_range {m : Mark} {shape : Shape Node} {n : Node} (h : Returns (finish m shape) env s n s') :
    ∀ r ∈ n.info.range, r = ⟨m.index, s.lastMark.index⟩ := by
  obtain ⟨-, id, rfl⟩ := finish_makes h
  have hinfo : ∀ r ∈ (infoAt env m s.lastMark).range, r = ⟨m.index, s.lastMark.index⟩ := by
    intro r hr
    unfold infoAt at hr
    split at hr <;> cases hr
    rfl
  intro r hr
  unfold nodeAt at hr
  split at hr
  · split at hr
    · cases hr
    · exact hinfo r hr
  · exact hinfo r hr

/-! ## Steps that take no token -/

/-- Neither the token ahead nor the flags have changed. -/
structure Rests (s s' : State) : Prop where
  lookahead : s'.lookahead = s.lookahead
  start : s'.startMark.index = s.startMark.index
  index : s'.cursor.index = s.cursor.index
  isTarget : s'.context.isTarget = s.context.isTarget
  isBinding : s'.context.isBinding = s.context.isBinding

theorem Rests.refl (s : State) : Rests s s := ⟨rfl, rfl, rfl, rfl, rfl⟩

theorem Rests.trans {u : State} (h : Rests s u) (h' : Rests u s') : Rests s s' :=
  ⟨h'.lookahead.trans h.lookahead, h'.start.trans h.start, h'.index.trans h.index,
    h'.isTarget.trans h.isTarget, h'.isBinding.trans h.isBinding⟩

theorem Sight.rests (h : Sight env t s) (hs : Rests s s') : Sight env t s' where
  lookahead := hs.lookahead.trans h.lookahead
  start := hs.start.trans h.start
  stands := hs.index ▸ h.stands
  arrow := h.arrow

theorem Ahead.rests (h : Ahead env T B F t s) (hs : Rests s s') : Ahead env T B F t s' :=
  { h.toSight.rests hs with
    fact := h.fact
    target := hs.isTarget ▸ h.target
    binding := hs.isBinding ▸ h.binding }

theorem Vouched.rests (h : Vouched env T B t s) (hs : Rests s s') : Vouched env T B t s' :=
  { h.toSight.rests hs with
    target := hs.isTarget ▸ h.target
    binding := hs.isBinding ▸ h.binding }

/-- The rule leaves the token ahead and the flags as they are. -/
class Idle (env : Env) (p : Parse α) : Prop where
  rests : ∀ {s a s'}, Returns p env s a s' → Rests s s'

namespace Idle

variable {p : Parse α}

theorem bind {f : α → Parse β} [Idle env p] (hf : ∀ a, Idle env (f a)) : Idle env (p >>= f) where
  rests h := by
    obtain ⟨a, u, h₁, h₂⟩ := h.bind
    exact (rests h₁).trans ((hf a).rests h₂)

instance (p : Parse α) (f : α → Parse β) [Idle env p] [∀ a, Idle env (f a)] : Idle env (p >>= f) :=
  bind inferInstance

instance (p : Parse α) [Fails env p] : Idle env p := ⟨fun h => absurd h Fails.fails⟩

instance [hp : Inspects p] : Idle env p := ⟨fun h => hp.eq h ▸ .refl _⟩

instance (b : Prop) [Decidable b] (p q : Parse α) [Idle env p] [Idle env q] : Idle env (if b then p else q) := by
  split <;> assumption

instance : Idle env peekNext where
  rests h := by
    rw [peekNext_returns h]
    exact ⟨rfl, rfl, rfl, rfl, rfl⟩

instance : Idle env seesAsyncFunction := by unfold seesAsyncFunction; infer_instance
instance : Idle env seesImportCall := by unfold seesImportCall; infer_instance
instance : Idle env seesLexicalDeclaration := by
  refine bind fun t => ?_
  split <;> infer_instance

instance (m : Mark) (shape : Shape Node) : Idle env (finish m shape) where
  rests h := by
    rw [(finish_makes h).1]
    exact ⟨rfl, rfl, rfl, rfl, rfl⟩

end Idle

/-- The rule returns what the token ahead tells, and changes nothing. -/
class Answers (p : Parse α) (answer : outParam (Token → α)) : Prop where
  returns : ∀ env s, p env s = .ok (answer s.lookahead) s

instance : Answers lookahead id := ⟨fun _ _ => rfl⟩
instance : Answers peek Token.lexeme := ⟨fun _ _ => rfl⟩
instance (m : String) : Answers (sees m) fun t => t.lexeme.isMark m := ⟨fun _ _ => rfl⟩
instance (ms : List String) : Answers (seesAny ms) fun t => ms.any t.lexeme.isMark := ⟨fun _ _ => rfl⟩
instance (word : String) : Answers (seesWord word) fun t => t.lexeme.isWord word := ⟨fun _ _ => rfl⟩
instance (words : List String) : Answers (seesAnyWord words) fun t => words.any t.lexeme.isWord :=
  ⟨fun _ _ => rfl⟩
instance (name : String) : Answers (seesName name) fun t => t.lexeme.isName name := ⟨fun _ _ => rfl⟩
instance : Answers seesEnd fun t => t.lexeme == .endOfInput := ⟨fun _ _ => rfl⟩
instance seesIdentifier_answers : Answers seesIdentifier fun t => match t.lexeme with
    | .identifier _ => true
    | _ => false := ⟨fun _ _ => rfl⟩

/-! ## Steps of a rule -/

namespace Leads

variable {answer : Token → α} {m : String} {p : Parse α} {f : α → Parse β} {Q : α → State → Prop} {R : β → State → Prop}
  {change : Context → Context}

/-- The token ahead has a name. -/
theorem facing (h : ∀ t, Faces env T B F t p Q) : Leads env (Reached env T B F) p Q := .some h

instance [Idle env p] : Keeps env (Ahead env T B F t) p := ⟨fun _ _ _ hs h => hs.rests (Idle.rests h)⟩

/-- The first step of a rule, before which the token ahead has a name. -/
theorem enters [Idle env p] (hf : ∀ t {a}, Faces env T B F t (f a) R) : Leads env (Reached env T B F) (p >>= f) R :=
  .facing fun t => .past (hf t)

/-- The mark of the token ahead. -/
theorem marks {f : Mark → Parse β} (hf : ∀ m, m.index = t.start → Faces env T B F t (f m) R) :
    Faces env T B F t (startMark >>= f) R := by
  intro s b s' hs h
  exact hf s.startMark hs.start s b s' hs (h.first rfl)

/-- A question about the token ahead. -/
theorem answers [Answers p answer] (hf : Faces env T B F t (f (answer t)) R) : Faces env T B F t (p >>= f) R := by
  intro s b s' hs h
  obtain rfl := hs.lookahead
  exact hf s b s' hs (h.first (Answers.returns env s))

/-- What is known is known to imply something else. -/
theorem knowing (hT : F → T → U) (hB : F → B → V) (hF : F → F') (h : Faces env U V F' t p Q) : Faces env T B F t p Q :=
  .weaken (fun _ hs => hs.imp hT hB hF) h

/-- Something else is known unless an arrow is ahead. -/
theorem also {P : Prop} (hP : ¬ Arrow t → P) (h : Faces env T B (F ∧ P) t p Q) : Faces env T B F t p Q :=
  .weaken (fun _ hs => { hs with fact := fun ha => ⟨hs.fact ha, hP ha⟩ }) h

/-- What holds if no arrow is ahead. -/
theorem settled (ha : ¬ Arrow t) (h : F → Faces env T B True t p Q) :
    Faces env T B F t p Q := by
  intro s a s' hs hp
  exact h (hs.fact ha) s a s' (hs.imp (fun _ => id) (fun _ => id) fun _ => trivial) hp

/-- The token ahead is taken, whichever it is. A gap comes after it. -/
theorem nextsVouched {f : Token → Parse β} (hf : ∀ t' stop, Stands env.source t stop → env.source.Gap stop t'.start →
      Leads env (Vouched env T B t') (f t) R) : Leads env (Vouched env T B t) (next >>= f) R := by
  intro s b s' hs h
  obtain ⟨a, u, h₁, h₂⟩ := h.bind
  obtain ⟨rfl, hu, hc, hgap⟩ := next_sight h₁
  rw [hs.lookahead] at h₂
  exact hf _ _ hs.stands hgap u b s' ⟨hu, fun ht => hs.target (hc ▸ ht), fun hb => hs.binding (hc ▸ hb)⟩ h₂

/-- The token ahead is taken, which stands in the source with a gap after it. -/
theorem nextsFrom {f : Token → Parse β} (ha : ¬ Arrow t) (hf : F → ∀ t' stop, Stands env.source t stop →
      env.source.Gap stop t'.start → Faces env T B True t' (f t) R) :
    Faces env T B F t (next >>= f) R := fun s b s' hs h =>
  nextsVouched (fun t' stop hstop hgap => .weaken (fun _ => Vouched.ahead) (hf (hs.fact ha) t' stop hstop hgap))
    s b s' (hs.vouched ha) h

/-- The token ahead is taken. -/
theorem nexts {f : Token → Parse β} (ha : ¬ Arrow t) (hf : F → ∀ t', Faces env T B True t' (f t) R) :
    Faces env T B F t (next >>= f) R :=
  .nextsFrom ha fun hF t' _ _ _ => hf hF t'

/-- The token ahead is taken, and the rule does not go on after it. -/
theorem nextFails {f : Token → Parse β} (hf : Leads env (fun _ => True) (f t) R) :
    Faces env T B F t (next >>= f) R := by
  intro s b s' hs h
  obtain ⟨a, u, h₁, h₂⟩ := h.bind
  obtain ⟨rfl, -⟩ := next_sight h₁
  rw [hs.lookahead] at h₂
  exact hf u b s' trivial h₂

/-- The token ahead is read again as a regular expression, and that is taken. -/
theorem rescans {f : Token → Parse β} (ha : ¬ Arrow t) (hf : F → ∀ r t', Faces env T B True t' (f r) R) :
    Faces env T B F t (nextRegex >>= f) R := by
  intro s b s' hs h
  obtain ⟨r, u, h₁, h₂⟩ := h.bind
  obtain ⟨ms, c, v, hr, h₁⟩ := nextRegex_rescans h₁
  obtain ⟨-, hu, hc, -⟩ := next_sight h₁
  replace hc := hc.trans hr.context
  refine hf (hs.fact ha) r _ u b s' ⟨hu, fun _ => trivial, fun _ ht => ?_, fun _ hb => ?_⟩ h₂
  · exact hs.target ha (hc ▸ ht)
  · exact hs.binding ha (hc ▸ hb)

/-- A new token is looked at. -/
theorem looksAnew {f : Unit → Parse β} (hf : ∀ t', Faces env True True True t' (f ()) R) :
    Leads env (fun _ => True) (Parse.skip >>= f) R := by
  rintro s b s' - h
  obtain ⟨_, u, h₁, h₂⟩ := h.bind
  obtain ⟨_, v, h₁, hv⟩ := Returns.bind h₁
  obtain ⟨-, rfl⟩ := hv.ended
  obtain ⟨-, hu, -⟩ := next_sight h₁
  exact hf _ u b s' ⟨hu, fun _ => trivial, fun _ _ => trivial, fun _ _ => trivial⟩ h₂

/-- The token ahead is skipped, which stands in the source with a gap after it. -/
theorem skipsFrom {f : Unit → Parse β} (ha : ¬ Arrow t) (hf : F → ∀ t' stop, Stands env.source t stop →
      env.source.Gap stop t'.start → Faces env T B True t' (f ()) R) :
    Faces env T B F t (Parse.skip >>= f) R := by
  unfold Parse.skip
  rw [bind_assoc]
  exact .nextsFrom ha fun hF t' stop hstop hgap => .pure_bind (hf hF t' stop hstop hgap)

theorem skips {f : Unit → Parse β} (ha : ¬ Arrow t) (hf : F → ∀ t', Faces env T B True t' (f ()) R) :
    Faces env T B F t (Parse.skip >>= f) R :=
  .skipsFrom ha fun hF t' _ _ _ => hf hF t'

/-- A mark is taken, which stands in the source with a gap after it. -/
theorem skipsMark {f : Unit → Parse β} (hm : m ∈ Scan.singleMarks ++ Scan.longMarks)
    (hl : t.lexeme = .punctuator m) (ha : m ≠ "=>")
    (hf : F → env.source.hasAt t.start m = true → ∀ t', env.source.Gap (t.start + m.length) t'.start →
      Faces env T B True t' (f ()) R) : Faces env T B F t (Parse.skip >>= f) R := by
  refine .skipsFrom (not_arrow_of_punctuator hl ha) fun hF t' stop hstop hgap => ?_
  obtain ⟨hat, rfl⟩ := hstop.mark m hm hl
  exact hf hF hat t' hgap

theorem expectsVouched {f : Unit → Parse β}
    (hf : F → t.lexeme.isMark m = true → ∀ t', Leads env (Vouched env T B t') (f ()) R)
    (hm : m ≠ "=>" := by decide) : Faces env T B F t (expect m >>= f) R := by
  unfold expect
  rw [bind_assoc]
  by_cases hl : t.lexeme.isMark m = true
  · have ha := not_arrow_of_isMark hl hm
    intro s b s' hs h
    refine nextsVouched (fun t' _ _ _ => ?_) s b s' (hs.vouched ha) h
    rw [if_pos hl]
    exact .pure_bind (hf (hs.fact ha) hl t')
  · refine .nextFails ?_
    rw [if_neg hl]
    exact .fails_bind

theorem expects {f : Unit → Parse β} (hf : F → t.lexeme.isMark m = true → ∀ t', Faces env T B True t' (f ()) R)
    (hm : m ≠ "=>" := by decide) : Faces env T B F t (expect m >>= f) R :=
  .expectsVouched (fun hF hl t' => .weaken (fun _ => Vouched.ahead) (hf hF hl t')) hm

theorem expectsWord {f : Unit → Parse β} (hf : F → t.lexeme.isWord word = true → ∀ t', Faces env T B True t' (f ()) R) :
    Faces env T B F t (expectWord word >>= f) R := by
  unfold expectWord
  rw [bind_assoc]
  by_cases hl : t.lexeme.isWord word = true
  · refine .nexts (not_arrow_of_isWord hl) fun hF t' => ?_
    rw [if_pos hl]
    exact .pure_bind (hf hF hl t')
  · refine .nextFails ?_
    rw [if_neg hl]
    exact .fails_bind

/-- A mark is taken unless another one is ahead. -/
theorem expectsUnless {f : Unit → Parse β} {m' : String}
    (hf : F → ∀ t', Faces env T B True t' (f ()) R) (hm : m ≠ "=>" := by decide)
    (hm' : m' ≠ "=>" := by decide) :
    Faces env T B F t (do
      let b ← sees m
      if b = true then f () else expect m' >>= f) R := by
  refine .answers <| .ite (fun hl => ?_) fun _ => .expects (fun hF _ t' => hf hF t') hm'
  exact .settled (not_arrow_of_isMark hl hm) fun hF => hf hF t

/-- A semicolon may be missing, and then nothing is taken. -/
theorem semicolon {f : Unit → Parse β} (hf : ∀ t', Faces env T B F t' (f ()) R) :
    Faces env T B F t (Parse.semicolon >>= f) R := by
  refine .bind (Q := fun _ => Reached env T B F) ?_ fun _ => .facing hf
  refine .answers <| .ite (fun hl => ?_) fun _ => ?_
  · rw [← bind_pure Parse.skip]
    refine .skips (not_arrow_of_isMark hl (by decide)) fun hF t' => .pure fun _ hs => ?_
    exact hs.known fun _ => hF
  · refine .keeps fun u => .fork (.past <| .keeps fun _ => ?_) <| .pure fun _ hs => hs.reached
    refine .fork ?_ .fails_bind
    intro s _ s' hs h
    obtain rfl := returns_modify.mp h
    have hr : Rests s { s with lastMark := s.startMark } := ⟨rfl, rfl, rfl, rfl, rfl⟩
    exact (hs.rests hr).reached

/-- The context is changed. -/
theorem flags {f : Unit → Parse β} (hT : ∀ c, (c.isTarget = true → T) → (change c).isTarget = true → U)
    (hB : ∀ c, (c.isBinding = true → B) → (change c).isBinding = true → V)
    (hf : Faces env U V F t (f ()) R) :
    Faces env T B F t (setContext change >>= f) R := by
  intro s b s' hs h
  exact hf _ b s' (hs.reset (c := change s.context) (hT _) (hB _)) h.modify

/-- The context is changed, and the flags do not matter. -/
theorem losesFlags {f : Unit → Parse β} (hf : Faces env True True F t (f ()) R) :
    Faces env T B F t (setContext change >>= f) R :=
  .flags (fun _ _ _ => trivial) (fun _ _ _ => trivial) hf

/-- The flags stay as they are. -/
theorem keepsFlags {f : Unit → Parse β} (hf : Faces env T B F t (f ()) R)
    (hT : ∀ c, (change c).isTarget = c.isTarget := by exact fun _ => rfl)
    (hB : ∀ c, (change c).isBinding = c.isBinding := by exact fun _ => rfl) :
    Faces env T B F t (setContext change >>= f) R :=
  .flags (fun c h ht => h (hT c ▸ ht)) (fun c h hb => h (hB c ▸ hb)) hf

theorem onlyValue {f : Unit → Parse β} (hf : Faces env False False F t (f ()) R) :
    Faces env T B F t (Parse.onlyValue >>= f) R :=
  .flags (fun _ _ => nofun) (fun _ _ => nofun) hf

theorem onlyTarget {f : Unit → Parse β} (hf : Faces env True False F t (f ()) R) :
    Faces env T B F t (Parse.onlyTarget >>= f) R :=
  .flags (fun _ _ _ => trivial) (fun _ _ => nofun) hf

/-- The context is looked at, which has the flags. -/
theorem readsFlags {f : Context → Parse β}
    (hf : ∀ c, (¬ Arrow t → c.isTarget = true → T) → (¬ Arrow t → c.isBinding = true → B) → Faces env T B F t (f c) R) :
    Faces env T B F t (context >>= f) R := by
  intro s b s' hs h
  exact hf s.context hs.target hs.binding s b s' hs (h.first rfl)

theorem idleVouched [Idle env p] (hf : ∀ a, Leads env (Vouched env T B t) (f a) R) :
    Leads env (Vouched env T B t) (p >>= f) R := by
  intro s b s' hs h
  obtain ⟨a, u, h₁, h₂⟩ := h.bind
  exact hf a u b s' (hs.rests (Idle.rests h₁)) h₂

theorem answersVouched [Answers p answer]
    (hf : Leads env (Vouched env T B t) (f (answer t)) R) : Leads env (Vouched env T B t) (p >>= f) R := by
  intro s b s' hs h
  obtain rfl := hs.lookahead
  exact hf s b s' hs (h.first (Answers.returns env s))

theorem flagsVouched {f : Unit → Parse β} (hT : ∀ c, (c.isTarget = true → T) → (change c).isTarget = true → U)
    (hB : ∀ c, (c.isBinding = true → B) → (change c).isBinding = true → V)
    (hf : Leads env (Vouched env U V t) (f ()) R) :
    Leads env (Vouched env T B t) (setContext change >>= f) R := by
  intro s b s' hs h
  refine hf { s with context := change s.context } b s' ?_ h.modify
  exact { hs with target := hT _ hs.target, binding := hB _ hs.binding }

theorem readsFlagsVouched {f : Context → Parse β}
    (hf : ∀ c, (c.isTarget = true → T) → (c.isBinding = true → B) → Leads env (Vouched env T B t) (f c) R) :
    Leads env (Vouched env T B t) (context >>= f) R := by
  intro s b s' hs h
  exact hf s.context hs.target hs.binding s b s' hs (h.first rfl)

end Leads

/-! ## Rules -/

/-- What was read before is settled, and something holds of what comes after it unless an arrow is ahead. -/
def Onward (env : Env) (T B F P : Prop) (s : State) : Prop := F ∧ Reached env T B P s

@[simp] abbrev Intact {α : Type} [Held α] (env : Env) (a : α) : Prop := Propers env.source (Held.nodes a)

/-- The rule returns proper nodes. -/
class Builds [Held α] (env : Env) (p : Parse α) : Prop where
  leads : ∀ F, Leads env (Reached env True True F) p fun a =>
    Onward env True True F (Intact env a)

/-- The rule returns proper nodes and raises no flag. -/
class Inlays [Held α] (env : Env) (p : Parse α) : Prop where
  leads : ∀ T B F, Leads env (Reached env T B F) p fun a => Onward env T B F (Intact env a)

/-- The rule ends with a token that is taken, so that what it returns is known for sure. -/
class Settles (env : Env) (P : outParam (α → Prop)) (p : Parse α) : Prop where
  leads : ∀ F, Leads env (Reached env True True F) p fun a s => F ∧ P a ∧ Reached env True True True s

/-- The rule reads markup, whatever comes before it. -/
class Tags (env : Env) (P : outParam (α → Prop)) (p : Parse α) : Prop where
  leads : Leads env (fun _ => True) p fun a _ => P a

/-- A proper expression. -/
structure Expr (src : Source) (e : Node) : Prop where
  proper : Proper src e
  isPart : e.shape.isPart = false

/-- A proper expression that passes for a name. -/
structure ProperLoose (src : Source) (e : Node) : Prop where
  proper : Proper src e
  isLoose : e.shape.isLoose = true

def BeforeArrow (src : Source) (e : Node) : Prop :=
  ∀ isAsync params, e.shape = .arrowParameters isAsync params →
    Propers src params ∧ (∀ p ∈ params, p.AllLeaves Shape.isSettled) ∧
      (isAsync = false → src.HasTrailingComma ∨ ∀ p ∈ params, p.AllLeaves Shape.passesAsName)

/-- The flags after an expression are true of it, unless an arrow makes it parameters. -/
def Graded (env : Env) (F : Prop) (e : Node) (s : State) : Prop :=
  Onward env (e.AllTargets Shape.passesAsTarget) (e.AllTargets Shape.passesAsName) F (Expr env.source e) s ∧
    (Arrow s.lookahead → BeforeArrow env.source e)

/-- The rule returns a proper expression with flags that are true of it. -/
class Grades (env : Env) (p : Parse Node) : Prop where
  leads : ∀ F, Leads env (Reached env True True F) p (Graded env F)

theorem BeforeArrow.of_not_placeholder {e : Node} (h : e.shape.isPlaceholder = false) : BeforeArrow src e := by
  intro isAsync params he
  rw [he] at h
  cases h

/-- An expression at the end of a rule. -/
theorem Ahead.graded {P : Prop} {e : Node} (h : Ahead env T B P t s) (hF : F) (he : P → Expr env.source e)
    (hT : P → T → e.AllTargets Shape.passesAsTarget) (hB : P → B → e.AllTargets Shape.passesAsName)
    (hc : Arrow t → BeforeArrow env.source e) : Graded env F e s :=
  ⟨⟨hF, (h.imp hT hB he).reached⟩, fun ha => hc (h.lookahead ▸ ha)⟩

theorem ProperLoose.expr {e : Node} (h : ProperLoose src e) : Expr src e := by
  obtain ⟨info, shape⟩ := e
  refine ⟨h.proper, ?_⟩
  cases shape <;> first | rfl | cases h.isLoose

theorem Expr.of_children {info : Node.Info} {shape : Shape Node} (h : Propers src shape.children)
    (hs : shape.Proper src := by trivial) (hp : shape.isPart = false := by rfl) (hk : shape.Keyed src info := by trivial)
    (hw : (⟨info, shape⟩ : Node).isWhole = true := by rfl) : Expr src ⟨info, shape⟩ :=
  ⟨.plain h hs hk hw, hp⟩

namespace Leads

variable {p : Parse α} {f : α → Parse β} {R : β → State → Prop} {Q : α → State → Prop} {e : Node}

/-- After a rule, the token ahead has a name. -/
theorem onward (h : F → ∀ t, Faces env T B P t p Q) : Leads env (Onward env T B F P) p Q := by
  rintro s a s' ⟨hF, t, hs⟩
  exact h hF t s a s' hs

/-- A rule for which the flags before it do not matter. -/
theorem freely (h : Leads env (Reached env True True F) p Q) : Faces env T B F t p Q :=
  .weaken (fun _ hs => (hs.imp (fun _ _ => trivial) (fun _ _ => trivial) id).reached) h

/-- Nodes at the end of a rule. -/
theorem build [Held α] [Builds env p] : Faces env T B F t p fun a => Onward env True True F (Intact env a) :=
  .freely (Builds.leads F)

/-- A first step that reads nodes. -/
theorem parts [Held α] [Builds env p] (hf : F → ∀ a t', Faces env True True (Intact env a) t' (f a) R) :
    Faces env T B F t (p >>= f) R :=
  .bind .build fun a => .onward fun hF => hf hF a

/-- A first step that ends with a token that is taken. -/
theorem settles {P : α → Prop} [Settles env P p] (hf : F → ∀ a, P a → ∀ t', Faces env True True True t' (f a) R) :
    Faces env T B F t (p >>= f) R := by
  refine .bind (.freely (Settles.leads F)) fun a => ?_
  rintro s b s' ⟨hF, ha, t', hs⟩
  exact hf hF a ha t' s b s' hs

/-- A first step that reads nodes and raises no flag. -/
theorem inlays [Held α] [Inlays env p] (hf : F → ∀ a t', Faces env T B (Intact env a) t' (f a) R) :
    Faces env T B F t (p >>= f) R :=
  .bind (.weaken (fun _ => Ahead.reached) (Inlays.leads T B F)) fun a => .onward fun hF => hf hF a

/-- After an expression, the token ahead has a name. -/
theorem afterGraded (h : F → ∀ t, (Arrow t → BeforeArrow env.source e) →
      Faces env (e.AllTargets Shape.passesAsTarget) (e.AllTargets Shape.passesAsName)
        (Expr env.source e) t p Q) : Leads env (Graded env F e) p Q := by
  rintro s a s' ⟨⟨hF, t, hs⟩, hc⟩
  exact h hF t (hs.lookahead ▸ hc) s a s' hs

variable {p : Parse Node}

/-- An expression at the end of a rule. -/
theorem grade [Grades env p] : Faces env T B F t p (Graded env F) :=
  .freely (Grades.leads F)

variable {f : Node → Parse β}

/-- A first step that reads an expression. -/
theorem grades [Grades env p] (hf : F → ∀ e t', (Arrow t' → BeforeArrow env.source e) →
      Faces env (e.AllTargets Shape.passesAsTarget) (e.AllTargets Shape.passesAsName) (Expr env.source e) t' (f e) R) :
    Faces env T B F t (p >>= f) R :=
  .bind .grade fun e => .afterGraded fun hF => hf hF e

/-- A first step whose flags are joined with those before it, so that those that are up tell about both. -/
theorem inheritsBy {U V P' C : Node → Prop} (hp : ∀ F, Leads env (Reached env True True F) p fun e s =>
      Onward env (U e) (V e) F (P' e) s ∧ (Arrow s.lookahead → C e))
    (hf : F → ∀ e t', (Arrow t' → C e) → Faces env (T ∧ U e) (B ∧ V e) (P' e) t' (f e) R) :
    Faces env T B F t (inherit p >>= f) R := by
  intro s b s' hs h
  obtain ⟨e, v, h₁, h₂⟩ := h.bind
  obtain ⟨_, u, hu, hv⟩ := (Returns.first h₁ rfl).modify.bind
  obtain ⟨rfl, rfl⟩ := returns_pure.mp hv.modify
  obtain ⟨⟨⟨hF, hT, hB⟩, t', hu⟩, hc⟩ := hp _ _ e u hs.fresh hu
  refine hf hF e t' (hu.lookahead ▸ hc) _ b s' (hu.reset (fun hE ht => ?_) fun hE hb => ?_) h₂
  · obtain ⟨hu, hs⟩ := Bool.and_eq_true_iff.mp ht
    exact ⟨hT hs, hE hu⟩
  · obtain ⟨hu, hs⟩ := Bool.and_eq_true_iff.mp hb
    exact ⟨hB hs, hE hu⟩

theorem inherits [Grades env p] (hf : F → ∀ e t', (Arrow t' → BeforeArrow env.source e) →
      Faces env (T ∧ e.AllTargets Shape.passesAsTarget) (B ∧ e.AllTargets Shape.passesAsName)
        (Expr env.source e) t' (f e) R) :
    Faces env T B F t (inherit p >>= f) R :=
  .inheritsBy Grades.leads hf

/-! ## Nodes -/

/-- A node in between, which is what it was read as. -/
theorem made (hf : ∀ info : Node.Info, info.cover = none → (∀ r ∈ info.range, r.start = m.index) →
      Faces env T B F t (f ⟨info, shape⟩) R)
    (hs : shape.isName = false := by rfl) :
    Faces env T B F t (Parse.finish m shape >>= f) R := by
  intro s b s' h₀ h
  obtain ⟨⟨info, shape'⟩, u, h₁, h₂⟩ := h.bind
  have hu := h₀.rests (Idle.rests h₁)
  obtain ⟨hc, rfl | ⟨name, _, rfl, -⟩⟩ := finish_shape h₁
  · exact hf info hc (fun r hr => congrArg Range.start (finish_range h₁ r hr)) u b s' hu h₂
  · cases hs

/-- A node in between. -/
theorem shapes (hf : ∀ info, Faces env T B F t (f ⟨info, shape⟩) R) (hs : shape.isSimple = true := by rfl) :
    Faces env T B F t (Parse.finish m shape >>= f) R :=
  .made (fun info _ _ => hf info) (Shape.not_isName_of_isSimple hs)

/-- A name in between. -/
theorem names {name : Text} (hf : ∀ n : Node, n.shape.isName = true → (∀ r ∈ n.info.range, r.start = m.index) →
      Faces env T B F t (f n) R) :
    Faces env T B F t (Parse.finish m (.identifier name) >>= f) R := by
  intro s b s' h₀ h
  obtain ⟨n, u, h₁, h₂⟩ := h.bind
  refine hf n ?_ (fun r hr => congrArg Range.start (finish_range h₁ r hr)) u b s' (h₀.rests (Idle.rests h₁)) h₂
  obtain ⟨-, hn | ⟨_, _, -, hn⟩⟩ := finish_shape h₁ <;> rw [hn] <;> rfl

/-- The nodes of the result are known. -/
theorem built [Held α] {a : α} (hF : F) (h : P → Intact env a) :
    Faces env T B P t (Pure.pure a) fun a => Onward env T B F (Intact env a) :=
  .pure fun _ hs => ⟨hF, hs.known h⟩

/-- A node whose parts are known. -/
theorem shaped (hF : F) (h : P → Propers env.source shape.children)
    (hp : P → shape.Proper env.source := by exact fun _ => trivial) (hs : shape.isSimple = true := by rfl) :
    Faces env T B P t (Parse.finish m shape) fun n => Onward env T B F (Intact env n) := by
  rw [← bind_pure (Parse.finish m shape)]
  refine .shapes (fun info => .built hF fun hP => ?_) hs
  exact Propers.cons_iff.mpr ⟨.simple (h hP) (hp hP) hs, .nil⟩

/-- A node whose parts are known for sure. -/
theorem shapedAs (hF : F) (h : Propers env.source shape.children)
    (hp : shape.Proper env.source := by trivial) (hs : shape.isSimple = true := by rfl) :
    Faces env T B True t (Parse.finish m shape)
      fun n s => F ∧ (Proper env.source n ∧ n.shape = shape) ∧ Reached env T B True s := by
  rw [← bind_pure (Parse.finish m shape)]
  exact .shapes (fun info => .pure fun _ h₁ => ⟨hF, ⟨.simple h hp hs, rfl⟩, h₁.reached⟩) hs

theorem shapedSurely (hF : F) (h : Propers env.source shape.children)
    (hp : shape.Proper env.source := by trivial) (hs : shape.isSimple = true := by rfl) :
    Faces env T B True t (Parse.finish m shape) fun n s => F ∧ Proper env.source n ∧ Reached env T B True s := by
  intro s n s' hs' hn
  obtain ⟨hF, hn, hr⟩ := shapedAs hF h hp hs s n s' hs' hn
  exact ⟨hF, hn.1, hr⟩

theorem looseSurely (hF : F) (h : Propers env.source shape.children)
    (hp : shape.Proper env.source := by trivial) (hs : shape.isSimple = true := by rfl)
    (hl : shape.isLoose = true := by rfl) :
    Faces env T B True t (Parse.finish m shape) fun n s => F ∧ ProperLoose env.source n ∧ Reached env T B True s := by
  intro s n s' hs' hn
  obtain ⟨hF, ⟨hn, hshape⟩, hr⟩ := shapedAs hF h hp hs s n s' hs' hn
  exact ⟨hF, ⟨hn, by rw [hshape, hl]⟩, hr⟩

/-- A node with something besides that is no node. -/
theorem shapedPair [Held α] {a : α} (hF : F) (h : P → Propers env.source shape.children)
    (hp : P → shape.Proper env.source := by exact fun _ => trivial) (hs : shape.isSimple = true := by rfl)
    (ha : Held.nodes a = [] := by rfl) :
    Faces env T B P t (Parse.finish m shape >>= fun n => Pure.pure (n, a))
      fun x => Onward env T B F (Intact env x) := by
  refine .shapes (fun info => .built hF fun hP => ?_) hs
  have hx : Held.nodes ((⟨info, shape⟩ : Node), a) = [⟨info, shape⟩] ++ Held.nodes a := rfl
  rw [Intact, hx, ha]
  exact Propers.cons_iff.mpr ⟨.simple (h hP) (hp hP) hs, .nil⟩

/-- An expression that is only a value. -/
theorem value (hF : F) (he : P → Expr env.source e) (hp : e.shape.isPlaceholder = false := by rfl) :
    Faces env False False P t (Pure.pure e) (Graded env F) :=
  .pure fun _ hs => hs.graded hF he (fun _ => False.elim) (fun _ => False.elim) fun _ => .of_not_placeholder hp

/-- An expression that passes for a name. -/
theorem loose (hF : F) (he : P → Expr env.source e) (hl : e.shape.isLoose = true := by rfl) :
    Faces env T B P t (Pure.pure e) (Graded env F) := by
  obtain ⟨htarget, hname⟩ := Node.allTargets_of_isLoose hl
  refine .pure fun _ hs => hs.graded hF he (fun _ _ => htarget) (fun _ _ => hname) fun _ => .of_not_placeholder ?_
  obtain ⟨info, shape⟩ := e
  cases shape <;> first | rfl | cases hl

/-- A name as an expression. -/
theorem name (hF : F) (hn : e.shape.isName = true) : Faces env T B P t (Pure.pure e) (Graded env F) := by
  obtain ⟨info, shape⟩ := e
  cases shape with
  | identifier word =>
    refine .pure fun _ hs => hs.graded hF (fun _ => .of_children nofun) (fun _ _ => ?_) (fun _ _ => ?_)
      fun _ => .of_not_placeholder rfl
    · exact (Node.allTargets_of_plain rfl rfl).mpr rfl
    · exact (Node.allTargets_of_plain rfl rfl).mpr rfl
  | _ => cases hn

end Leads

namespace Leads

/-- An expression whose parts are known. -/
theorem graded (hF : F) (h : P → Propers env.source shape.children)
    (hT : P → T → ∀ info, Node.AllTargets Shape.passesAsTarget ⟨info, shape⟩)
    (hB : P → B → ∀ info, Node.AllTargets Shape.passesAsName ⟨info, shape⟩)
    (hp : P → shape.Proper env.source := by exact fun _ => trivial) (hs : shape.isSimple = true := by rfl)
    (hpart : shape.isPart = false := by rfl) (hplaceholder : shape.isPlaceholder = false := by rfl) :
    Faces env T B P t (Parse.finish m shape) (Graded env F) := by
  rw [← bind_pure (Parse.finish m shape)]
  refine .shapes (fun info => .pure fun _ h₁ => h₁.graded hF (fun hP => ⟨?_, hpart⟩) ?_ ?_ ?_) hs
  · exact .simple (h hP) (hp hP) hs
  · exact fun hP hT' => hT hP hT' info
  · exact fun hP hB' => hB hP hB' info
  · exact fun _ => .of_not_placeholder hplaceholder

/-- An expression that is only a value. -/
theorem gradedValue (hF : F) (h : P → Propers env.source shape.children)
    (hp : P → shape.Proper env.source := by exact fun _ => trivial) (hs : shape.isSimple = true := by rfl)
    (hpart : shape.isPart = false := by rfl) (hplaceholder : shape.isPlaceholder = false := by rfl) :
    Faces env False False P t (Parse.finish m shape) (Graded env F) :=
  .graded hF h (fun _ => False.elim) (fun _ => False.elim) hp hs hpart hplaceholder

/-- An expression that passes for a name. -/
theorem gradedLoose (hF : F) (h : P → Propers env.source shape.children)
    (hp : P → shape.Proper env.source := by exact fun _ => trivial) (hs : shape.isSimple = true := by rfl)
    (hl : shape.isLoose = true := by rfl) : Faces env T B P t (Parse.finish m shape) (Graded env F) := by
  rw [← bind_pure (Parse.finish m shape)]
  exact .shapes (fun info => .loose hF (fun hP => ProperLoose.expr ⟨.simple (h hP) (hp hP) hs, hl⟩) hl) hs

end Leads

/-! ## Rules around a rule -/

section

variable [Held α] {p q : Parse α} {R : β → State → Prop} {stop : Parse Bool}

instance (priority := low) [Inlays env p] : Builds env p := ⟨fun F => Inlays.leads True True F⟩

instance (priority := low) {p : Parse Node} [Settles env (Proper env.source) p] : Builds env p where
  leads F := by
    rw [← bind_pure p]
    exact .facing fun t => .settles fun hF n hn t' => .built hF fun _ => Propers.cons_iff.mpr ⟨hn, .nil⟩

instance (priority := low) {p : Parse Node} [Settles env (ProperLoose env.source) p] : Grades env p where
  leads F := by
    rw [← bind_pure p]
    exact .facing fun t => .settles fun hF n hn t' => .loose hF (fun _ => hn.expr) hn.isLoose

instance (priority := low) {p : Parse Node} [Grades env p] : Builds env p where
  leads F := by
    rw [← bind_pure p]
    refine .facing fun t => .grades fun hF e t' _ => .knowing (fun _ _ => trivial) (fun _ _ => trivial) id ?_
    exact .built hF fun he => by simpa using he.proper

instance [Builds env p] : Inlays env (isolate p) := by
  refine ⟨fun T B F => ?_⟩
  rintro s a s' ⟨t, hs⟩ h
  obtain ⟨_, u, hp, h⟩ := (Returns.first h rfl).modify.bind
  obtain ⟨⟨hF, hT, hB⟩, t', hu⟩ := Builds.leads _ _ _ u hs.fresh hp
  replace h := h.first rfl
  split at h
  · obtain ⟨_, _, h, -⟩ := h.bind
    exact absurd h Fails.fails
  · obtain ⟨rfl, rfl⟩ := returns_pure.mp h.modify
    exact ⟨hF, t', hu.reset (fun _ => hT) fun _ => hB⟩

instance {p : Parse Node} [Grades env p] : Grades env (inherit p) where
  leads F := by
    rw [← bind_pure (inherit p)]
    refine .facing fun t => .inherits fun hF e t' hc => .pure fun _ hs => ?_
    exact hs.graded hF id (fun _ => And.right) (fun _ => And.right) hc

instance {b : Prop} [Decidable b] {p q : Parse Node} [Grades env p] [Grades env q] :
    Grades env (if b then p else q) := by
  split <;> assumption

instance {p : Parse Node} [Builds env p] : Builds env (some <$> p) where
  leads F := by
    intro s a s' hs h
    obtain ⟨n, hn, rfl⟩ := returns_map.mp h
    exact Builds.leads (p := p) F s n s' hs hn

/-- Items until a stop, of each of which something holds. What the flags vouch for grows with the items. If
there are none, what was read before is still open to question. -/
theorem Leads.accrues {α : Type} {p : Parse α} {P : α → Prop} {U V : List α → Prop}
    [Idle env stop] {f : List α → Parse β} (hT : T → U []) (hB : B → V [])
    (hp : ∀ as F, Leads env (Reached env (U as) (V as) F) p fun a =>
      Onward env (U (a :: as)) (V (a :: as)) F (P a))
    (hf : ∀ (as : List α) t', Faces env (U as) (V as) (F ∧ ∀ a ∈ as, P a) t' (f as.reverse) R) :
    Faces env T B F t (until' stop p >>= f) R := by
  let I (as : List α) := Reached env (U as) (V as) (F ∧ ∀ a ∈ as, P a)
  refine .bind (Q := fun as => I as.reverse) (.loops (Q := I) I (fun s hs => ?_)
    (fun as => .facing fun t => .keeps fun _ => ?_) fun as => ?_) fun as => ?_
  · exact (hs.imp (fun _ => hT) (fun _ => hB) fun h => ⟨h, List.forall_mem_nil P⟩).reached
  · refine .fork (.pure fun _ hs => hs.reached) <| .bind (.weaken (fun _ hs => hs.reached) (hp as _))
      fun a => .pure fun _ hs => ?_
    exact hs.2.known fun ha => ⟨hs.1.1, List.forall_mem_cons.mpr ⟨ha, hs.1.2⟩⟩
  · exact .pure fun _ hs => by rwa [List.reverse_reverse]
  · have h := hf as.reverse
    rw [List.reverse_reverse] at h
    exact .facing h

theorem Leads.everySuch {α : Type} {p : Parse α} {P : α → Prop} [Idle env stop] {f : List α → Parse β}
    (hp : ∀ F, Leads env (Reached env True True F) p fun a => Onward env True True F (P a))
    (hf : ∀ (as : List α) t', Faces env True True (F ∧ ∀ a ∈ as, P a) t' (f as) R) :
    Faces env T B F t (until' stop p >>= f) R :=
  .accrues (U := fun _ => True) (V := fun _ => True) (fun _ => trivial) (fun _ => trivial) (fun _ => hp)
    fun as t' => .knowing (fun _ => id) (fun _ => id)
      (fun h => ⟨h.1, fun a ha => h.2 a (List.mem_reverse.mp ha)⟩) (hf as.reverse t')

/-- Items that a rule reads until a stop. -/
theorem Leads.everyItem [Idle env stop] [Builds env p] {f : List α → Parse β}
    (hf : ∀ (as : List α) t', Faces env True True (F ∧ Propers env.source (as.flatMap Held.nodes)) t' (f as) R) :
    Faces env T B F t (until' stop p >>= f) R :=
  .everySuch (Builds.leads (p := p)) fun as t' => .knowing (fun _ => id) (fun _ => id)
    (fun h => ⟨h.1, List.forall_mem_flatMap.mpr h.2⟩) (hf as t')

end

/-- A comma that has to be there. -/
theorem Leads.comma [Intolerant env] {f : Unit → Parse β} {R : β → State → Prop}
    (hf : F → t.lexeme.isMark "," = true → ∀ t', Faces env T B True t' (f ()) R) :
    Faces env T B F t (expectComma >>= f) R := by
  unfold expectComma
  rw [bind_assoc]
  intro s b s' hs h
  replace h := h.first (show options env s = .ok env.options s from rfl)
  rw [if_neg Intolerant.not_tolerant] at h
  exact Leads.expects hf (by decide) s b s' hs h

/-- Rules that are put together from others in the usual ways. -/
theorem Leads.building [Held α] {p : Parse α} {F' : Prop}
    (h : Faces env T B F t p fun a => Onward env True True F' (Intact env a) := by
    repeat' first
      | with_reducible refine Prod.forall.mpr fun _ => ?_
      | with_reducible intro _
      | with_reducible assumption
      | with_reducible exact .fails
      | with_reducible exact .fails_bind
      | with_reducible exact .build
      | with_reducible refine .shapedPair ?_ ?_ ?_ ?_ ?_
      | with_reducible refine .shaped ?_ ?_ ?_ ?_
      | with_reducible refine .built ?_ ?_
      | with_reducible refine .ite ?_ ?_
      | with_reducible refine .pure_bind ?_
      | with_reducible refine .expects ?_ ?_
      | with_reducible refine .expectsWord ?_
      | with_reducible refine .semicolon ?_
      | with_reducible refine .comma ?_
      | with_reducible refine .answers ?_
      | with_reducible refine .settles ?_
      | with_reducible refine .boundPart ?_
      | with_reducible refine .parts ?_
      | with_reducible refine .everyItem ?_
      | with_reducible refine .skips ?_ ?_
      | with_reducible refine .keepsFlags ?_ ?_ ?_
      | with_reducible exact .nextFails .fails
      | with_reducible refine .past ?_
      | dsimp only
      | rfl
      | exact True.intro
      | exact not_arrow_of_isMark (by assumption) (by decide)
      | exact not_arrow_of_isWord (by assumption)
      | exact not_arrow_of_isName (by assumption)
      | (with_reducible refine Not.intro fun _ => ?_; simp_all [Arrow, Lexeme.isMark, Option.isSome_iff_ne_none]; done)
      | decide
      | split
      | refine .parts ?_
      | refine .past ?_
      | (simp_all [flatMap_nodes, flatMap_nodes_option]; done)
      | (simp_all [Shape.Proper, Shape.Formed, Option.isSome_iff_ne_none]) <;> grind) :
    Faces env T B F t p fun a => Onward env True True F' (Intact env a) := h

theorem Builds.routine [Held α] {p : Parse α}
    (h : ∀ F t, Faces env True True F t p (fun a => Onward env True True F (Intact env a)) := by
      intro _ _
      try change Leads _ _ (_ >>= _) _
      exact .building) : Builds env p := ⟨fun F => .facing (h F)⟩

end ScriptTree.Parse
