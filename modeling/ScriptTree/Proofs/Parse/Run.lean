import ScriptTree.Proofs.Parse.Lookahead
import ScriptTree.Proofs.Parse.Taking
import ScriptTree.Proofs.Scan.Evidence

/-! # What rules do to the state

All that a rule does to the state of a parse is made of a few kinds of steps (`Step`), whatever it reads. So
what each step preserves is preserved by a whole parse. `Steps` is the class of the rules for which this is
known, for programs without markup. -/

namespace ScriptTree.Parse

variable (m : Option Message) (parts : List Text) (t : Token) (o : Offender)

/-- The token ahead starts a class, or there is a directive for strict code somewhere. -/
def Turns (env : Env) (s : State) : Prop :=
  s.lookahead.lexeme = .keyword "class" ∨ env.source.Has (Text.ofString "use strict")

/-- A step of a parse: the context changes, a complaint is noted, a token is taken, at once or after it has
been scanned again as a regular expression, one is looked at, the statement before is extended up to the
token ahead, or a node is finished. No script becomes a module. Code becomes strict only for a reason, and in
a part of the program that is strict from its start (`b`) it stays so. -/
inductive Step (env : Env) (b : Bool) (s : State) : State → Prop
  | context (f : Context → Context) : (f s.context).isModule = s.context.isModule →
      (b = true → (f s.context).strict = true) →
      ((f s.context).strict = true → s.context.strict = true ∨ Turns env s) →
      Step env b s { s with context := f s.context }
  | complain (e : SyntaxError) : env.options.tolerant = true →
      Step env b s { s with cursor := { s.cursor with errors := s.cursor.errors ++ [e] } }
  | next {ms : List Comment} {c : Scan.Cursor} {k : Token} {s' : State} :
      Moves env s ms c k s' → Step env b s s'
  | regex {ms ms' : List Comment} {c c' : Scan.Cursor} {t k : Token} {u s' : State} :
      s.lookahead.lexeme = .punctuator "/" ∨ s.lookahead.lexeme = .punctuator "/=" →
      Rescans env s ms c t u → Moves env u ms' c' k s' → Step env b s s'
  | peek {t : Token} {s' : State} : Returns peekNext env s t s' → Step env b s s'
  | extend : Step env b s { s with lastMark := s.startMark }
  | finish {a : Attachment} (l : Array LogEntry) : a.leading ⊆ s.attachment.leading → s.attachment.Extends a →
      Step env b s { s with attachment := a, log := l }

/-- Steps one after the other. -/
inductive Run (env : Env) (b : Bool) (s : State) : State → Prop
  | stay : Run env b s s
  | step {u s' : State} : Run env b s u → Step env b u s' → Run env b s s'

variable {α β σ : Type} {env : Env} {b : Bool} {s s' u : State}

theorem Run.trans (h : Run env b s u) (h' : Run env b u s') : Run env b s s' := by
  induction h' with
  | stay => exact h
  | step _ hs ih => exact .step ih hs

theorem Step.run (h : Step env b s s') : Run env b s s' := .step .stay h

/-- What every step preserves, a run preserves. -/
theorem Run.preserves {P : State → Prop} (h : Run env b s s') (hP : ∀ {u u'}, Step env b u u' → P u → P u')
    (hs : P s) : P s' := by
  induction h with
  | stay => exact hs
  | step _ h ih => exact hP h ih

theorem Step.strict (h : Step env b s s') (hb : b = true) (hs : s.context.strict = true) :
    s'.context.strict = true := by
  cases h with
  | context f _ hf _ => exact hf hb
  | next h => rwa [h.context]
  | regex _ hr h => rwa [h.context, hr.context]
  | peek h => rwa [peekNext_returns h]
  | complain | extend | finish => exact hs

/-- Strict code stays strict. -/
theorem Run.strict (h : Run env b s s') (hs : b = true → s.context.strict = true) (hb : b = true) :
    s'.context.strict = true :=
  h.preserves (fun h => h.strict hb) (hs hb)

/-- Less may be known of where a run starts. -/
theorem Run.weaken {d : Bool} (h : Run env d s s') (hd : b = true → d = true) : Run env b s s' := by
  induction h with
  | stay => exact .stay
  | step _ h ih =>
    refine .step ih ?_
    cases h with
    | context f hm hs hr => exact .context f hm (fun hb => hs (hd hb)) hr
    | complain e ht => exact .complain e ht
    | next h => exact .next h
    | regex hl hr h => exact .regex hl hr h
    | peek h => exact .peek h
    | extend => exact .extend
    | finish l hl he => exact .finish l hl he

theorem setContext_step {f : Context → Context} {r : Unit} (hm : (f s.context).isModule = s.context.isModule)
    (hb : b = true → (f s.context).strict = true)
    (hf : (f s.context).strict = true → s.context.strict = true ∨ Turns env s)
    (h : Returns (setContext f) env s r s') : Step env b s s' := by
  obtain rfl := returns_modify.mp h
  exact .context f hm hb hf

/-- A change of the context that leaves the goal as it is, and the code strict if it is known to be. -/
class Steers (b : Bool) (f : Context → Context) : Prop where
  goal : ∀ c, (f c).isModule = c.isModule
  keeps : ∀ c, b = true → c.strict = true → (f c).strict = true
  lowers : ∀ c, (b = true → c.strict = true) → (f c).strict = true → c.strict = true

section

variable (g₁ g₂ g₃ g₄ : Context → Bool) (g₅ : Context → Option Token) (g₆ g₇ g₈ g₉ g₁₀ : Context → Bool)
  (g₁₁ : Context → List Text)

-- all other fields may change
instance : Steers b fun c =>
    ⟨c.isModule, g₁ c, g₂ c, g₃ c, g₄ c, g₅ c, g₆ c, g₇ c, g₈ c, g₉ c, g₁₀ c, g₁₁ c, c.strict⟩ :=
  ⟨fun _ => rfl, fun _ _ h => h, fun _ _ h => h⟩

-- the code is again as it was at the start
instance : Steers b fun c =>
    ⟨c.isModule, g₁ c, g₂ c, g₃ c, g₄ c, g₅ c, g₆ c, g₇ c, g₈ c, g₉ c, g₁₀ c, g₁₁ c, b⟩ :=
  ⟨fun _ => rfl, fun _ h _ => h, fun _ h hb => h hb⟩

end

/-- A question, which leaves everything as it is. -/
class Inspects (p : Parse α) : Prop where
  eq : ∀ {env s a s'}, Returns p env s a s' → s' = s

namespace Inspects

variable {p : Parse α}

theorem of_ok (q : Env → State → α) (h : ∀ env s, p env s = .ok (q env s) s := by intros; rfl) : Inspects p where
  eq hr := (EStateM.Result.ok.inj ((h _ _).symm.trans hr)).2.symm

theorem bind {f : α → Parse β} [hp : Inspects p] (hf : ∀ a, Inspects (f a) := by infer_instance) :
    Inspects (p >>= f) where
  eq h := by
    obtain ⟨a, u, h₁, h₂⟩ := h.bind
    rw [(hf a).eq h₂, hp.eq h₁]

instance (a : α) : Inspects (pure a : Parse α) := of_ok fun _ _ => a
instance (e : Failure) : Inspects (throw e : Parse α) := ⟨fun h => absurd h returns_throw⟩
instance : Inspects (get : Parse State) := of_ok fun _ s => s
instance : Inspects options := of_ok fun env _ => env.options
instance : Inspects context := of_ok fun _ s => s.context
instance : Inspects lookahead := of_ok fun _ s => s.lookahead
instance : Inspects peek := of_ok fun _ s => s.lookahead.lexeme
instance : Inspects startMark := of_ok fun _ s => s.startMark
instance : Inspects scanMark := of_ok fun _ s => cursorMark s.cursor
instance : Inspects (rawText t) := of_ok fun env _ => env.source.slice t.start t.stop
instance (mark : String) : Inspects (sees mark) := of_ok fun _ s => s.lookahead.lexeme.isMark mark
instance (marks : List String) : Inspects (seesAny marks) := of_ok fun _ s => marks.any s.lookahead.lexeme.isMark
instance (word : String) : Inspects (seesWord word) := of_ok fun _ s => s.lookahead.lexeme.isWord word
instance (words : List String) : Inspects (seesAnyWord words) := of_ok fun _ s => words.any s.lookahead.lexeme.isWord
instance (name : String) : Inspects (seesName name) := of_ok fun _ s => s.lookahead.lexeme.isName name
instance : Inspects seesEnd := of_ok fun _ s => s.lookahead.lexeme == .endOfInput
instance : Inspects seesIdentifier := bind fun _ => inferInstance
instance : Inspects seesTemplate := bind fun _ => inferInstance
instance : Inspects startsExpression := by
  refine bind fun l => ?_
  split
  · exact bind fun _ => inferInstance
  all_goals infer_instance
instance (t : Text) : Inspects (complaintAt t) := bind fun _ => inferInstance
instance (m : Message) : Inspects (filled m parts) := by unfold filled; split <;> infer_instance
instance (l : Lexeme) : Inspects (tokenText l) := by unfold tokenText; split <;> infer_instance
instance : Inspects (unexpectedToken t m) :=
  bind fun _ => bind fun _ => bind fun _ => inferInstance
instance : Inspects (unexpected o m) := by
  unfold unexpected; split <;> infer_instance

end Inspects

/-- The rule only takes steps in programs without markup. -/
class Steps (b : Bool) (p : Parse α) : Prop where
  run : ∀ {env : Env} {s s' : State} {a : α}, env.options.jsx = false →
    (b = true → s.context.strict = true) → Returns p env s a s' → Run env b s s'

namespace Steps

variable {round : σ → Parse (Round σ α)} (p : Parse α)

instance {p : Parse α} [hp : Inspects p] : Steps b p := ⟨fun _ _ h => hp.eq h ▸ .stay⟩

theorem bind {p : Parse α} {f : α → Parse β} [Steps b p] (hf : ∀ a, Steps b (f a) := by infer_instance) :
    Steps b (p >>= f) where
  run hj hs h := by
    obtain ⟨a, u, h₁, h₂⟩ := h.bind
    have h₁ := run hj hs h₁
    exact h₁.trans ((hf a).run hj (h₁.strict hs) h₂)

instance (f : α → Parse β) [Steps b p] [∀ a, Steps b (f a)] : Steps b (p >>= f) :=
  bind inferInstance

/-- A rule that takes a pair apart. -/
instance {γ : Type} (p : Parse (α × β)) (f : α × β → Parse γ) [Steps b p] [∀ a a', Steps b (f (a, a'))] :
    Steps b (p >>= f) :=
  bind fun ⟨_, _⟩ => inferInstance

instance (f : α → β) [Steps b p] : Steps b (f <$> p) where
  run hj hs h := by
    obtain ⟨a, h, -⟩ := returns_map.mp h
    exact run hj hs h

instance (c : Prop) [Decidable c] (p q : Parse α) [Steps b p] [Steps b q] : Steps b (if c then p else q) := by
  split <;> assumption

instance (f : Context → Context) [hf : Steers b f] : Steps b (setContext f) where
  run _ hs h :=
    (setContext_step (hf.goal _) (fun hb => hf.keeps _ hb (hs hb)) (fun h => .inl (hf.lowers _ hs h)) h).run

/-- When the context is looked at it is known whether the code is strict. -/
instance (f : Context → Parse β) [hf : ∀ (b : Bool) (c : Context), Steps b (f { c with strict := b })] :
    Steps b (Parse.context >>= f) where
  run {env s s' a} hj hs h := by
    replace h : Returns (f s.context) env s a s' := h.first rfl
    exact ((hf s.context.strict s.context).run hj id h).weaken hs

instance (e : SyntaxError) : Steps b (scan (Scan.tolerate e)) where
  run _ _ h := by
    obtain ⟨d, hd, rfl⟩ := returns_scan.mp h
    obtain ⟨ht, rfl⟩ := Scan.returns_tolerate.mp hd
    exact (Step.complain e ht).run

instance : Steps b next where
  run _ _ h := by
    obtain ⟨-, ms, c, k, h⟩ := next_moves h
    exact (Step.next h).run

instance : Steps b peekNext := ⟨fun _ _ h => (Step.peek h).run⟩

instance (start : Mark) (shape : Shape Node) : Steps b (finish start shape) where
  run _ _ h := by
    obtain ⟨hl, he⟩ := finish_keeps h
    rw [(finish_returns h).1]
    exact (Step.finish _ hl he).run

theorem nextRegex_run {t : Token} (h : Returns nextRegex env s t s')
    (hl : s.lookahead.lexeme.IsSlash) :
    Run env b s s' := by
  obtain ⟨ms, c, u, hr, h⟩ := nextRegex_rescans h
  obtain ⟨-, ms', c', k, h⟩ := next_moves h
  exact (Step.regex hl hr h).run

theorem loopFor_run (hr : ∀ x, Steps b (round x)) (n : Nat) (x : σ) : Steps b (loopFor round n x) := by
  induction n generalizing x with
  | zero => exact inferInstanceAs (Steps b (throw Failure.exhausted))
  | succ n ih =>
    constructor
    intro env s s' a hj hs h
    obtain ⟨r, u, h₁, h⟩ := Returns.bind h
    have hr₁ := run hj hs h₁
    refine hr₁.trans ?_
    split at h
    · exact (ih _).run hj (hr₁.strict hs) h
    · rw [(h.ended).2]
      exact .stay

theorem loop {x : σ} (hr : ∀ x, Steps b (round x)) : Steps b (Parse.loop x round) where
  run hj hs h := by
    replace h := Returns.first h rfl
    exact (loopFor_run hr _ _).run hj hs h

instance (x : σ) (round : σ → Parse (Round σ α)) [∀ x, Steps b (round x)] : Steps b (Parse.loop x round) :=
  loop inferInstance

instance (x : σ × β) (round : σ × β → Parse (Round (σ × β) α)) [∀ a a', Steps b (round (a, a'))] :
    Steps b (Parse.loop x round) :=
  loop fun ⟨_, _⟩ => inferInstance

instance : Steps b skip := .bind

instance (m : Message) : Steps b (reject (α := α) m parts) := .bind
instance : Steps b (rejectToken (α := α) t m) := .bind
instance : Steps b (rejectAhead (α := α) m) := .bind
instance : Steps b (rejectOffender (α := α) o m) := .bind
instance : Steps b (complainToken t m) := .bind
instance : Steps b (complainOffender o m) := .bind
instance (m : Message) : Steps b (complain m parts) := by
  refine ⟨fun hj hs h => ?_⟩
  obtain ⟨text, u, h₁, h⟩ := Returns.bind h
  obtain ⟨e, v, h₂, h⟩ := h.bind
  obtain ⟨d, hd, rfl⟩ := returns_scan.mp h
  replace hd := Returns.first hd rfl
  obtain ⟨ht, rfl⟩ := Scan.returns_tolerate.mp hd
  have h₁ := run hj hs h₁
  exact .step (h₁.trans (run hj (h₁.strict hs) h₂)) (.complain _ ht)

instance (mark : String) : Steps b (expect mark) := .bind
instance (word : String) : Steps b (expectWord word) := .bind
instance : Steps b expectComma := .bind
instance : Steps b (modify fun s => { s with lastMark := s.startMark } : Parse Unit) where
  run _ _ h := by
    obtain rfl := returns_modify.mp h
    exact Step.extend.run
instance : Steps b semicolon := .bind
instance : Steps b onlyValue := by unfold onlyValue; infer_instance
instance : Steps b onlyTarget := by unfold onlyTarget; infer_instance
instance : Steps b freshCover := by unfold freshCover; infer_instance
instance [Steps b p] : Steps b (isolate p) := by
  refine bind fun before => bind fun _ => bind fun result => bind fun c => ?_
  split <;> infer_instance
instance [Steps b p] : Steps b (inherit p) := .bind
instance (stop : Parse Bool) (item : Parse α) [Steps b stop] [Steps b item] : Steps b (until' stop item) := .bind

end Steps

end ScriptTree.Parse
