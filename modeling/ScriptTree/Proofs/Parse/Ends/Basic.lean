import ScriptTree.Proofs.Parse.Context.Basic
import ScriptTree.Proofs.Scan.OneLine

/-! # How a parse ends

`Ends` compares the same rule over two grammars. Both come to the same result, or both fail, and then the
failure is explained: the program is rejected, or something in the source or the options accounts for it
(`Stray`). In particular a parse never runs out of steps. That is a matter of two measures. A loop has as
many rounds as the source has characters, and each round that is not the last takes a token. A rule has a
depth to go down to, and between two tokens rules call each other in the order of their ranks (`Front`). -/

namespace ScriptTree.Parse

variable {α β σ : Type} {B P : State → Prop} {k lo n : Nat} {t : Token} {F : Nat → Nat → State → Prop} {e : Failure}

/-- What accounts for a failure other than a rejection. -/
inductive Stray (env : Env) : Failure → Prop
  /-- A piece of a template that goes on after a substitution stands where an expression should start. -/
  | templateHead : env.source.Has (Text.ofString "$\x7b") →
      Stray env (.broken "Template literal must start with a template head")
  /-- The delegate replaces the word for a new object. -/
  | newWord {names : List (Text × Text)} {name : Text} : env.options.delegate = .rename names →
      Table.get? (Text.ofString "new") names = some name → name ≠ Text.ofString "new" →
      Stray env (.broken "New expression must start with `new`")
  /-- A number in a complaint has too many digits. -/
  | longNumber : env.source.HasLongNumber → Stray env .tooManyDigits
  /-- A reference in markup names no character. -/
  | reference {e : Failure} : env.options.jsx = true → env.source.Has (Text.ofString "&#") →
      Scan.IsBadReference e → Stray env e
  /-- Comments are put beside nodes. -/
  | attach : env.options.attach = true → Stray env .unevenComments

/-- The program is rejected, or something accounts for the failure. -/
def Explained (env : Env) (e : Failure) : Prop := e.IsRejection ∨ Stray env e

/-- And the complaint about a program of one line is about a place on it. -/
structure Justified (env : Env) (e : Failure) : Prop where
  explained : Explained env e
  onLine : ∀ x, e = .rejected x → env.source.OneLine → x.OnLine env.source

variable {env : Env}

theorem Justified.rejects {x : SyntaxError} (h : env.source.OneLine → x.OnLine env.source) :
    Justified env (.rejected x) :=
  ⟨.inl ⟨x, rfl⟩, by rintro _ ⟨⟩; exact h⟩

theorem Justified.of_stray (h : Stray env e) : Justified env e := by
  refine ⟨.inr h, ?_⟩
  rintro x rfl
  cases h with
  | reference _ _ hb => rcases hb with h | h | h <;> cases h

/-! ## Rules that come to the same -/

/-- From a state of which one thing holds both rules come to the same: a result and a state of which another
holds, or a failure that is explained. -/
def Ends {α : Type} (env : Env) (P : State → Prop) (p p' : Parse α) (Q : α → State → Prop) : Prop :=
  ∀ s, P s → p' env s = p env s ∧ (∀ a s', Returns p env s a s' → Q a s') ∧
    ∀ e, Raises p env s e → Justified env e

namespace Ends

variable {P' : State → Prop} {p p' q q' : Parse α} {f f' : α → Parse β} {Q Q' : α → State → Prop} {R : β → State → Prop}
  {c : Prop} [Decidable c]

theorem bind (hp : Ends env P p p' Q) (hf : ∀ a, Ends env (Q a) (f a) (f' a) R) :
    Ends env P (p >>= f) (p' >>= f') R := by
  intro s hs
  obtain ⟨heq, hret, hraise⟩ := hp s hs
  refine ⟨?_, fun b s' h => ?_, fun e h => ?_⟩
  · cases hr : p env s with
    | ok a u =>
      rw [bind_ok f hr, bind_ok f' (heq.trans hr)]
      exact (hf a u (hret a u hr)).1
    | error e u => rw [bind_error f hr, bind_error f' (heq.trans hr)]
  · obtain ⟨a, u, h₁, h⟩ := h.bind
    exact (hf a u (hret a u h₁)).2.1 b s' h
  · rcases h.bind with h | ⟨a, u, h₁, h⟩
    · exact hraise e h
    · exact (hf a u (hret a u h₁)).2.2 e h

theorem pure {a : α} (h : ∀ s, P s → Q a s := by exact fun _ h => h) : Ends env P (Pure.pure a) (Pure.pure a) Q := by
  intro s hs
  refine ⟨rfl, fun b s' hb => ?_, fun e he => absurd he raises_pure⟩
  obtain ⟨rfl, rfl⟩ := hb.ended
  exact h _ hs

theorem pure_bind {a : α} (h : Ends env P (f a) (f' a) R) : Ends env P (Pure.pure a >>= f) (Pure.pure a >>= f') R :=
  h

theorem throw (h : Justified env e) : Ends env P (MonadExcept.throw e) (MonadExcept.throw e) Q := by
  intro s _
  refine ⟨rfl, fun a s' ha => absurd ha returns_throw, fun e' he => ?_⟩
  rw [raises_throw.mp he]
  exact h

theorem weaken (hP : ∀ s, P' s → P s) (h : Ends env P p p' Q) : Ends env P' p p' Q :=
  fun s hs => h s (hP s hs)

theorem conclude (h : Ends env P p p' Q) (hQ : ∀ a s, Q a s → Q' a s) : Ends env P p p' Q' := by
  intro s hs
  obtain ⟨heq, hret, hraise⟩ := h s hs
  exact ⟨heq, fun a s' ha => hQ a s' (hret a s' ha), hraise⟩

/-- Something that does not depend on the state. -/
theorem fact {F : Prop} (h : F → Ends env P p p' Q) : Ends env (fun s => P s ∧ F) p p' Q :=
  fun s ⟨hs, hF⟩ => h hF s hs

theorem ite (h₁ : c → Ends env P p p' Q) (h₂ : ¬ c → Ends env P q q' Q) :
    Ends env P (if c then p else q) (if c then p' else q') Q := by
  split
  · exact h₁ ‹_›
  · exact h₂ ‹_›

theorem fork (h₁ : Ends env P p p' Q) (h₂ : Ends env P q q' Q) :
    Ends env P (if c then p else q) (if c then p' else q') Q :=
  .ite (fun _ => h₁) fun _ => h₂

/-- The rounds of a loop: each that is not the last goes forward, so there are enough of them. -/
theorem loopFor {round round' : σ → Parse (Round σ α)} (I : Nat → σ → State → Prop)
    (bound : ∀ {lo x s}, I lo x s → lo ≤ env.source.length)
    (step : ∀ x lo, Ends env (I lo x) (round x) (round' x) fun
      | .again y => I (lo + 1) y
      | .done a => Q a) :
    ∀ {m m' : Nat} {x : σ} {lo : Nat}, env.source.length < lo + m → env.source.length < lo + m' →
      Ends env (I lo x) (Parse.loopFor round m x) (Parse.loopFor round' m' x) Q
  | 0, _, _, _, hm, _ => fun s hs => by have := bound hs; omega
  | _ + 1, 0, _, _, _, hm' => fun s hs => by have := bound hs; omega
  | m + 1, m' + 1, x, lo, hm, hm' => by
    refine .bind (step x lo) fun
      | .again y => ?_
      | .done a => .pure
    exact loopFor I bound step (by omega) (by omega)

theorem loop {x : σ} {lo : Nat} {round round' : σ → Parse (Round σ α)} (I : Nat → σ → State → Prop)
    (bound : ∀ {lo x s}, I lo x s → lo ≤ env.source.length)
    (step : ∀ x lo, Ends env (I lo x) (round x) (round' x) fun
      | .again y => I (lo + 1) y
      | .done a => Q a) :
    Ends env (I lo x) (Parse.loop x round) (Parse.loop x round') Q :=
  loopFor I bound step (by omega) (by omega)

end Ends

/-! ## What is known of tokens -/

/-- In a program of one line the mark is at its line and column. -/
structure Mark.OnLine (src : Source) (m : Mark) : Prop where
  le : m.index ≤ src.length + 1
  line : m.line = 1
  column : m.column = m.index

/-- Values that hold no tokens. -/
class Inert (α : Type) : Prop

/-- What is to be known of a value: each token that it holds has a text, unless the source has a number with
many digits. In a program of one line tokens, marks and complaints are on it. -/
class Knowable (α : Type) where
  known : Env → α → Prop

class Known {α : Type} [Knowable α] (env : Env) (a : α) : Prop where
  holds : Knowable.known env a

section

instance [Inert α] : Knowable α := ⟨fun _ _ => True⟩
instance : Knowable Lexeme := ⟨fun env l => l.Shown env.source⟩
instance : Knowable Token :=
  ⟨fun env t => t.lexeme.Shown env.source ∧ (env.source.OneLine → t.OnLine env.source)⟩
instance : Knowable Mark := ⟨fun env m => env.source.OneLine → m.OnLine env.source⟩
instance : Knowable SyntaxError := ⟨fun env x => env.source.OneLine → x.OnLine env.source⟩
instance [Knowable α] : Knowable (Option α) := ⟨fun env o => ∀ a ∈ o, Known env a⟩
instance [Knowable α] : Knowable (List α) := ⟨fun env l => ∀ a ∈ l, Known env a⟩
instance [Knowable α] [Knowable β] : Knowable (α × β) := ⟨fun env a => Known env a.1 ∧ Known env a.2⟩
instance : Knowable Context := ⟨fun env c => Known env c.coverError⟩
instance : Knowable Offender := ⟨fun env o => ∀ t, o = .token t → Known env t⟩

instance : Inert Unit := ⟨⟩
instance : Inert Bool := ⟨⟩
instance : Inert Nat := ⟨⟩
instance : Inert Node := ⟨⟩
instance : Inert Options := ⟨⟩
instance : Inert Env := ⟨⟩
instance : Inert State := ⟨⟩

/-- Nothing is to be known of the values. -/
class Free (α : Type) [Knowable α] : Prop where
  known : ∀ (env : Env) (a : α), Known env a

instance [Inert α] : Free α := ⟨fun _ _ => ⟨trivial⟩⟩
instance [Knowable α] [h : Free α] : Free (Option α) := ⟨fun _ _ => ⟨fun a _ => h.known _ a⟩⟩
instance [Knowable α] [h : Free α] : Free (List α) := ⟨fun _ _ => ⟨fun a _ => h.known _ a⟩⟩

instance [Knowable α] [h : Free α] (a : α) : Known env a := h.known env a
instance [Knowable α] : Known env (none : Option α) := ⟨nofun⟩
instance [Knowable α] (a : α) [h : Known env a] : Known env (some a) := ⟨fun _ ha => Option.some.inj ha ▸ h⟩
instance [Knowable α] : Known env ([] : List α) := ⟨nofun⟩
instance [Knowable α] (a : α) (l : List α) [ha : Known env a] [hl : Known env l] : Known env (a :: l) :=
  ⟨List.forall_mem_cons.mpr ⟨ha, hl.holds⟩⟩
instance [Knowable α] [Knowable β] (a : α) (b : β) [ha : Known env a] [hb : Known env b] : Known env (a, b) := ⟨ha, hb⟩
instance (t : Token) [h : Known env t] : Known env t.lexeme := ⟨h.holds.1⟩
instance (t : Token) [h : Known env t] : Known env (Offender.token t) := ⟨fun _ ht => by cases ht; exact h⟩
instance : Known env Offender.node := ⟨nofun⟩

theorem Known.coverError {c : Context} (h : Known env c) : ∀ t ∈ c.coverError, Known env t :=
  let h' : Known env c.coverError := h.holds
  h'.holds

theorem Known.snd [Knowable α] [Knowable β] {a : α} {b : β} (h : Known env (a, b)) : Known env b := h.holds.2

/-- A pair is known by its parts. -/
theorem Known.pairs [Knowable α] [Knowable β] {P : α × β → Prop} (h : ∀ a b [Known env a] [Known env b], P (a, b)) :
    ∀ x [Known env x], P x := by
  rintro ⟨a, b⟩ hx
  have ha : Known env a := hx.holds.1
  have hb : Known env b := hx.holds.2
  exact h a b

/-- What an option holds is known if the option is. -/
theorem Ends.opens [Knowable α] {γ : Type} {P : State → Prop} {p p' : Parse γ} {Q : γ → State → Prop} {o : Option α}
    {a : α} [ho : Known env o] (ha : o = some a) (h : ∀ [Known env a], Ends env P p p' Q) : Ends env P p p' Q :=
  have : Known env a := ho.holds a ha
  h

instance [Knowable α] (l m : List α) [hl : Known env l] [hm : Known env m] : Known env (l ++ m) :=
  ⟨List.forall_mem_append.mpr ⟨hl.holds, hm.holds⟩⟩

end

/-! ## States -/

/-- In a program of one line the scan and both marks are on it. -/
structure Flush (env : Env) (s : State) : Prop where
  cursor : env.source.OneLine → Scan.OnLine env.source s.cursor
  start : Known env s.startMark
  last : Known env s.lastMark

/-- Nothing has changed that tells how far a parse has come, and no unknown token is in the context. -/
structure Level (env : Env) (s s' : State) : Prop where
  lookahead : s'.lookahead = s.lookahead
  start : s'.startMark.index = s.startMark.index
  index : s'.cursor.index = s.cursor.index
  opened : Scan.Opened env.source s.cursor.openers → Scan.Opened env.source s'.cursor.openers
  cover : Known env s.context → Known env s'.context
  allowIn : s'.context.allowIn = s.context.allowIn
  flush : Flush env s → Flush env s'

theorem Level.refl (env : Env) (s : State) : Level env s s := ⟨rfl, rfl, rfl, id, id, rfl, id⟩

theorem Level.trans {s u s' : State} (h : Level env s u) (h' : Level env u s') : Level env s s' :=
  ⟨h'.lookahead.trans h.lookahead, h'.start.trans h.start, h'.index.trans h.index,
    fun ho => h'.opened (h.opened ho), fun hc => h'.cover (h.cover hc), h'.allowIn.trans h.allowIn,
    fun hf => h'.flush (h.flush hf)⟩

/-- The token ahead stands between its mark and the cursor, inside the source. -/
structure Poised (env : Env) (s : State) : Prop where
  start : s.lookahead.start = s.startMark.index
  le : s.startMark.index ≤ s.cursor.index
  bound : s.cursor.index ≤ env.source.length
  lt : s.lookahead.lexeme ≠ .endOfInput → s.startMark.index < s.cursor.index
  slash : s.lookahead.lexeme = .punctuator "/" ∨ s.lookahead.lexeme = .punctuator "/=" →
    env.source.chars[s.startMark.index]? = some 0x2F ∧
      env.source.at? (s.startMark.index + 1) ≠ some 0x2F ∧
      env.source.at? (s.startMark.index + 1) ≠ some 0x2A
  opened : Scan.Opened env.source s.cursor.openers
  evident : Scan.Evident env.source s.lookahead.lexeme
  cover : Known env s.context
  line : env.source.OneLine → s.lookahead.line = 1
  flush : Flush env s

theorem Poised.level {s s' : State} (hs : Poised env s) (h : Level env s s') : Poised env s' := by
  obtain ⟨hstart, hle, hbound, hlt, hslash, hopened, hevident, hcover, hline, hflush⟩ := hs
  have hopened' := h.opened hopened
  have hcover' := h.cover hcover
  have hflush' := h.flush hflush
  constructor <;> (try simp only [h.lookahead, h.start, h.index]) <;> assumption

theorem Poised.start_le {s : State} (hs : Poised env s) : s.lookahead.start ≤ env.source.length := by
  rw [hs.start]
  exact Nat.le_trans hs.le hs.bound

theorem Poised.known {s : State} (hs : Poised env s) : Known env s.lookahead :=
  ⟨hs.evident.shown, fun h => ⟨Nat.le_succ_of_le hs.start_le, hs.line h⟩⟩

/-- The token ahead starts at an offset or behind it, and from that offset on there is depth enough for
rules up to a rank: a rule of rank `k` may call `k` others before it takes a token, and eight more for each
character that is left. -/
structure Front (env : Env) (n k lo : Nat) (s : State) : Prop extends Poised env s where
  lower : lo ≤ s.lookahead.start
  room : 8 * (env.source.length - lo) + k ≤ n

/-- And the word that asks for a member is an operator. -/
structure FrontIn (env : Env) (n k lo : Nat) (s : State) : Prop extends Front env n k lo s where
  allowIn : s.context.allowIn = true

/-- The token ahead is known. -/
structure Sights (env : Env) (n k lo : Nat) (t : Token) (s : State) : Prop extends Front env n k lo s where
  ahead : s.lookahead = t

/-- Both are known. -/
structure SightsIn (env : Env) (n k lo : Nat) (t : Token) (s : State) : Prop extends FrontIn env n k lo s where
  ahead : s.lookahead = t

/-- The token `t` was taken, and unless it was the end, the next one starts behind it. -/
structure Taken (env : Env) (n k lo : Nat) (t : Token) (s : State) : Prop extends Front env n k lo s where
  behind : t.lexeme ≠ .endOfInput → Front env n 8 (lo + 1) s

/-- In markup no token is ahead. The scan stands inside the source. -/
structure Tagged (env : Env) (s : State) : Prop where
  bound : s.cursor.index ≤ env.source.length
  opened : Scan.Opened env.source s.cursor.openers
  cover : Known env s.context
  flush : Flush env s

/-- The scan stands at an offset or behind it, and from that offset on there is depth enough for rules up to
a rank. -/
structure Tag (env : Env) (n k lo : Nat) (s : State) : Prop extends Tagged env s where
  lower : lo ≤ s.cursor.index
  room : 8 * (env.source.length - lo) + k ≤ n

/-- A condition under which rules are run. -/
class Ground (env : Env) (B : State → Prop) : Prop where
  level : ∀ {s s'}, B s → Level env s s' → B s'
  cover : ∀ {s}, B s → Known env s.context
  flush : ∀ {s}, B s → Flush env s

/-- A condition on states that holds of level ones too, and the ground that they are on. -/
class Placed (env : Env) (B : outParam (State → Prop)) (P : State → Prop) : Prop where
  base : ∀ {s}, P s → B s
  level : ∀ {s s'}, P s → Level env s s' → P s'

/-- A way to say how far a parse has come, and which rules may still be called there. From an offset further
back as many may be called as when the parse was there. -/
class Scale (env : Env) (B : outParam (State → Prop)) (F : Nat → Nat → State → Prop) : Prop where
  base : ∀ {k lo s}, F k lo s → B s
  level : ∀ {k lo s s'}, F k lo s → Level env s s' → F k lo s'
  bound : ∀ {k lo s}, F k lo s → lo ≤ env.source.length
  back : ∀ {k lo s k' k₀ lo₀ s₀}, F k lo s → F k₀ lo₀ s₀ → lo₀ ≤ lo → k' ≤ k₀ → F k' lo₀ s

/-- The condition tells how far a parse has come. -/
class Fronted (env : Env) (B : outParam (State → Prop)) (F : outParam (Nat → Nat → State → Prop))
    (k lo : outParam Nat) (P : State → Prop) : Prop extends Placed env B P where
  front : ∀ {s}, P s → F k lo s

section

variable {s s' : State}

theorem Tagged.level (hs : Tagged env s) (h : Level env s s') : Tagged env s' :=
  ⟨by rw [h.index]; exact hs.bound, h.opened hs.opened, h.cover hs.cover, h.flush hs.flush⟩

theorem Tag.level (hs : Tag env n k lo s) (h : Level env s s') : Tag env n k lo s' :=
  ⟨hs.toTagged.level h, by rw [h.index]; exact hs.lower, hs.room⟩

theorem Front.level (hs : Front env n k lo s) (h : Level env s s') : Front env n k lo s' :=
  ⟨hs.toPoised.level h, by rw [h.lookahead]; exact hs.lower, hs.room⟩

instance : Ground env (Poised env) := ⟨.level, Poised.cover, Poised.flush⟩

instance : Scale env (Poised env) (Front env n) where
  base h := h.toPoised
  level h h' := h.level h'
  bound h := Nat.le_trans h.lower h.start_le
  back h h₀ hlo hk := ⟨h.toPoised, Nat.le_trans hlo h.lower, by have := h₀.room; omega⟩

instance : Ground env (Tagged env) := ⟨.level, Tagged.cover, Tagged.flush⟩

instance : Scale env (Tagged env) (Tag env n) where
  base h := h.toTagged
  level h h' := h.level h'
  bound h := Nat.le_trans h.lower h.bound
  back h h₀ hlo hk := ⟨h.toTagged, Nat.le_trans hlo h.lower, by have := h₀.room; omega⟩

instance : Fronted env (Tagged env) (Tag env n) k lo (Tag env n k lo) where
  base h := h.toTagged
  level h h' := h.level h'
  front h := h

instance : Fronted env (Poised env) (Front env n) k lo (Front env n k lo) where
  base h := h.toPoised
  level h h' := h.level h'
  front h := h

instance : Fronted env (Poised env) (Front env n) k lo (FrontIn env n k lo) where
  base h := h.toPoised
  level h h' := ⟨h.toFront.level h', h'.allowIn.trans h.allowIn⟩
  front h := h.toFront

instance : Fronted env (Poised env) (Front env n) k lo (Sights env n k lo t) where
  base h := h.toPoised
  level h h' := ⟨h.toFront.level h', by rw [h'.lookahead]; exact h.ahead⟩
  front h := h.toFront

instance : Fronted env (Poised env) (Front env n) k lo (SightsIn env n k lo t) where
  base h := h.toPoised
  level h h' := ⟨Placed.level h.toFrontIn h', by rw [h'.lookahead]; exact h.ahead⟩
  front h := h.toFront

instance : Fronted env (Poised env) (Front env n) k lo (Taken env n k lo t) where
  base h := h.toPoised
  level h h' := ⟨h.toFront.level h', fun ht => (h.behind ht).level h'⟩
  front h := h.toFront

end

/-- The condition says which token is ahead. -/
class Seen (t : outParam Token) (P : State → Prop) : Prop where
  ahead : ∀ {s}, P s → s.lookahead = t

instance {n k lo : Nat} {t : Token} : Seen t (Sights env n k lo t) := ⟨Sights.ahead⟩
instance {n k lo : Nat} {t : Token} : Seen t (SightsIn env n k lo t) := ⟨SightsIn.ahead⟩

/-! ## Kinds of rules -/

section

variable [Knowable α] [Knowable β]

/-- The rule takes no token, wherever the base condition holds. -/
class Stays (env : Env) (B : State → Prop) (p : Parse α) : Prop where
  stays : ∀ {s}, B s → (∀ a s', Returns p env s a s' → Level env s s' ∧ Known env a) ∧
    ∀ e, Raises p env s e → Justified env e

/-- Behind an offset all rules may be called. -/
abbrev Read (env : Env) (F : Nat → Nat → State → Prop) (lo : Nat) (a : α) (s : State) : Prop :=
  F 8 lo s ∧ Known env a

/-- The rule may take tokens, and has depth enough after another token. -/
class Runs (env : Env) (F : Nat → Nat → State → Prop) (p p' : Parse α) : Prop where
  runs : ∀ lo, Ends env (F 8 lo) p p' (Read env F lo)

/-- The rule takes at least one token, and has depth enough if that is so for its rank. -/
class Advances (env : Env) (F : Nat → Nat → State → Prop) (k : outParam Nat) (p p' : Parse α) : Prop where
  le : k ≤ 8 := by decide
  advances : ∀ lo, Ends env (F k lo) p p' (Read env F (lo + 1))

theorem Advances.of {F : Nat → Nat → State → Prop} {k : Nat} {p p' : Parse α}
    (h : ∀ lo, Ends env (F k lo) p p' (Read env F (lo + 1))) (hk : k ≤ 8 := by decide) : Advances env F k p p' :=
  ⟨hk, h⟩

abbrev Trails (env : Env) (n : Nat) (p p' : Parse α) : Prop := Runs env (Front env n) p p'

abbrev Fronts (env : Env) (n k : Nat) (p p' : Parse α) : Prop := Advances env (Front env n) k p p'

abbrev Onwards (env : Env) (n lo : Nat) (a : α) (s : State) : Prop := Read env (Front env n) (lo + 1) a s

end

section

variable [Knowable α] [Knowable β] {k' : Nat} {p p' q q' : Parse α} {f f' : α → Parse β} {R : β → State → Prop}
  {b : Prop} [Decidable b]

theorem Stays.runs [Scale env B F] [h : Stays env B p] : Runs env F p p where
  runs lo s hs := by
    obtain ⟨hret, hraise⟩ := h.stays (Scale.base env hs)
    refine ⟨rfl, fun a s' h => ?_, hraise⟩
    obtain ⟨hl, ha⟩ := hret a s' h
    exact ⟨Scale.level hs hl, ha⟩

/-- Where all rules may be called, a token more does not matter. -/
theorem Ends.settle [Scale env B F] [Fronted env B F 8 lo P] (h : Ends env P p p' (Read env F (lo + 1))) :
    Ends env P p p' (Read env F lo) := by
  intro s hs
  obtain ⟨heq, hret, hraise⟩ := h s hs
  refine ⟨heq, fun a s' ha => ?_, hraise⟩
  obtain ⟨hs', ha⟩ := hret a s' ha
  exact ⟨Scale.back env hs' (Fronted.front env hs) (Nat.le_succ _) (Nat.le_refl _), ha⟩

theorem Advances.runs [Scale env B F] [h : Advances env F k p p'] : Runs env F p p' where
  runs lo s hs := by
    have hs' : F k lo s := Scale.back env hs hs (Nat.le_refl _) h.le
    obtain ⟨heq, hret, hraise⟩ := h.advances lo s hs'
    refine ⟨heq, fun a s' ha => ?_, hraise⟩
    obtain ⟨hs', ha⟩ := hret a s' ha
    exact ⟨Scale.back env hs' hs (Nat.le_succ _) (Nat.le_refl _), ha⟩

instance [Stays env (Poised env) p] : Trails env n p p := Stays.runs

instance [Fronts env n k p p'] : Trails env n p p' := Advances.runs

instance [Stays env (Tagged env) p] : Runs env (Tag env n) p p := Stays.runs

instance [Advances env (Tag env n) k p p'] : Runs env (Tag env n) p p' := Advances.runs

namespace Stays

variable [Ground env B]

instance {a : α} [Known env a] : Stays env B (pure a : Parse α) where
  stays {s} _ := by
    refine ⟨fun b s' h => ?_, fun e h => absurd h raises_pure⟩
    obtain ⟨rfl, rfl⟩ := h.ended
    exact ⟨.refl env _, inferInstance⟩

theorem bind [hp : Stays env B p] (hf : ∀ a [Known env a], Stays env B (f a) := by infer_instance) :
    Stays env B (p >>= f) where
  stays {s} hs := by
    obtain ⟨hret, hraise⟩ := hp.stays hs
    refine ⟨fun b s' h => ?_, fun e h => ?_⟩
    · obtain ⟨a, u, h₁, h⟩ := h.bind
      obtain ⟨hl, ha⟩ := hret a u h₁
      obtain ⟨hl', hb⟩ := ((hf a).stays (Ground.level hs hl)).1 b s' h
      exact ⟨hl.trans hl', hb⟩
    · rcases h.bind with h | ⟨a, u, h₁, h⟩
      · exact hraise e h
      · obtain ⟨hl, ha⟩ := hret a u h₁
        exact ((hf a).stays (Ground.level hs hl)).2 e h

instance [Stays env B p] [∀ a, Stays env B (f a)] : Stays env B (p >>= f) := .bind fun _ => inferInstance

instance [Stays env B p] [Stays env B q] : Stays env B (if b then p else q) := by
  split <;> assumption

end Stays

namespace Ends

omit [Knowable β] in
theorem stay [Placed env B P] [h : Stays env B p] (hf : ∀ a [Known env a], Ends env P (f a) (f' a) R) :
    Ends env P (p >>= f) (p >>= f') R := by
  have hp : Ends env P p p fun a s => P s ∧ Known env a := by
    intro s hs
    obtain ⟨hret, hraise⟩ := h.stays (Placed.base env hs)
    refine ⟨rfl, fun a s' h => ?_, hraise⟩
    obtain ⟨hl, ha⟩ := hret a s' h
    exact ⟨Placed.level hs hl, ha⟩
  exact .bind hp fun a => .fact fun _ => hf a

omit [Knowable β] in
theorem past [Placed env B P] [Stays env B p] (hf : ∀ {a} [Known env a], Ends env P (f a) (f' a) R) :
    Ends env P (p >>= f) (p >>= f') R :=
  .stay fun _ => hf

omit [Knowable β] in
theorem stayIf {p : Parse Unit} {f f' : Unit → Parse β} [Placed env B P] [Stays env B p]
    (h : Ends env P (f ()) (f' ()) R) :
    Ends env P (if b then p >>= f else f ()) (if b then p >>= f' else f' ()) R :=
  .fork (.past h) h

omit [Knowable β] in
theorem stayUnless {p : Parse Unit} {f f' : Unit → Parse β} [Placed env B P] [Stays env B p]
    (h : Ends env P (f ()) (f' ()) R) :
    Ends env P (if b then f () else p >>= f) (if b then f' () else p >>= f') R :=
  .fork h <| .past h

variable {Q : α → State → Prop}

/-- A rule that does not return. -/
theorem fails [Placed env B P] [Fails env p] [h : Stays env B p] : Ends env P p p Q :=
  fun _ hs => ⟨rfl, fun _ _ ha => absurd ha Fails.fails, (h.stays (Placed.base env hs)).2⟩

omit [Knowable β] in
theorem fails_bind [Placed env B P] [Fails env p] [Stays env B p] : Ends env P (p >>= f) (p >>= f') R :=
  .bind (Q := fun _ _ => False) .fails fun _ _ => False.elim

theorem last [Runs env F p p'] : Ends env (F 8 lo) p p' (Read env F lo) := Runs.runs lo

theorem result {a : α} [Known env a] : Ends env (F 8 lo) (Pure.pure a) (Pure.pure a) (Read env F lo) :=
  .pure fun _ hs => ⟨hs, inferInstance⟩

omit [Knowable β] in
theorem go [Runs env F p p'] (hf : ∀ a [Known env a], Ends env (F 8 lo) (f a) (f' a) R) :
    Ends env (F 8 lo) (p >>= f) (p' >>= f') R :=
  .bind (Runs.runs lo) fun a => .fact fun _ => hf a

omit [Knowable β] in
theorem on [Runs env F p p'] (hf : ∀ {a} [Known env a], Ends env (F 8 lo) (f a) (f' a) R) :
    Ends env (F 8 lo) (p >>= f) (p' >>= f') R :=
  .go fun _ => hf

omit [Knowable β] in
theorem goUnless {p p' : Parse Unit} {f f' : Unit → Parse β} [Runs env F p p']
    (h : Ends env (F 8 lo) (f ()) (f' ()) R) :
    Ends env (F 8 lo) (if b then f () else p >>= f) (if b then f' () else p' >>= f') R :=
  .fork h <| .on h

theorem only [Fronted env B F k lo P] [Scale env B F] [h : Advances env F k' p p'] (hk : k' ≤ k := by decide) :
    Ends env P p p' (Read env F (lo + 1)) := by
  intro s hs
  have hs' : F k lo s := Fronted.front env hs
  exact h.advances lo s (Scale.back env hs' hs' (Nat.le_refl _) hk)

omit [Knowable β] in
theorem first [Fronted env B F k lo P] [Scale env B F] [Advances env F k' p p']
    (hf : ∀ a [Known env a], Ends env (F 8 (lo + 1)) (f a) (f' a) R) (hk : k' ≤ k := by decide) :
    Ends env P (p >>= f) (p' >>= f') R :=
  .bind (.only hk) fun a => .fact fun _ => hf a

omit [Knowable α] in
theorem look (h : ∀ t [Known env t], Ends env (Sights env n k lo t) p p' Q) : Ends env (Front env n k lo) p p' Q := by
  intro s hs
  have := hs.known
  exact h s.lookahead s ⟨hs, rfl⟩

omit [Knowable α] in
theorem lookIn (h : ∀ t [Known env t], Ends env (SightsIn env n k lo t) p p' Q) :
    Ends env (FrontIn env n k lo) p p' Q := by
  intro s hs
  have := hs.known
  exact h s.lookahead s ⟨hs, rfl⟩

omit [Knowable α] in
/-- It does not matter which token is ahead. -/
theorem front (h : Ends env (Front env n k lo) p p' Q) : Ends env (Sights env n k lo t) p p' Q :=
  h.weaken fun _ hs => hs.toFront

omit [Knowable α] in
/-- A token was taken that is not the end. -/
theorem taken (ht : t.lexeme ≠ .endOfInput)
    (h : Ends env (Front env n 8 (lo + 1)) p p' Q) : Ends env (Taken env n k lo t) p p' Q :=
  h.weaken fun _ hs => hs.behind ht

end Ends

namespace Runs

instance [Runs env F p p'] [∀ a, Runs env F (f a) (f' a)] : Runs env F (p >>= f) (p' >>= f') where
  runs _ := .on .last

instance [Runs env F p p'] [Runs env F q q'] : Runs env F (if b then p else q) (if b then p' else q') where
  runs _ := .fork .last .last

instance [Runs env F p p'] : Runs env F (some <$> p) (some <$> p') where
  runs _ := .on .result

end Runs

end

/-! ## Loops -/

section

variable {stop : Parse Bool} [Knowable α] [Knowable σ]

/-- A round of a loop takes a token, unless it is the last. -/
def Turn (env : Env) (F : Nat → Nat → State → Prop) (lo : Nat) : Round σ α → State → Prop
  | .again x, s => Read env F (lo + 1) x s
  | .done a, s => Read env F lo a s ∨ Read env F (lo + 1) a s

namespace Ends

variable {R : β → State → Prop}

theorem again {x : σ} [Known env x] : Ends env (F 8 (lo + 1)) (Pure.pure (.again x))
    (Pure.pure (.again x)) (Turn (α := α) env F lo) :=
  .pure fun _ hs => ⟨hs, inferInstance⟩

theorem done {a : α} [Known env a] : Ends env (F 8 lo) (Pure.pure (.done a)) (Pure.pure (.done a))
    (Turn (σ := σ) env F lo) :=
  .pure fun _ hs => .inl ⟨hs, inferInstance⟩

/-- The last round takes a token too. -/
theorem halt {a : α} [Known env a] : Ends env (F 8 (lo + 1)) (Pure.pure (.done a))
    (Pure.pure (.done a)) (Turn (σ := σ) env F lo) :=
  .pure fun _ hs => .inr ⟨hs, inferInstance⟩

theorem rounds [Scale env B F] {x : σ} [hx : Known env x] {round round' : σ → Parse (Round σ α)}
    (step : ∀ lo x [Known env x], Ends env (F 8 lo) (round x) (round' x) (Turn env F lo)) :
    Ends env (F 8 lo) (Parse.loop x round) (Parse.loop x round') (Read env F lo) := by
  intro s₀ hs₀
  let I (lo' : Nat) (x : σ) (s : State) : Prop := (F 8 lo' s ∧ lo ≤ lo') ∧ Known env x
  have hI : I lo x s₀ := ⟨⟨hs₀, Nat.le_refl _⟩, hx⟩
  have hback {lo' : Nat} {s : State} (hs : F 8 lo' s) (hlo : lo ≤ lo') : F 8 lo s :=
    Scale.back env hs hs₀ hlo (Nat.le_refl _)
  refine loop I (fun h => Scale.bound h.1.1) (fun x lo' => .fact fun _ => .fact fun hlo => ?_) s₀ hI
  refine .conclude (step lo' x) fun r s h => ?_
  cases r with
  | again y => exact ⟨⟨h.1, Nat.le_succ_of_le hlo⟩, h.2⟩
  | done a =>
    rcases h with h | h
    · exact ⟨hback h.1 hlo, h.2⟩
    · exact ⟨hback h.1 (Nat.le_succ_of_le hlo), h.2⟩

theorem loops [Scale env B F] {x : σ} [Known env x] {round round' : σ → Parse (Round σ α)} {f f' : α → Parse β}
    (step : ∀ lo x [Known env x], Ends env (F 8 lo) (round x) (round' x) (Turn env F lo))
    (hf : ∀ a [Known env a], Ends env (F 8 lo) (f a) (f' a) R) :
    Ends env (F 8 lo) (Parse.loop x round >>= f) (Parse.loop x round' >>= f') R :=
  .bind (.rounds step) fun a => .fact fun _ => hf a

/-- Items that a rule without a name reads. -/
theorem gathers [Scale env B F] [Stays env B stop] {p p' : Parse α} {f f' : List α → Parse β}
    (hp : ∀ lo, Ends env (F 8 lo) p p' (Read env F (lo + 1)))
    (hf : ∀ as [Known env as], Ends env (F 8 lo) (f as) (f' as) R) :
    Ends env (F 8 lo) (until' stop p >>= f) (until' stop p' >>= f') R := by
  have : Runs env F stop stop := Stays.runs
  refine .bind (Q := Read env F lo) (.loops (fun lo as => .go fun _ => ?_) fun as has => ?_) fun as =>
    .fact fun _ =>
    hf as
  · exact .fork .done <| .bind (hp lo) fun a => .fact fun _ => .again
  · have : Known env as.reverse := ⟨fun a ha => has.holds a (List.mem_reverse.mp ha)⟩
    exact .result

end Ends

theorem Advances.until [Scale env B F] [Stays env B stop] {k : Nat} {p p' : Parse α}
    [h : Advances env F k p p'] : Runs env F (until' stop p) (until' stop p') where
  runs lo := by
    have hp (lo : Nat) : Ends env (F 8 lo) p p' (Read env F (lo + 1)) := fun s hs =>
      h.advances lo s (Scale.back env hs hs (Nat.le_refl _) h.le)
    have hu : Ends env (F 8 lo) (until' stop p >>= pure) (until' stop p' >>= pure) (Read env F lo) :=
      .gathers hp fun _ => .result
    simpa only [bind_pure] using hu

instance [Stays env (Poised env) stop] {n k : Nat} {p p' : Parse α}
    [Fronts env n k p p'] : Trails env n (until' stop p) (until' stop p') :=
  Advances.until

end

end ScriptTree.Parse
