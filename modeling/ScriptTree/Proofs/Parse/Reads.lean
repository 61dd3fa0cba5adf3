import ScriptTree.Proofs.Node.Nesting
import ScriptTree.Proofs.Parse.Marks

/-! # Rules that read nodes

`Leads` says what holds after a rule if something held before it, and has a lemma for each way to build a
rule. Before its first token a rule is `At` an offset. From then on the nodes that it has read lie between
that offset and the last token (`Holds`), and the end of the rule puts them into a node. `Reads` sums this
up for a rule as a whole.

Nothing is tolerated, so that a complaint never returns (`Fails`). -/

namespace ScriptTree.Parse

variable {α β γ : Type} {env : Env} {gs : List (List Node)} {lo : Nat} {ns : List Node} {s : State} {F : Prop}
  {n : Node} {stop : Parse Bool}

/-- Nodes get ranges, nothing is tolerated, there is no markup, and no node is replaced. -/
class Ranged (env : Env) : Prop where
  range : env.options.range = true
  strict : env.options.tolerant = false
  plain : env.options.jsx = false
  kept : ∀ names, env.options.delegate ≠ .rename names

/-- Nothing is tolerated. -/
class Intolerant (env : Env) : Prop where
  strict : env.options.tolerant = false

instance {env : Env} [h : Ranged env] : Intolerant env := ⟨h.strict⟩

/-- From a state of which one thing holds the rule only returns a result and a state of which another
holds. -/
def Leads {α : Type} (env : Env) (P : State → Prop) (p : Parse α) (Q : α → State → Prop) : Prop :=
  ∀ s a s', P s → Returns p env s a s' → Q a s'

/-- What holds after a round of a loop: one thing if the loop goes on, another if it is done. -/
def Round.Satisfies {σ α : Type} (I : σ → Prop) (Q : α → Prop) : Round σ α → Prop
  | .again x => I x
  | .done a => Q a

@[simp] theorem Round.satisfies_again {σ α : Type} {I : σ → Prop} {Q : α → Prop} {x : σ} :
    Round.Satisfies I Q (.again x) ↔ I x := .rfl

@[simp] theorem Round.satisfies_done {σ α : Type} {I : σ → Prop} {Q : α → Prop} {a : α} :
    Round.Satisfies I Q (.done a) ↔ Q a := .rfl

/-- The rule never returns. -/
class Fails {α : Type} (env : Env) (p : Parse α) : Prop where
  fails : ∀ {s s' : State} {a : α}, ¬ Returns p env s a s'

/-- What holds before the rule holds after it. -/
class Keeps {α : Type} (env : Env) (P : State → Prop) (p : Parse α) : Prop where
  leads : Leads env P p fun _ => P

/-- What does not depend on the state is kept. -/
instance {α : Type} {env : Env} (p : Parse α) : Keeps env (fun _ => F) p := ⟨fun _ _ _ hF _ => hF⟩

namespace Leads

variable {σ : Type} {P P' : State → Prop} {p q : Parse α} {f : α → Parse β} {Q : α → State → Prop}
  {R : β → State → Prop} {c : Prop} [Decidable c]

theorem bind (hp : Leads env P p Q) (hf : ∀ a, Leads env (Q a) (f a) R) : Leads env P (p >>= f) R := by
  intro s b s' hs h
  obtain ⟨a, u, h₁, h₂⟩ := h.bind
  exact hf a u b s' (hp s a u hs h₁) h₂

theorem pure {a : α} (h : ∀ s, P s → Q a s := by exact fun _ h => h) : Leads env P (Pure.pure a) Q := by
  intro s b s' hs h'
  obtain ⟨rfl, rfl⟩ := h'.ended
  exact h _ hs

theorem pure_bind {a : α} (h : Leads env P (f a) R) : Leads env P (Pure.pure a >>= f) R := by
  intro s b s' hs h'
  obtain ⟨a', u, h₁, h₂⟩ := h'.bind
  obtain ⟨rfl, rfl⟩ := h₁.ended
  exact h _ b s' hs h₂

theorem weaken (hP : ∀ s, P' s → P s) (h : Leads env P p Q) : Leads env P' p Q := by
  intro s a s' hs
  exact h s a s' (hP s hs)

/-- Something that does not depend on the state. -/
theorem fact (h : F → Leads env P p Q) : Leads env (fun s => P s ∧ F) p Q := by
  rintro s a s' ⟨hs, hF⟩
  exact h hF s a s' hs

theorem ite (h₁ : c → Leads env P p Q) (h₂ : ¬ c → Leads env P q Q) : Leads env P (if c then p else q) Q := by
  intro s a s' hs h
  rcases h.ite with ⟨hc, h⟩ | ⟨hc, h⟩
  · exact h₁ hc s a s' hs h
  · exact h₂ hc s a s' hs h

/-- It does not matter which way is taken. -/
theorem fork (h₁ : Leads env P p Q) (h₂ : Leads env P q Q) : Leads env P (if c then p else q) Q :=
  .ite (fun _ => h₁) fun _ => h₂

theorem fails [Fails env p] : Leads env P p Q := by
  intro s a s' _ h
  exact absurd h Fails.fails

theorem fails_bind [Fails env p] : Leads env P (p >>= f) R := by
  intro s b s' _ h
  obtain ⟨a, u, h₁, -⟩ := h.bind
  exact absurd h₁ Fails.fails

/-- A first step that leaves the condition as it is. -/
theorem keeps [Keeps env P p] (hf : ∀ a, Leads env P (f a) R) : Leads env P (p >>= f) R := .bind Keeps.leads hf

theorem past [Keeps env P p] (hf : ∀ {a}, Leads env P (f a) R) : Leads env P (p >>= f) R := .keeps fun _ => hf

variable {p : Parse Unit}

theorem pastIf {f : Unit → Parse β} [Keeps env P p] (h : Leads env P (f ()) R) :
    Leads env P (if c then p >>= f else f ()) R :=
  .fork (.past h) h

theorem pastUnless {f : Unit → Parse β} [Keeps env P p] (h : Leads env P (f ()) R) :
    Leads env P (if c then f () else p >>= f) R :=
  .fork h (.past h)

/-- A complaint under a condition. -/
theorem when {f : Unit → Parse β} [Fails env p] (h : Leads env P (f ()) R) :
    Leads env P (if c then p >>= f else f ()) R :=
  .fork .fails_bind h

/-- A complaint unless a condition holds. -/
theorem guard {f : Unit → Parse β} [Fails env p] (h : Leads env P (f ()) R) :
    Leads env P (if c then f () else p >>= f) R :=
  .fork h .fails_bind

/-- What each round of a loop preserves holds until its last round. -/
theorem loop {x : σ} {round : σ → Parse (Round σ α)} (I : σ → State → Prop) (hx : ∀ s, P s → I x s)
    (step : ∀ x, Leads env (I x) (round x) fun r s => r.Satisfies (I · s) (Q · s)) :
    Leads env P (Parse.loop x round) Q := by
  intro s a s' hs h
  replace hs := hx s hs
  replace h := Returns.first h rfl
  clear hx
  generalize env.source.length + 2 = n at h
  induction n generalizing x s with
  | zero => exact absurd h returns_throw
  | succ n ih =>
    obtain ⟨r, u, h₁, h⟩ := Returns.bind h
    have hr := step x s r u hs h₁
    split at h
    · exact ih u hr h
    · obtain ⟨rfl, rfl⟩ := h.ended
      exact hr

theorem loops {x : σ} {round : σ → Parse (Round σ α)} (I : σ → State → Prop) (hx : ∀ s, P s → I x s)
    (step : ∀ x, Leads env (I x) (round x) fun r s => r.Satisfies (I · s) (Q · s))
    (hf : ∀ a, Leads env (Q a) (f a) R) : Leads env P (Parse.loop x round >>= f) R :=
  .bind (.loop I hx step) hf

/-- A walk over a list that never stops early. -/
theorem forIn {f : γ → σ → Parse (ForInStep σ)} (I : List γ → σ → State → Prop)
    (step : ∀ known c x, Leads env (I known x) (f c x) fun r s => ∃ y, r = .yield y ∧ I (known ++ [c]) y s)
    {known cs : List γ} {x : σ} : Leads env (I known x) (ForIn.forIn cs x f) (I (known ++ cs)) := by
  induction cs generalizing known x with
  | nil => exact .pure fun _ h => by simpa using h
  | cons c cs ih =>
    rw [List.forIn_cons]
    refine .bind (step known c x) fun r s y s' hr h => ?_
    obtain ⟨x, rfl, hx⟩ := hr
    simpa using ih s y s' hx h

section

variable {S : Operand → List Pending → State → Prop} (hjoin : ∀ p right rest k, Leads env (S right (p :: rest))
  (Parse.finish (tokenMark p.left.token k) (.binaryExpression p.operator p.left.node right.node))
  fun n => S ⟨p.left.token, n⟩ rest) {right : Operand} {pending : List Pending}

include hjoin

/-- What each operator that is applied preserves holds when the operators that bind tightly have been applied. -/
theorem reduces {least : Nat} : Leads env (S right pending) (reduce least right pending) fun x => S x.1 x.2 := by
  induction pending generalizing right with
  | nil => exact .pure
  | cons p rest ih => exact .fork (.bind (hjoin _ _ _ _) fun _ => ih) .pure

theorem reducesAll {Q : Node → State → Prop} (hQ : ∀ right s, S right [] s → Q right.node s) :
    Leads env (S right pending) (reduceAll right pending) Q := by
  induction pending generalizing right with
  | nil => exact .pure (hQ right)
  | cons p rest ih => exact .bind (hjoin _ _ _ _) fun _ => ih

end

end Leads

section

variable (m : Option Message)

theorem Fails.bind {p : Parse α} {f : α → Parse β} (hf : ∀ a, Fails env (f a) := by infer_instance) :
    Fails env (p >>= f) where
  fails h := by
    obtain ⟨a, u, -, h⟩ := h.bind
    exact (hf a).fails h

instance (e : Failure) : Fails env (throw e : Parse α) := ⟨returns_throw⟩

instance (m : Message) (parts : List Text) : Fails env (reject (α := α) m parts) := .bind fun _ => .bind inferInstance

instance (t : Token) : Fails env (rejectToken (α := α) t m) := .bind

instance : Fails env (rejectAhead (α := α) m) := .bind

instance (o : Offender) : Fails env (rejectOffender (α := α) o m) := .bind

instance : Fails env (rejectMissingFrom (α := α)) := by
  refine .bind fun l => ?_
  split
  · exact .bind inferInstance
  · infer_instance

theorem Intolerant.not_tolerant [Intolerant env] : ¬ env.options.tolerant = true := by
  rw [Intolerant.strict]
  decide

instance [Intolerant env] (e : SyntaxError) : Fails env (scan (Scan.tolerate e)) where
  fails h := by
    obtain ⟨d, hd, -⟩ := returns_scan.mp h
    exact Intolerant.not_tolerant (Scan.returns_tolerate.mp hd).1

instance [Intolerant env] (t : Token) : Fails env (complainToken t m) := .bind

instance [Intolerant env] (o : Offender) : Fails env (complainOffender o m) := .bind

instance [Intolerant env] (m : Message) (parts : List Text) : Fails env (complain m parts) where
  fails h := by
    obtain ⟨text, _, _, h⟩ := Returns.bind h
    obtain ⟨e, _, _, h⟩ := h.bind
    obtain ⟨d, hd, -⟩ := returns_scan.mp h
    exact Intolerant.not_tolerant (Scan.returns_tolerate.mp (hd.first rfl)).1

end

/-! ## What a rule has read -/

/-- The token ahead starts at an offset. -/
structure At (env : Env) (lo : Nat) (s : State) : Prop extends Ready env s where
  eq : s.startMark.index = lo

/-- The comments inside a node start where it ends or before, and those that start before it ends end inside it. -/
def Harbours (a : Attachment) (id : Nat) (r : Range) : Prop :=
  id < a.nextId ∧ ∀ x ∈ (a.remarksOf id).inner, ∃ place, x.range = some place ∧ place.start ≤ r.stop ∧
    (place.start < r.stop ↔ place.stop ≤ r.stop)

/-- A node ends at the line and the column of the end of its range. So it starts at those of the start of its range,
unless a token that starts there ends on a later line. -/
structure Sited (env : Env) (a : Attachment) (id : Nat) (r : Range) (l : Option Location) : Prop where
  location : env.options.location = true → 0 < env.source.length → ∃ start,
    l = some ⟨start, env.source.positionOf r.stop⟩ ∧
      (start = env.source.positionOf r.start ∨ env.source.SpansLines r.start)
  inner : env.options.attach = true → Harbours a id r

theorem Sited.grow {env : Env} {a a' : Attachment} (ha : a.Extends a') {id : Nat} {r : Range} {l : Option Location}
    (h : Sited env a id r l) : Sited env a' id r l where
  location := h.location
  inner hattach := by
    obtain ⟨hid, hinner⟩ := h.inner hattach
    exact ⟨Nat.lt_of_lt_of_le hid ha.count, by rwa [ha.inner id hid]⟩

/-- Each group of nodes is in a row. -/
def Groups (L : Siting) (lo hi : Nat) : List (List Node) → Prop
  | [] => True
  | ns :: rest => Row L lo hi ns ∧ Groups L lo hi rest

/-- A token from an offset on has been taken, and each group of nodes is in a row from that offset to the
end of the last token. The last group comes first. -/
structure Holds (env : Env) (lo : Nat) (groups : List (List Node)) (s : State) : Prop extends Ready env s where
  lower : lo ≤ s.lastMark.index
  upper : s.lastMark.index ≤ s.startMark.index
  rows : Groups (Sited env s.attachment) lo s.lastMark.index groups

theorem Groups.mono {L L' : Siting} {lo hi lo' hi' : Nat} (h : Groups L lo hi gs) (hlo : lo' ≤ lo)
    (hhi : hi ≤ hi') (hL : ∀ {id r l}, L id r l → L' id r l := by exact id) : Groups L' lo' hi' gs := by
  induction gs with
  | nil => trivial
  | cons ns gs ih => exact ⟨(h.1.imp hL).mono hlo hhi, ih h.2⟩

namespace Holds

variable {ms : List Node} {hs : List (List Node)} {u : State}

theorem goes (h : Holds env lo gs s) (h' : Goes env s u) : Holds env lo gs u := by
  have := h.lower
  have := h.upper
  have := h'.marks
  exact ⟨h'.ready, by omega, by omega, h.rows.mono (Nat.le_refl _) (by omega) (.grow h'.grows)⟩

/-- More nodes, as a group of their own. -/
theorem add (h : Holds env lo gs s) (h' : Holds env s.startMark.index [ns] u) (hg : s.attachment.Extends u.attachment) :
    Holds env lo (ns :: gs) u := by
  have := h.lower
  have := h.upper
  have := h'.lower
  exact ⟨h'.toReady, by omega, h'.upper, h'.rows.1.mono (by omega) (Nat.le_refl _),
    h.rows.mono (Nat.le_refl _) (by omega) (.grow hg)⟩

/-- More nodes after those of the last group. -/
theorem extend (h : Holds env lo (ns :: gs) s) (h' : Holds env s.startMark.index [ms] u)
    (hg : s.attachment.Extends u.attachment) : Holds env lo ((ns ++ ms) :: gs) u := by
  have := h.lower
  have := h.upper
  have := h'.lower
  exact ⟨h'.toReady, by omega, h'.upper, (h.rows.1.imp (.grow hg)).append h'.rows.1 (by omega) (by omega) (by omega),
    h.rows.2.mono (Nat.le_refl _) (by omega) (.grow hg)⟩

theorem imp (h : Holds env lo gs s) (f : ∀ {L hi}, Groups L lo hi gs → Groups L lo hi hs) : Holds env lo hs s :=
  ⟨h.toReady, h.lower, h.upper, f h.rows⟩

end Holds

/-- The marks are where they were. -/
structure Still (env : Env) (s s' : State) : Prop where
  ready : Ready env s → Ready env s'
  start : s'.startMark.index = s.startMark.index
  last : s'.lastMark.index = s.lastMark.index
  grows : s.attachment.Extends s'.attachment

/-- The nodes that a result holds, in the order of the source. -/
class Held (α : Type) where
  nodes : α → List Node

/-- The nodes of a result lie between an offset and the end of the last token. -/
abbrev Yields {α : Type} [Held α] (env : Env) (lo : Nat) (a : α) : State → Prop := Holds env lo [Held.nodes a]

section

variable (env : Env) (p : Parse α)

/-- The rule leaves the marks where they are. -/
class Quiet : Prop where
  still : ∀ {s a s'}, Returns p env s a s' → Still env s s'

class Takes : Prop where
  leads : ∀ lo, Leads env (At env lo) p fun _ => Holds env lo []

/-- The rule takes a token, and the nodes of its result lie between the marks. -/
class Reads [Held α] : Prop where
  leads : ∀ lo, Leads env (At env lo) p (Yields env lo)

end

variable {s' : State}

instance : Held Node := ⟨fun n => [n]⟩
instance : Held (Option Node) := ⟨Option.toList⟩
instance : Held Bool := ⟨fun _ => []⟩
instance : Held (List Node) := ⟨id⟩
instance : Held (List Token) := ⟨fun _ => []⟩
instance [Held α] [Held β] : Held (α × β) := ⟨fun a => Held.nodes a.1 ++ Held.nodes a.2⟩

@[simp] theorem nodes_node (n : Node) : Held.nodes n = [n] := rfl
@[simp] theorem nodes_option (n : Option Node) : Held.nodes n = n.toList := rfl
@[simp] theorem nodes_bool (b : Bool) : Held.nodes b = [] := rfl
@[simp] theorem nodes_list (ns : List Node) : Held.nodes ns = ns := rfl
@[simp] theorem nodes_tokens (ts : List Token) : Held.nodes ts = [] := rfl
@[simp] theorem nodes_pair [Held α] [Held β] (a : α) (b : β) :
    Held.nodes (a, b) = Held.nodes a ++ Held.nodes b := rfl

instance [Held α] [Held β] : Held (Round α β) where
  nodes
    | .again x => Held.nodes x
    | .done a => Held.nodes a

@[simp] theorem nodes_again [Held α] [Held β] (x : α) : Held.nodes (.again x : Round α β) = Held.nodes x := rfl
@[simp] theorem nodes_done [Held α] [Held β] (a : β) : Held.nodes (.done a : Round α β) = Held.nodes a := rfl

theorem Steps.goes {p : Parse α} {a : α} [Ranged env] [Steps false p] (hs : Ready env s)
    (h : Returns p env s a s') : Goes env s s' :=
  (Steps.run (b := false) Ranged.plain nofun h).goes hs

theorem Still.refl (s : State) : Still env s s := ⟨id, rfl, rfl, .refl _⟩

theorem Still.trans {s u s' : State} (h : Still env s u) (h' : Still env u s') : Still env s s' :=
  ⟨fun hs => h'.ready (h.ready hs), h'.start.trans h.start, h'.last.trans h.last, h.grows.trans h'.grows⟩

theorem Still.goes (h : Still env s s') (hs : Ready env s) : Goes env s s' :=
  ⟨h.ready hs, .inl ⟨h.start, h.last⟩, h.grows⟩

theorem Still.at {lo : Nat} (h : Still env s s') (hs : At env lo s) : At env lo s' :=
  ⟨h.ready hs.toReady, h.start.trans hs.eq⟩

/-- What is inside a node has waited until it was finished. -/
theorem finish_harbours {m : Mark} {shape : Shape Node} (h : Returns (finish m shape) env s n s')
    (hw : Waits s) (ha : env.options.attach = true) :
    Harbours s'.attachment n.info.id ⟨m.index, s.lastMark.index⟩ := by
  obtain ⟨-, id, rfl, hv⟩ := finish_visits h
  rw [if_pos ha] at hv
  obtain ⟨rfl, hv⟩ := hv
  refine ⟨hv.count_lt, fun x hx => ?_⟩
  obtain ⟨p, hp, rfl, hle⟩ := hv.waited x hx
  obtain ⟨r, hr, -, hside⟩ := hw p hp
  exact ⟨r, hr.range, hr.start ▸ hle, fun hlt => hside.resolve_right (Nat.not_le_of_lt hlt), Nat.lt_of_lt_of_le hr.lt⟩

theorem finish_fits [Ranged env] {m : Mark} {shape : Shape Node}
    (h : Returns (finish m shape) env s n s') (hm : m.index ≤ s.lastMark.index)
    (hstart : Aligned env.source m ∨ env.source.SpansLines m.index) (hs : Ready env s)
    (hp : shape.isPlaceholder = false) (hrows : Rows (Sited env s.attachment) m.index s.lastMark.index shape.parts) :
    Fits (Sited env s'.attachment) m.index s'.lastMark.index n ∧ Still env s s' := by
  obtain ⟨hs', hn⟩ := finish_returns h
  obtain ⟨hl, he⟩ := finish_keeps h
  have hinner := finish_harbours h hs.waits
  obtain ⟨id, rfl⟩ := hn Ranged.kept
  obtain ⟨a, l, rfl⟩ : ∃ a l, s' = { s with attachment := a, log := l } := ⟨_, _, hs'⟩
  refine ⟨.of_rows (r := ⟨m.index, s.lastMark.index⟩) ?_ ⟨fun hl hne => ⟨m.position, ?_, ?_⟩, hinner⟩ hp
    (Nat.le_refl _) hm (Nat.le_refl _) (rows_iff.mpr fun p hp => (rows_iff.mp hrows p hp).imp (.grow he)),
    fun h => ⟨h.congr rfl rfl rfl h.last, h.at', h.le, fun p hp => h.waits p (hl hp)⟩, rfl, rfl, he⟩
  · simp [infoAt, Ranged.range]
  · simp [infoAt, hl, hs.last hne]
  · exact hstart.imp (· hne) fun h => h

/-! ## Steps of a rule -/

namespace Leads

variable {p : Parse α} {f : α → Parse β} {Q : α → State → Prop} {R : β → State → Prop}

/-- The start of the token ahead. -/
theorem mark {f : Mark → Parse β} (hf : ∀ m : Mark, Starts env lo m → Leads env (At env lo) (f m) R) :
    Leads env (At env lo) (startMark >>= f) R := by
  intro s b s' hs h
  exact hf s.startMark ⟨hs.eq, .inl hs.toSituated.start⟩ s b s' hs (h.first rfl)

/-- The token ahead. -/
theorem token {f : Token → Parse β} (hf : ∀ t, (∀ k, Starts env lo (tokenMark t k)) → Leads env (At env lo) (f t) R) :
    Leads env (At env lo) (lookahead >>= f) R := by
  intro s b s' hs h
  have ht : ∀ k, Starts env lo (tokenMark s.lookahead k) := hs.eq ▸ hs.mark
  exact hf s.lookahead ht s b s' hs (h.first rfl)

/-- The token ahead, which stays ahead. -/
theorem sight {f : Token → Parse β} (hf : ∀ t, Leads env (fun s => At env lo s ∧ s.lookahead = t) (f t) R) :
    Leads env (At env lo) (lookahead >>= f) R := by
  intro s b s' hs h
  exact hf s.lookahead s b s' ⟨hs, rfl⟩ (h.first rfl)

instance [Quiet env p] : Keeps env (At env lo) p := ⟨fun _ _ _ hs h => (Quiet.still h).at hs⟩

theorem takes [Takes env p] (hf : ∀ a, Leads env (Holds env lo []) (f a) R) : Leads env (At env lo) (p >>= f) R :=
  .bind (Takes.leads lo) hf

/-- A rule that first takes a token. -/
theorem opens {f : Mark → α → Parse β} [Takes env p]
    (hf : ∀ {m}, Starts env lo m → ∀ a, Leads env (Holds env lo []) (f m a) R) :
    Leads env (At env lo) (startMark >>= fun m => p >>= f m) R :=
  .mark fun _ hm => .takes (hf hm)

/-- A first step that reads nodes. -/
theorem first [Held α] [Reads env p] (hf : ∀ a, Leads env (Holds env lo [Held.nodes a]) (f a) R) :
    Leads env (At env lo) (p >>= f) R :=
  .bind (Reads.leads lo) hf

instance [Ranged env] [Steps false p] : Keeps env (Holds env lo gs) p :=
  ⟨fun _ _ _ hs h => hs.goes (Steps.goes hs.toReady h)⟩

/-- A step that takes no token leaves the marks alone. -/
instance [Quiet env p] : Keeps env (Holds env lo gs) p :=
  ⟨fun _ _ _ hs h => hs.goes ((Quiet.still h).goes hs.toReady)⟩

theorem read [Ranged env] [Held α] [Reads env p] [Steps false p] :
    Leads env (Holds env lo gs) p fun a => Holds env lo (Held.nodes a :: gs) := by
  intro s a s' hs h
  have hnew := Reads.leads s.startMark.index s a s' ⟨hs.toReady, rfl⟩ h
  exact hs.add hnew (Steps.goes hs.toReady h).grows

theorem reads [Ranged env] [Held α] [Reads env p] [Steps false p] (hf : ∀ a, Leads env (Holds env lo (Held.nodes a :: gs)) (f a) R) :
    Leads env (Holds env lo gs) (p >>= f) R :=
  .bind .read hf

/-- A rule that starts at the token ahead. -/
theorem inside [Held α] (h : ∀ lo, Leads env (At env lo) p (Yields env lo)) :
    Leads env (Holds env lo []) p (Yields env lo) := by
  intro s a s' hs h'
  have hnew := h s.startMark.index s a s' ⟨hs.toReady, rfl⟩ h'
  have hle := Nat.le_trans hs.lower hs.upper
  exact ⟨hnew.toReady, Nat.le_trans hle hnew.lower, hnew.upper, hnew.rows.mono hle (Nat.le_refl _)⟩

theorem follow [Ranged env] [Held α] [Reads env p] [Steps false p] :
    Leads env (Holds env lo (ns :: gs)) p fun a => Holds env lo ((ns ++ Held.nodes a) :: gs) := by
  intro s a s' hs h
  have hnew := Reads.leads s.startMark.index s a s' ⟨hs.toReady, rfl⟩ h
  exact hs.extend hnew (Steps.goes hs.toReady h).grows

theorem follows [Ranged env] [Held α] [Reads env p] [Steps false p] (hf : ∀ a, Leads env (Holds env lo ((ns ++ Held.nodes a) :: gs)) (f a) R) :
    Leads env (Holds env lo (ns :: gs)) (p >>= f) R :=
  .bind .follow hf

theorem imp {hs : List (List Node)} (h : Leads env (Holds env lo hs) p Q)
    (hg : ∀ {L hi}, Groups L lo hi gs → Groups L lo hi hs) : Leads env (Holds env lo gs) p Q :=
  .weaken (fun _ h => h.imp hg) h

/-- Starts a group. -/
theorem empty (h : Leads env (Holds env lo ([] :: gs)) p Q) : Leads env (Holds env lo gs) p Q :=
  h.imp fun h => ⟨.nil, h⟩

theorem followsNone (h : Leads env (Holds env lo ((ns ++ []) :: gs)) p Q) : Leads env (Holds env lo (ns :: gs)) p Q :=
  h.imp fun h => ⟨(List.append_nil ns).symm ▸ h.1, h.2⟩

theorem swap {ms : List Node} (h : Leads env (Holds env lo (ns :: ms :: gs)) p Q) :
    Leads env (Holds env lo (ms :: ns :: gs)) p Q :=
  h.imp fun ⟨hm, hn, hg⟩ => ⟨hn, hm, hg⟩

/-- The nodes of the result are among those that have been read. -/
theorem done [Held α] {a : α} (hg : ∀ {L hi}, Groups L lo hi gs → Row L lo hi (Held.nodes a)) :
    Leads env (Holds env lo gs) (Pure.pure a) (Yields env lo) :=
  .pure fun _ h => h.imp fun h => ⟨hg h, trivial⟩

/-- The nodes of the result are those that have been read last. -/
theorem result [Held α] {a : α} (ha : Held.nodes a = ns := by rfl) :
    Leads env (Holds env lo (ns :: gs)) (Pure.pure a) (Yields env lo) :=
  .done fun h => ha ▸ h.1

variable [Ranged env] {m : Mark} {shape : Shape Node}

/-- A node of what has been read. -/
theorem node (hm : Starts env lo m) (hrows : ∀ {L hi}, Groups L lo hi gs → Rows L lo hi shape.parts)
    (hp : shape.isPlaceholder = false := by rfl) :
    Leads env (Holds env lo gs) (Parse.finish m shape) fun n => Holds env lo ([n] :: gs) := by
  intro s n s' hs h
  obtain ⟨rfl, hm⟩ := hm
  obtain ⟨hn, hs'⟩ := finish_fits h hs.lower hm hs.toReady hp (hrows hs.rows)
  obtain ⟨hready, hlower, hupper, hrows⟩ := hs.goes (hs'.goes hs.toReady)
  exact ⟨hready, hlower, hupper, Row.singleton.mpr hn, hrows⟩

theorem finish (hm : Starts env lo m) (hrows : ∀ {L hi}, Groups L lo hi gs → Rows L lo hi shape.parts)
    (hp : shape.isPlaceholder = false := by rfl) :
    Leads env (Holds env lo gs) (Parse.finish m shape) (Yields env lo) := by
  intro s n s' hs h
  have hn := node hm hrows hp s n s' hs h
  exact hn.imp fun h => ⟨h.1, trivial⟩

theorem finishes {f : Node → Parse β} (hm : Starts env lo m)
    (hrows : ∀ {L hi}, Groups L lo hi gs → Rows L lo hi shape.parts)
    (hf : ∀ n, Leads env (Holds env lo ([n] :: gs)) (f n) R) (hp : shape.isPlaceholder = false := by rfl) :
    Leads env (Holds env lo gs) (Parse.finish m shape >>= f) R :=
  .bind (node hm hrows hp) hf

end Leads

namespace Quiet

variable {p : Parse α}

theorem bind {f : α → Parse β} [Quiet env p] (hf : ∀ a, Quiet env (f a) := by infer_instance) :
    Quiet env (p >>= f) where
  still h := by
    obtain ⟨a, u, h₁, h₂⟩ := h.bind
    exact (still h₁).trans ((hf a).still h₂)

instance [hp : Inspects p] : Quiet env p := ⟨fun h => hp.eq h ▸ .refl _⟩

instance (p : Parse α) (f : α → Parse β) [Quiet env p] [∀ a, Quiet env (f a)] : Quiet env (p >>= f) :=
  bind inferInstance

instance (c : Prop) [Decidable c] (p q : Parse α) [Quiet env p] [Quiet env q] : Quiet env (if c then p else q) := by
  split <;> assumption

instance (f : Context → Context) : Quiet env (setContext f) where
  still h := by
    obtain rfl := returns_modify.mp h
    exact ⟨fun h => ⟨h.congr rfl rfl rfl h.last, h.at', h.le, h.waits⟩, rfl, rfl, .refl _⟩

instance : Quiet env peekNext where
  still h := by
    rw [peekNext_returns h]
    exact ⟨fun h => ⟨h.congr rfl rfl rfl h.last, h.at', h.le, h.waits⟩, rfl, rfl, .refl _⟩

instance : Quiet env seesAsyncFunction := .bind
instance : Quiet env seesImportCall := .bind
instance : Quiet env seesLexicalDeclaration := by
  refine bind fun t => ?_
  split <;> infer_instance
instance : Quiet env onlyValue := by unfold onlyValue; infer_instance
instance : Quiet env freshCover := by unfold freshCover; infer_instance

end Quiet

namespace Takes

theorem of_took {p : Parse α} (h : ∀ {s a s'}, Ready env s → Returns p env s a s' → Took env s s') : Takes env p where
  leads lo := by
    intro s a s' hs h'
    obtain ⟨hready, hlower, hupper, -⟩ := h hs.toReady h'
    exact ⟨hready, hs.eq ▸ hlower, hupper, trivial⟩

instance (p : Parse α) (f : α → Parse β) [Ranged env] [Takes env p] [∀ a, Steps false (f a)] : Takes env (p >>= f) where
  leads lo := .bind (leads lo) fun _ => Keeps.leads

instance : Takes env next := by
  refine of_took fun hs h => ?_
  obtain ⟨-, ms, c, k, h⟩ := next_moves h
  exact hs.took h

variable [Ranged env]

instance : Takes env skip := by unfold skip; infer_instance
instance (mark : String) : Takes env (expect mark) := by unfold expect; infer_instance
instance (word : String) : Takes env (expectWord word) := by unfold expectWord; infer_instance

end Takes

namespace Reads

variable [Held α] [Held β]

instance (p : Parse α) [Fails env p] : Reads env p := ⟨fun _ => .fails⟩

instance (c : Prop) [Decidable c] (p q : Parse α) [Reads env p] [Reads env q] : Reads env (if c then p else q) := by
  split <;> assumption

theorem bind {p : Parse γ} {f : γ → Parse α} [Quiet env p] (hf : ∀ c, Reads env (f c)) : Reads env (p >>= f) :=
  ⟨fun lo => .keeps fun c => (hf c).leads lo⟩

instance (p : Parse γ) (f : γ → Parse α) [Quiet env p] [∀ c, Reads env (f c)] : Reads env (p >>= f) :=
  bind inferInstance

instance (p : Parse Node) [Reads env p] : Reads env (some <$> p) where
  leads lo := by
    intro s a s' hs h
    obtain ⟨n, hn, rfl⟩ := returns_map.mp h
    exact leads (p := p) lo s n s' hs hn

variable [Ranged env] (p : Parse α) [Reads env p]

instance : Reads env (isolate p) := by
  refine ⟨fun lo => .past <| .past <| .first fun a => .keeps fun _ => ?_⟩
  split
  · exact .fails_bind
  · exact .past .result

instance : Reads env (inherit p) := by
  refine ⟨fun lo => .past <| .past <| .first fun a => .keeps fun _ => ?_⟩
  exact .result

instance : Reads env (withoutIn p) := by
  refine ⟨fun lo => .past <| .past <| .first fun a => .keeps fun _ => ?_⟩
  exact .result

instance (p : Parse Node) [Reads env p] : Reads env (loopBody p) := by
  refine ⟨fun lo => .past <| .past <| .first fun n => .keeps fun _ => ?_⟩
  exact .result

instance [Steps false p] (missing : Parse α) : Reads env (withBody missing p) := by
  refine ⟨fun lo => .past <| .past <| .fork ?_ <| .takes fun _ => .read⟩
  -- the complaint about the missing parenthesis
  intro s a s' _ h
  obtain ⟨_, _, -, h⟩ := h.bind
  obtain ⟨_, _, h, -⟩ := h.bind
  exact absurd h Fails.fails

end Reads

theorem flatMap_nodes (ns : List Node) : ns.flatMap Held.nodes = ns := List.flatMap_singleton' ns

theorem flatMap_nodes_option (ns : List (Option Node)) : ns.flatMap Held.nodes = ns.filterMap id := by
  induction ns with
  | nil => rfl
  | cons n ns ih =>
    cases n with
    | none => exact ih
    | some n => exact congrArg (n :: ·) ih

theorem flatMap_nodes_pair [Held α] (ha : ∀ a : α, Held.nodes a = []) (ns : List (Node × α)) :
    ns.flatMap Held.nodes = ns.map Prod.fst := by
  induction ns with
  | nil => rfl
  | cons n ns ih =>
    obtain ⟨n, a⟩ := n
    simp [ih, ha]

/-- What is known of nodes that have been collected so far: rules that leave the marks change nothing, and
rules that read nodes add them. -/
structure Collects (env : Env) (J : List Node → State → Prop) : Prop where
  quiet : ∀ {α : Type} {p : Parse α} [Quiet env p] {ns}, Leads env (J ns) p fun _ => J ns
  reads : ∀ {α : Type} [Held α] {p : Parse α} [Reads env p] [Steps false p] {ns},
    Leads env (J ns) p fun a => J (ns ++ Held.nodes a)

theorem Holds.collects [Ranged env] {lo : Nat} : Collects env fun ns => Holds env lo (ns :: gs) where
  quiet := by
    intro α p _ ns s a s' hs h
    exact hs.goes ((Quiet.still h).goes hs.toReady)
  reads := .follow

theorem Collects.until' {J : List Node → State → Prop} (hJ : Collects env J) [Held α] {ns : List Node}
    {item : Parse α} [Quiet env stop] [Steps false item] (hi : Reads env item) :
    Leads env (J ns) (until' stop item) fun items => J (ns ++ items.flatMap Held.nodes) := by
  -- the items are found in reverse
  let I (found : List α) := J (ns ++ found.reverse.flatMap Held.nodes)
  refine .loops (Q := I) I (fun s hs => by simpa [I] using hs) (fun found => ?_) fun _ => .pure
  refine .bind hJ.quiet fun isEnd => .fork .pure ?_
  refine .bind hJ.reads fun a => .pure fun s h => ?_
  simpa [Round.Satisfies, I] using h

/-- Items until a stop, as a group of their own. -/
theorem Leads.collects [Ranged env] [Held α] {lo : Nat} {item : Parse α}
    [Quiet env stop] [Steps false item] {f : List α → Parse β} {R : β → State → Prop} (hi : Reads env item)
    (hf : ∀ items : List α, Leads env (Holds env lo (items.flatMap Held.nodes :: gs)) (f items) R) :
    Leads env (Holds env lo gs) (Parse.until' stop item >>= f) R :=
  .bind (.empty (Holds.collects.until' hi)) hf

/-- Rules that are put together from others in the usual ways. -/
theorem Leads.reading [Held α] {P : State → Prop} {lo : Nat} {p : Parse α} (h : Leads env P p (Yields env lo) := by
    repeat' first
      | with_reducible refine Prod.forall.mpr fun _ => ?_
      | with_reducible intro _
      | with_reducible assumption
      | with_reducible exact ‹∀ k, Starts _ _ (tokenMark _ k)› _
      | with_reducible exact .fails
      | with_reducible exact .fails_bind
      | with_reducible refine .finish ?_ ?_ ?_
      | with_reducible refine .finishes ?_ ?_ ?_ ?_
      | rfl
      | with_reducible exact .result
      | with_reducible exact Reads.leads _
      | with_reducible exact .read
      | with_reducible refine .done ?_
      | with_reducible refine .fork ?_ ?_
      | with_reducible refine .pure_bind ?_
      | with_reducible refine .mark ?_
      | with_reducible refine .token ?_
      | with_reducible refine .first ?_
      | with_reducible refine .takes ?_
      | with_reducible refine .collects ?_ ?_
      | with_reducible refine .reads ?_
      | with_reducible refine .keeps ?_
      | infer_instance
      | split
      | refine .mark ?_
      | refine .first ?_
      | refine .takes ?_
      | refine .reads ?_
      | refine .keeps ?_
      | (simp_all [Groups, Rows, Shape.parts, Shape.functionParts, Shape.classParts, Part.word, Part.text, Part.flag,
          flatMap_nodes, flatMap_nodes_option]; done)
      | grind [Groups, Rows, Shape.parts, Shape.functionParts, Shape.classParts, Part.word, Part.text, Part.flag,
          Row.left, Row.right, Row.head, Row.tail, nodes_pair, nodes_node, nodes_option, nodes_list, nodes_bool]) : Leads env P p (Yields env lo) := h

theorem Reads.routine [Held α] {p : Parse α}
    (h : ∀ lo, Leads env (At env lo) p (Yields env lo) := by
      intro _
      try change Leads _ _ (_ >>= _) _
      exact .reading) : Reads env p := ⟨h⟩

namespace Parameters

theorem params_bind (p : Parameters) (strict : Bool) (o : Offender) (name : Text) :
    (p.bind strict o name).params = p.params := by
  unfold Parameters.bind
  dsimp only
  repeat' split <;> try rfl

theorem params_foldl_bind (p : Parameters) (strict : Bool) (o : γ → Offender) (name : γ → Text) (cs : List γ) :
    (cs.foldl (fun p c => p.bind strict (o c) (name c)) p).params = p.params := by
  induction cs generalizing p with
  | nil => rfl
  | cons c cs ih => rw [List.foldl_cons, ih, params_bind]

end Parameters

end ScriptTree.Parse
