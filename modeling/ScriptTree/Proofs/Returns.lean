import ScriptTree.Failure

/-! # Runs that end with a result

Scans and parses are steps that read an environment, change a state and may fail. `Returns` is the
relation of the runs that do not fail, and the lemmas here take a run apart along the structure of its
step. Later modules look at no other side of a step, but where two runs are compared. -/

namespace ScriptTree

variable {e : Failure}

/-- A step that reads an environment, changes a state and may fail. -/
abbrev Action (ρ σ : Type) := ReaderT ρ (EStateM Failure σ)

variable {ρ σ α β : Type} {p : Action ρ σ α} {f : α → Action ρ σ β} {r : ρ} {s s' u : σ} {a : α} {b : β}

theorem bind_eq_ok {x : Except Failure α} {f : α → Except Failure β} :
    x >>= f = .ok b ↔ ∃ a, x = .ok a ∧ f a = .ok b := by
  cases x <;> simp [bind, Except.bind]

/-- From the state `s` the step returns `a` and leaves the state `s'`. -/
def Returns (p : Action ρ σ α) (r : ρ) (s : σ) (a : α) (s' : σ) : Prop :=
  p r s = .ok a s'

@[simp] theorem returns_bind : Returns (p >>= f) r s b s' ↔ ∃ a u, Returns p r s a u ∧ Returns (f a) r u b s' := by
  unfold Returns
  change EStateM.bind (p r) (fun a => f a r) s = _ ↔ _
  unfold EStateM.bind
  cases h : p r s with
  | ok a u => simp [and_assoc]
  | error e u => simp

theorem Returns.bind (h : Returns (p >>= f) r s b s') : ∃ a u, Returns p r s a u ∧ Returns (f a) r u b s' :=
  returns_bind.mp h

theorem Returns.seq (hp : Returns p r s a u) (h : Returns (f a) r u b s') : Returns (p >>= f) r s b s' :=
  returns_bind.mpr ⟨a, u, hp, h⟩

@[simp] theorem returns_pure {b : α} :
    Returns (pure a : Action ρ σ α) r s b s' ↔ b = a ∧ s' = s := by
  change EStateM.Result.ok a s = _ ↔ _
  simp [eq_comm]

theorem Returns.ended {b : α} (h : Returns (pure a : Action ρ σ α) r s b s') : b = a ∧ s' = s :=
  returns_pure.mp h

@[simp] theorem returns_map {f : α → β} :
    Returns (f <$> p) r s b s' ↔ ∃ a, Returns p r s a s' ∧ b = f a := by
  have hm : f <$> p = p >>= fun a => pure (f a) := rfl
  rw [hm]
  simp only [returns_bind, returns_pure]
  constructor
  · rintro ⟨a, u, h, rfl, rfl⟩
    exact ⟨a, h, rfl⟩
  · rintro ⟨a, h, rfl⟩
    exact ⟨a, s', h, rfl, rfl⟩

@[simp] theorem returns_throw : ¬ Returns (throw e : Action ρ σ α) r s a s' := by
  intro h; cases h

variable {q : Action ρ σ α}

theorem returns_ite {b : Prop} [Decidable b] :
    Returns (if b then p else q) r s a s' ↔ b ∧ Returns p r s a s' ∨ ¬ b ∧ Returns q r s a s' := by
  split <;> simp [*]

theorem Returns.ite {b : Prop} [Decidable b]
    (h : Returns (if b then p else q) r s a s') : b ∧ Returns p r s a s' ∨ ¬ b ∧ Returns q r s a s' :=
  returns_ite.mp h

@[simp] theorem returns_get {x : σ} :
    Returns (get : Action ρ σ σ) r s x s' ↔ x = s ∧ s' = s := by
  change EStateM.Result.ok s s = _ ↔ _
  simp [eq_comm]

@[simp] theorem returns_read {x : ρ} :
    Returns (read : Action ρ σ ρ) r s x s' ↔ x = r ∧ s' = s := by
  change EStateM.Result.ok r s = _ ↔ _
  simp [eq_comm]

@[simp] theorem returns_modify {f : σ → σ} {u : Unit} :
    Returns (modify f : Action ρ σ Unit) r s u s' ↔ s' = f s := by
  change EStateM.Result.ok () (f s) = _ ↔ _
  simp [eq_comm]

/-! ## First steps

What a first step that only reads or changes the state leaves of a run. -/

/-- The outcome of a first step that cannot fail is found by running it. -/
theorem Returns.first (h : Returns (p >>= f) r s b s') (hp : p r s = .ok a u) : Returns (f a) r u b s' := by
  obtain ⟨_, _, h₁, h⟩ := h.bind
  cases hp.symm.trans h₁
  exact h

theorem Returns.pure (h : Returns (pure a >>= f) r s b s') : Returns (f a) r s b s' :=
  h.first rfl

theorem Returns.read {f : ρ → Action ρ σ β} (h : Returns (read >>= f) r s b s') : Returns (f r) r s b s' :=
  h.first rfl

theorem Returns.get {f : σ → Action ρ σ β} (h : Returns (get >>= f) r s b s') : Returns (f s) r s b s' :=
  h.first rfl

theorem Returns.modify {g : σ → σ} {f : Unit → Action ρ σ β}
    (h : Returns (modify g >>= f) r s b s') : Returns (f ()) r (g s) b s' :=
  h.first rfl

/-! ## Failures

A sequence of steps fails in one of them. -/

theorem bind_fails (h : (p >>= f) r s = .error e u) :
    p r s = .error e u ∨ ∃ a v, Returns p r s a v ∧ f a r v = .error e u := by
  change EStateM.bind (p r) (fun a => f a r) s = _ at h
  unfold EStateM.bind at h
  cases hp : p r s with
  | ok a v =>
    rw [hp] at h
    exact .inr ⟨a, v, hp, h⟩
  | error e' v =>
    rw [hp] at h
    cases h
    exact .inl rfl

theorem bind_error (f : α → Action ρ σ β) (h : p r s = .error e u) : (p >>= f) r s = .error e u := by
  change EStateM.bind (p r) (fun a => f a r) s = _
  unfold EStateM.bind
  rw [h]

theorem bind_ok (f : α → Action ρ σ β) (h : Returns p r s a u) : (p >>= f) r s = f a r u := by
  change EStateM.bind (p r) (fun a => f a r) s = _
  unfold EStateM.bind
  rw [h]

/-- The step returns, and its result and the state that it leaves pass a test. -/
def passes (p : Action ρ σ α) (r : ρ) (s : σ) (q : α → σ → Bool) : Bool :=
  match p r s with
  | .ok a s' => q a s'
  | .error .. => false

theorem exists_returns {q : α → σ → Bool} (h : passes p r s q = true) : ∃ a s', Returns p r s a s' ∧ q a s' = true := by
  unfold passes at h
  split at h
  · exact ⟨_, _, ‹_›, h⟩
  · cases h

end ScriptTree
