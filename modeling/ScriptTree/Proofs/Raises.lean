import ScriptTree.Proofs.Returns

/-! # Runs that end with a failure

The other side of a step: `Raises` is the relation of the runs that fail. A sequence of steps fails in one
of them, after those before it have returned. -/

namespace ScriptTree

variable {b : Prop} {ρ σ α β : Type} {p : Action ρ σ α} {f : α → Action ρ σ β} {r : ρ} {s : σ} {a : α} {e : Failure}

/-- From the state `s` the step fails with `e`. -/
def Raises (p : Action ρ σ α) (r : ρ) (s : σ) (e : Failure) : Prop :=
  ∃ u, p r s = .error e u

def Failure.IsRejection (e : Failure) : Prop := ∃ x, e = .rejected x

/-- The failure of a result, if it is one. -/
def failure? : Except Failure α → Option Failure
  | .error e => some e
  | .ok _ => none

theorem failure?_eq_some {x : Except Failure α} : failure? x = some e ↔ x = .error e := by
  cases x <;> simp [failure?]

theorem Raises.bind (h : Raises (p >>= f) r s e) : Raises p r s e ∨ ∃ a u, Returns p r s a u ∧ Raises (f a) r u e := by
  obtain ⟨u, h⟩ := h
  rcases bind_fails h with h | ⟨a, v, h₁, h₂⟩
  · exact .inl ⟨u, h⟩
  · exact .inr ⟨a, v, h₁, u, h₂⟩

@[simp] theorem raises_pure : ¬ Raises (pure a : Action ρ σ α) r s e := by
  rintro ⟨u, h⟩; cases h

@[simp] theorem raises_modify {f : σ → σ} :
    ¬ Raises (modify f : Action ρ σ Unit) r s e := by
  rintro ⟨u, h⟩; cases h

theorem raises_throw {e' : Failure} : Raises (throw e' : Action ρ σ α) r s e ↔ e = e' := by
  constructor
  · rintro ⟨u, h⟩; cases h; rfl
  · rintro rfl; exact ⟨s, rfl⟩

theorem raises_ite [Decidable b] {q : Action ρ σ α} :
    Raises (if b then p else q) r s e ↔ b ∧ Raises p r s e ∨ ¬ b ∧ Raises q r s e := by
  split <;> simp [*]

theorem Raises.ite [Decidable b] {q : Action ρ σ α}
    (h : Raises (if b then p else q) r s e) : b ∧ Raises p r s e ∨ ¬ b ∧ Raises q r s e :=
  raises_ite.mp h

/-- A first step that returns is not the one that fails. -/
theorem Raises.first {u : σ} (h : Raises (p >>= f) r s e) (hp : p r s = .ok a u) : Raises (f a) r u e := by
  obtain ⟨v, h⟩ := h
  rw [bind_ok f hp] at h
  exact ⟨v, h⟩

theorem Raises.pure (h : Raises (pure a >>= f) r s e) : Raises (f a) r s e :=
  h.first rfl

theorem Raises.read {f : ρ → Action ρ σ β} (h : Raises (read >>= f) r s e) : Raises (f r) r s e :=
  h.first rfl

theorem Raises.get {f : σ → Action ρ σ β} (h : Raises (get >>= f) r s e) : Raises (f s) r s e :=
  h.first rfl

theorem Raises.modify {g : σ → σ} {f : Unit → Action ρ σ β}
    (h : Raises (modify g >>= f) r s e) : Raises (f ()) r (g s) e :=
  h.first rfl

end ScriptTree
