import ScriptTree.Proofs.Scan.Built
import ScriptTree.Proofs.Scan.Evidence

/-! # Scans that do not look at the open brackets

Only the choice between a template that goes on and a closing brace depends on the brackets that are open.
Every other step of a scan returns the same whatever they are (`Blind`), and where no substitution is open
so does the scan of a whole token (`next_blind`). -/

-- a scan is one large term for the search for instances
set_option synthInstance.maxSize 200000

namespace ScriptTree.Scan

variable {α β : Type} {st : Settings} {c d : Cursor}

/-- A step that goes the same way whatever brackets are open. -/
class Blind (p : Scan α) : Prop where
  blind : ∀ {st : Settings} {c d : Cursor} {a : α} (os : List Opener), Returns p st c a d →
    ∃ os', Returns p st { c with openers := os } a { d with openers := os' }

theorem blind_modify {f : Cursor → Cursor}
    (hf : ∀ c os, ∃ os', f { c with openers := os } = { f c with openers := os' }) :
    Blind (modify f : Scan Unit) where
  blind {st c d u} os h := by
    obtain rfl := returns_modify.mp h
    obtain ⟨os', ho⟩ := hf c os
    exact ⟨os', returns_modify.mpr ho.symm⟩

instance {p : Scan α} [h : Built p] : Blind p := by
  induction h with
  | returns a =>
    refine ⟨fun os h => ?_⟩
    obtain ⟨rfl, rfl⟩ := h.ended
    exact ⟨os, returns_pure.mpr ⟨rfl, rfl⟩⟩
  | fails e => exact ⟨fun _ h => absurd h returns_throw⟩
  | sequence _ _ hp hf =>
    refine ⟨fun os h => ?_⟩
    obtain ⟨a, e, h₁, h₂⟩ := h.bind
    obtain ⟨os₁, h₁⟩ := hp.blind os h₁
    obtain ⟨os₂, h₂⟩ := (hf a).blind os₁ h₂
    exact ⟨os₂, returns_bind.mpr ⟨a, _, h₁, h₂⟩⟩
  | reads _ _ hf => exact ⟨fun os h => (hf _).blind os h.read⟩
  | asks q h =>
    refine ⟨fun {st c d a} os hp => ?_⟩
    cases (h st c).symm.trans hp
    exact ⟨os, h st _⟩
  | moves f => exact blind_modify fun _ os => ⟨os, rfl⟩
  | opens f _ => exact blind_modify fun _ os => ⟨f os, rfl⟩
  | tolerates e _ =>
    refine ⟨fun {st c d a} os h => ?_⟩
    obtain ⟨ht, rfl⟩ := returns_tolerate.mp h
    exact ⟨os, returns_tolerate.mpr ⟨ht, rfl⟩⟩

def closedNext : Scan Token := do
  if ← atEnd then return ← token (← index) .endOfInput
  let c ← here
  if Text.isIdentifierStart c then name
  else if c == 0x27 || c == 0x22 then string
  else if c == 0x2E then
    if Text.isDecimalDigit (← charAt ((← index) + 1)) then numeral else punctuator
  else if Text.isDecimalDigit c then numeral
  else if c == 0x60 then template
  else punctuator

instance : Built closedNext := .andThen

theorem next_eq_closedNext (hc : .substitution ∉ c.openers) : next st c = closedNext st c := by
  have hhead : (c.openers.head? == some .substitution) = false :=
    beq_false_of_ne fun h => hc (List.mem_of_mem_head? h)
  unfold next closedNext
  rw [bind_ok _ (rfl : atEnd st c = .ok _ c), bind_ok _ (rfl : atEnd st c = .ok _ c)]
  split
  · rfl
  · cases hx : here st c with
    | error e d => rw [bind_error _ hx, bind_error _ hx]
    | ok x d =>
      obtain rfl := (returns_here.mp hx).2
      rw [bind_ok _ hx, bind_ok _ hx]
      -- the openers are looked at in the last choice only
      iterate 4 (split; · rfl)
      rw [bind_ok _ (rfl : (get : Scan Cursor) st d = .ok d d), hhead, Bool.and_false, Bool.or_false]

/-- Without an open substitution the brackets do not matter for the next token. -/
theorem next_blind {t : Token} {os : List Opener} (hc : .substitution ∉ c.openers)
    (ho : .substitution ∉ os) (h : Returns next st c t d) :
    ∃ os', Returns next st { c with openers := os } t { d with openers := os' } := by
  obtain ⟨os', h'⟩ := Blind.blind os ((next_eq_closedNext hc).symm.trans h : Returns closedNext st c t d)
  exact ⟨os', (next_eq_closedNext ho).trans h'⟩

end ScriptTree.Scan
