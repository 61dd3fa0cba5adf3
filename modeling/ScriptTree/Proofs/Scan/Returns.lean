import ScriptTree.Lexeme.Next
import ScriptTree.Proofs.Raises

/-! # Runs of a scan

The steps that all scans are made of: what they return, and where they leave the cursor. -/

namespace ScriptTree

variable {m : Message} {i x n : Nat} {α β : Type} {st : Settings} {c : Cursor} {l : Lexeme} {w : String}

namespace Scan

variable {b : Bool} {e : SyntaxError} {p : Place} {t : Text} {d : Cursor} {u : Unit}

@[simp] theorem returns_index : Returns index st c i d ↔ i = c.index ∧ d = c := by
  simp [index, and_comm]

@[simp] theorem returns_seek :
    Returns (seek i) st c u d ↔ d = { c with index := i } := by
  simp [seek]

@[simp] theorem returns_advance : Returns (advance n) st c u d ↔ d = { c with index := c.index + n } := by
  simp [advance]

@[simp] theorem returns_restore : Returns (restore p) st c u d ↔ d = { c with toPlace := p } := by
  simp [restore]

@[simp] theorem returns_atEnd : Returns atEnd st c b d ↔ b = decide (st.source.length ≤ c.index) ∧ d = c := by
  simp [atEnd, and_assoc, and_comm]

@[simp] theorem returns_ahead : Returns ahead st c n d ↔ n = st.source.length - c.index ∧ d = c := by
  simp [ahead, and_assoc, and_comm]

@[simp] theorem returns_charAt {i : Nat} : Returns (charAt i) st c x d ↔ st.source.at? i = some x ∧ d = c := by
  simp only [charAt, returns_bind, returns_read]
  constructor
  · rintro ⟨_, _, ⟨rfl, rfl⟩, h⟩
    split at h
    · rename_i y hy
      obtain ⟨rfl, rfl⟩ := h.ended
      exact ⟨hy, rfl⟩
    · exact absurd h returns_throw
  · rintro ⟨h, rfl⟩
    exact ⟨st, d, ⟨rfl, rfl⟩, by simp [h]⟩

@[simp] theorem returns_here : Returns here st c x d ↔ st.source.at? c.index = some x ∧ d = c := by
  simp [here, and_assoc, and_comm]

@[simp] theorem returns_take :
    Returns take st c x d ↔ st.source.at? c.index = some x ∧ d = { c with index := c.index + 1 } := by
  simp only [take, returns_bind, returns_here, returns_advance, returns_pure]
  constructor
  · rintro ⟨_, _, ⟨h, rfl⟩, _, _, rfl, rfl, rfl⟩
    exact ⟨h, rfl⟩
  · rintro ⟨h, rfl⟩
    exact ⟨x, c, ⟨h, rfl⟩, (), _, rfl, rfl, rfl⟩

@[simp] theorem returns_sees : Returns (sees i w) st c b d ↔ b = st.source.hasAt i w ∧ d = c := by
  simp [sees, and_assoc, and_comm]

@[simp] theorem returns_since : Returns (since i) st c t d ↔ t = st.source.slice i c.index ∧ d = c := by
  simp [since, and_assoc, and_comm]

@[simp] theorem returns_token {t : Token} :
    Returns (token i l) st c t d ↔ t = ⟨l, c.line, c.lineStart, i, c.index⟩ ∧ d = c := by
  simp [token, and_assoc, and_comm]

@[simp] theorem returns_complaint :
    Returns (complaint t) st c e d ↔ e = ⟨c.index, c.line, (c.index : Int) - c.lineStart + 1, t⟩ ∧ d = c := by
  simp [complaint, and_assoc, and_comm]

@[simp] theorem returns_rejectWith {a : α} : ¬ Returns (rejectWith t) st c a d := by
  simp [rejectWith]

@[simp] theorem returns_reject {a : α} : ¬ Returns (reject m) st c a d := by
  simp [reject]

theorem returns_reject_bind {f : α → Scan β} {b : β} : ¬ Returns (reject m >>= f) st c b d := by
  simp

/-- What is complained about is passed over in a tolerant scan only, and only the list of errors grows. -/
theorem returns_tolerate :
    Returns (tolerate e) st c u d ↔ st.tolerant = true ∧ d = { c with errors := c.errors ++ [e] } := by
  simp only [tolerate, returns_bind, returns_read]
  constructor
  · rintro ⟨_, _, ⟨rfl, rfl⟩, h⟩
    rcases h.ite with ⟨ht, h⟩ | ⟨_, h⟩
    · exact ⟨ht, returns_modify.mp h⟩
    · exact absurd h returns_throw
  · rintro ⟨ht, rfl⟩
    exact ⟨st, c, ⟨rfl, rfl⟩, returns_ite.mpr (.inl ⟨ht, returns_modify.mpr rfl⟩)⟩

end Scan

section First

open Scan

variable {st : Scan.Settings} {c d : Scan.Cursor} {f : Nat → Scan β} {b : β}

theorem Returns.index (h : Returns (Scan.index >>= f) st c b d) : Returns (f c.index) st c b d :=
  h.first rfl

theorem Returns.ahead (h : Returns (Scan.ahead >>= f) st c b d) : Returns (f (st.source.length - c.index)) st c b d :=
  h.first rfl

theorem Returns.sees {i : Nat} {f : Bool → Scan β}
    (h : Returns (Scan.sees i w >>= f) st c b d) : Returns (f (st.source.hasAt i w)) st c b d :=
  h.first rfl

theorem Returns.here (h : Returns (Scan.here >>= f) st c b d) :
    ∃ x, st.source.at? c.index = some x ∧ Returns (f x) st c b d := by
  obtain ⟨x, _, h₁, h₂⟩ := h.bind
  obtain ⟨hx, rfl⟩ := returns_here.mp h₁
  exact ⟨x, hx, h₂⟩

theorem Returns.advance {f : Unit → Scan β} (h : Returns (Scan.advance n >>= f) st c b d) :
    Returns (f ()) st { c with index := c.index + n } b d :=
  h.first rfl

/-- A run either is at the end, or goes on before it. -/
theorem Returns.atEnd {p q : Scan β} (h : Returns (Scan.atEnd >>= fun e => if e = true then p else q) st c b d) :
    st.source.length ≤ c.index ∧ Returns p st c b d ∨ c.index < st.source.length ∧ Returns q st c b d := by
  obtain ⟨_, _, h₁, h⟩ := h.bind
  obtain ⟨rfl, rfl⟩ := returns_atEnd.mp h₁
  rcases h.ite with ⟨he, h⟩ | ⟨he, h⟩
  · exact .inl ⟨by simpa using he, h⟩
  · exact .inr ⟨by simpa using he, h⟩

end First

/-! ## How a scan ends -/

theorem Source.exists_at? {s : Source} {i : Nat} (hi : i ≤ s.length) : ∃ x, s.at? i = some x := by
  unfold at?
  split
  · exact ⟨0, rfl⟩
  · rename_i hne
    exact ⟨_, Array.getElem?_eq_getElem (Nat.lt_of_le_of_ne hi fun he => hne (beq_iff_eq.mpr he))⟩

namespace Scan

/-- Ways to fail, one of which is to reject the program. -/
class Admits (E : Failure → Prop) : Prop where
  rejected : ∀ x, E (.rejected x)

instance : Admits Failure.IsRejection := ⟨fun x => ⟨x, rfl⟩⟩

/-- Ways to fail, one of which is to reject the program unless the scan is tolerant. -/
class Tolerates (E : Failure → Prop) (st : Settings) : Prop where
  rejected : st.tolerant = false → ∀ x, E (.rejected x)

instance {E : Failure → Prop} {st : Settings} [h : Admits E] : Tolerates E st := ⟨fun _ => h.rejected⟩

/-- What the scan returns from the cursor, and where it leaves the cursor then, is as required. If it fails, it
does so in one of the ways. -/
structure Gives {α : Type} (E : Failure → Prop) (st : Settings) (c : Cursor) (p : Scan α)
    (Q : α → Cursor → Prop) : Prop where
  returns : ∀ {a d}, Returns p st c a d → Q a d
  raises : ∀ {e}, Raises p st c e → E e

namespace Gives

variable {E : Failure → Prop} {p q : Scan α} {f : α → Scan β} {b : Prop} [Decidable b] {P Q : α → Cursor → Prop}
  {R : β → Cursor → Prop} {J : Cursor → Prop}

theorem pure {a : α} (h : Q a c) : Gives E st c (Pure.pure a) Q where
  returns hr := by
    obtain ⟨rfl, rfl⟩ := hr.ended
    exact h
  raises hr := absurd hr raises_pure

theorem bind (hp : Gives E st c p P) (hf : ∀ {a d}, P a d → Gives E st d (f a) R) : Gives E st c (p >>= f) R where
  returns hr := by
    obtain ⟨a, d, h₁, h₂⟩ := hr.bind
    exact (hf (hp.returns h₁)).returns h₂
  raises hr := by
    rcases hr.bind with h | ⟨a, d, h₁, h₂⟩
    · exact hp.raises h
    · exact (hf (hp.returns h₁)).raises h₂

theorem throw {e : Failure} (h : E e) : Gives E st c (MonadExcept.throw e) Q where
  returns hr := absurd hr returns_throw
  raises hr := raises_throw.mp hr ▸ h

theorem mono (hp : Gives E st c p P) (h : ∀ {a d}, P a d → Q a d) : Gives E st c p Q :=
  ⟨fun hr => h (hp.returns hr), hp.raises⟩

/-- The last step but for the result. -/
theorem map {g : α → β} (hp : Gives E st c p fun _ => J) : Gives E st c (p >>= fun a => Pure.pure (g a)) fun _ => J :=
  .bind hp fun h => .pure h

theorem first {a : α} {d : Cursor} (hp : p st c = .ok a d) (hf : Gives E st d (f a) R) : Gives E st c (p >>= f) R :=
  ⟨fun hr => hf.returns (hr.first hp), fun hr => hf.raises (hr.first hp)⟩

theorem modify {g : Cursor → Cursor} {Q : Unit → Cursor → Prop} (h : Q () (g c)) :
    Gives E st c (modifyThe Cursor g) Q where
  returns hr := by
    rw [returns_modify.mp hr]
    exact h
  raises hr := absurd hr raises_modify

theorem ite (hp : b → Gives E st c p Q) (hq : ¬ b → Gives E st c q Q) : Gives E st c (if b then p else q) Q := by
  split
  · exact hp ‹_›
  · exact hq ‹_›

theorem fork (hp : Gives E st c p Q) (hq : Gives E st c q Q) : Gives E st c (if b then p else q) Q :=
  .ite (fun _ => hp) fun _ => hq

theorem pos (h : b) (hp : Gives E st c p Q) : Gives E st c (if b then p else q) Q :=
  .ite (fun _ => hp) fun hn => absurd h hn

theorem neg (h : ¬ b) (hq : Gives E st c q Q) : Gives E st c (if b then p else q) Q :=
  .ite (fun hp => absurd hp h) fun _ => hq

theorem ends (h : Gives E st c p Q) : (∃ a d, Returns p st c a d ∧ Q a d) ∨ ∃ e, Raises p st c e ∧ E e := by
  cases hp : p st c with
  | ok a d => exact .inl ⟨a, d, hp, h.returns hp⟩
  | error e d => exact .inr ⟨e, ⟨d, hp⟩, h.raises ⟨d, hp⟩⟩

/-- A scan that cannot fail returns. -/
theorem total (h : Gives (fun _ => False) st c p Q) : ∃ a d, Returns p st c a d ∧ Q a d := by simpa using h.ends

theorem atEnd (hp : st.source.length ≤ c.index → Gives E st c p Q)
    (hq : c.index < st.source.length → Gives E st c q Q) :
    Gives E st c (Scan.atEnd >>= fun e => if e = true then p else q) Q :=
  .first (returns_atEnd.mpr ⟨rfl, rfl⟩) <| .ite (fun h => hp (by simpa using h)) fun h => hq (by simpa using h)

theorem token {i : Nat} {Q : Token → Cursor → Prop} (h : Q ⟨l, c.line, c.lineStart, i, c.index⟩ c) :
    Gives E st c (Scan.token i l) Q :=
  .first rfl (.pure h)

section Cursor

variable {f : Nat → Scan β} {g : Unit → Scan β}

theorem index (hf : Gives E st c (f c.index) R) : Gives E st c (Scan.index >>= f) R := .first rfl hf

theorem ahead (hf : Gives E st c (f (st.source.length - c.index)) R) : Gives E st c (Scan.ahead >>= f) R :=
  .first rfl hf

theorem seek (hf : Gives E st { c with index := i } (g ()) R) : Gives E st c (Scan.seek i >>= g) R :=
  .first rfl hf

theorem advance (hf : Gives E st { c with index := c.index + n } (g ()) R) : Gives E st c (Scan.advance n >>= g) R :=
  .first rfl hf

theorem charAt (hi : i ≤ st.source.length) (hf : ∀ x, st.source.at? i = some x → Gives E st c (f x) R) :
    Gives E st c (Scan.charAt i >>= f) R := by
  obtain ⟨x, hx⟩ := Source.exists_at? hi
  exact .first (returns_charAt.mpr ⟨hx, rfl⟩) (hf x hx)

theorem known (hx : st.source.at? c.index = some x) (hf : Gives E st c (f x) R) : Gives E st c (Scan.here >>= f) R :=
  .first (returns_here.mpr ⟨hx, rfl⟩) hf

theorem here (hc : c.index ≤ st.source.length) (hf : ∀ x, st.source.at? c.index = some x → Gives E st c (f x) R) :
    Gives E st c (Scan.here >>= f) R := by
  obtain ⟨x, hx⟩ := Source.exists_at? hc
  exact .known hx (hf x hx)

theorem taken (hx : st.source.at? c.index = some x) (hf : Gives E st { c with index := c.index + 1 } (f x) R) :
    Gives E st c (Scan.take >>= f) R :=
  .first (returns_take.mpr ⟨hx, rfl⟩) hf

theorem take (hc : c.index ≤ st.source.length)
    (hf : ∀ x, st.source.at? c.index = some x → Gives E st { c with index := c.index + 1 } (f x) R) :
    Gives E st c (Scan.take >>= f) R := by
  obtain ⟨x, hx⟩ := Source.exists_at? hc
  exact .taken hx (hf x hx)

theorem digit {kind : Nat → Bool} (hx : kind x = true) (hf : Gives E st c (f (Text.digitValue x)) R) :
    Gives E st c (Scan.digit kind x >>= f) R :=
  .first (by rw [Scan.digit, if_pos hx]; rfl) hf

theorem character {Q : Nat → Cursor → Prop} (hx : x ≤ 0x10FFFF) (h : Q x c) : Gives E st c (Scan.character x) Q := by
  rw [Scan.character, if_pos hx]
  exact .pure h

end Cursor

section Reject

variable [hE : Admits E]

theorem reject : Gives E st c (Scan.reject m) Q where
  returns hr := absurd hr returns_reject
  raises hr := by
    rw [raises_throw.mp (hr.first rfl)]
    exact hE.rejected _

theorem rejects : Gives E st c (Scan.reject m >>= f) R := .bind (P := fun _ _ => False) .reject False.elim

/-- The program is rejected under a condition. -/
theorem guard {q : Scan β} (hq : ¬ b → Gives E st c q R) : Gives E st c (if b then Scan.reject m >>= f else q) R :=
  .ite (fun _ => .rejects) hq

omit hE

variable [hE : Tolerates E st]

theorem tolerate {x : SyntaxError} {Q : Unit → Cursor → Prop}
    (h : st.tolerant = true → Q () { c with errors := c.errors ++ [x] }) : Gives E st c (Scan.tolerate x) Q where
  returns hr := by
    obtain ⟨ht, rfl⟩ := returns_tolerate.mp hr
    exact h ht
  raises hr := by
    rcases hr.read.ite with ⟨_, hr⟩ | ⟨ht, hr⟩
    · exact absurd hr raises_modify
    · rw [raises_throw.mp hr]
      exact hE.rejected (by simpa using ht) x

theorem complain {g : Unit → Scan β}
    (hf : ∀ e, st.tolerant = true → Gives E st { c with errors := c.errors ++ [e] } (g ()) R) :
    Gives E st c (Scan.complain m >>= g) R :=
  .bind (P := fun _ d => st.tolerant = true ∧ ∃ e, d = { c with errors := c.errors ++ [e] })
    (.first rfl <| .tolerate fun ht => ⟨ht, _, rfl⟩) <| by
      rintro _ _ ⟨ht, e, rfl⟩
      exact hf e ht

end Reject

end Gives

end Scan

end ScriptTree
