import ScriptTree.Proofs.Scan.Built

/-! # Scans that differ in their settings only

A scan reads its settings for the source, and to know whether a complaint is passed over. So two scans of
one source go the same way until one of them is rejected for what the other only complains about, and what
was complained about is never forgotten. -/

-- a scan is one large term for the search for instances
set_option synthInstance.maxSize 200000

namespace ScriptTree.Scan

variable {α β : Type} {st st' : Settings} {c d : Cursor}

/-- Settings for two scans of one source, of which the second may be the more tolerant one. Either may
collect comments. -/
structure Alike (st st' : Settings) : Prop where
  source : st'.source = st.source
  isModule : st'.isModule = st.isModule
  tolerant : st.tolerant = true → st'.tolerant = true

/-- Only the second of two scans is tolerant. The first one returns nothing, and the second one nothing
without a complaint. -/
structure Forgiven (p : Scan α) (st st' : Settings) (c : Cursor) : Prop where
  strict : st.tolerant = false
  tolerant : st'.tolerant = true
  fails : ∀ a d, ¬ Returns p st c a d
  complains : ∀ a d, Returns p st' c a d → d.errors ≠ []

/-- A step whose outcome depends on the settings only where the program is rejected or complained about. -/
class Steady (p : Scan α) : Prop where
  agree : ∀ {st st' : Settings} {c : Cursor}, Alike st st' → p st' c = p st c ∨ Forgiven p st st' c
  /-- A complaint stays on the list. -/
  grows : ∀ {st : Settings} {c d : Cursor} {a : α}, Returns p st c a d → c.errors ≠ [] → d.errors ≠ []
  /-- Without tolerance nothing is put on the list. -/
  quiet : ∀ {st : Settings} {c d : Cursor} {a : α}, Returns p st c a d → st.tolerant = false →
    d.errors = c.errors

namespace Steady

variable {p : Scan α}

/-! ## Steps and their sequences -/

/-- A step that reads no settings and lets the complaints alone. -/
theorem plain (h : ∀ st st' c, p st' c = p st c)
    (he : ∀ {st c a d}, Returns p st c a d → d.errors = c.errors) : Steady p where
  agree _ := .inl (h _ _ _)
  grows hp hc := he hp ▸ hc
  quiet hp _ := he hp

instance (a : α) : Steady (pure a) :=
  plain (fun _ _ _ => rfl) fun h => by rw [(h.ended).2]

instance (e : Failure) : Steady (throw e : Scan α) :=
  plain (fun _ _ _ => rfl) fun h => absurd h returns_throw

instance : Steady (get : Scan Cursor) :=
  plain (fun _ _ _ => rfl) fun h => by rw [(returns_get.mp h).2]

theorem modifies {f : Cursor → Cursor} (hf : ∀ c, (f c).errors = c.errors) : Steady (modify f : Scan Unit) :=
  plain (fun _ _ _ => rfl) fun h => by rw [returns_modify.mp h, hf]

/-- The settings may be read for what does not differ. -/
theorem reads {f : Settings → Scan α} (h : ∀ {st st'}, Alike st st' → f st' = f st)
    [hf : ∀ st, Steady (f st)] : Steady (read >>= f) where
  agree {st st' c} ha := by
    have hs : (read >>= f) st c = f st st c := rfl
    have hs' : (read >>= f) st' c = f st st' c := by rw [← h ha]; rfl
    rw [hs, hs']
    refine ((hf st).agree ha).imp_right fun hg => ?_
    exact ⟨hg.strict, hg.tolerant, fun a d hr => hg.fails a d hr.read, fun a d hr => hg.complains a d (h ha ▸ hr.read)⟩
  grows hr := (hf _).grows hr.read
  quiet hr := (hf _).quiet hr.read

instance sequence {f : α → Scan β} [hp : Steady p] [hf : ∀ a, Steady (f a)] : Steady (p >>= f) where
  agree {st st' c} ha := by
    rcases hp.agree ha with he | hg
    · cases h : p st c with
      | error e d =>
        left
        rw [bind_error f h, bind_error f (he.trans h)]
      | ok a d =>
        rw [bind_ok f h, bind_ok f (he.trans h)]
        refine ((hf a).agree ha).imp_right fun hg => ⟨hg.strict, hg.tolerant, ?_, ?_⟩
        · exact fun b u hr => hg.fails b u (hr.first h)
        · exact fun b u hr => hg.complains b u (hr.first (he.trans h))
    · refine .inr ⟨hg.strict, hg.tolerant, fun b u hr => ?_, fun b u hr => ?_⟩
      · obtain ⟨a, d, hr, -⟩ := hr.bind
        exact hg.fails a d hr
      · obtain ⟨a, d, hr, hr'⟩ := hr.bind
        exact (hf a).grows hr' (hg.complains a d hr)
  grows hr hc := by
    obtain ⟨a, d, hr, hr'⟩ := hr.bind
    exact (hf a).grows hr' (hp.grows hr hc)
  quiet hr ht := by
    obtain ⟨a, d, hr, hr'⟩ := hr.bind
    rw [(hf a).quiet hr' ht, hp.quiet hr ht]

theorem andThen {f : α → Scan β} [Steady p] (hf : ∀ a, Steady (f a)) : Steady (p >>= f) :=
  inferInstance

instance {b : Prop} [Decidable b] {q : Scan α} [hp : Steady p] [hq : Steady q] : Steady (if b then p else q) := by
  split
  · exact hp
  · exact hq

/-- Here the settings matter: what a strict scan rejects is put on the list by a tolerant one. -/
instance (e : SyntaxError) : Steady (tolerate e) where
  agree {st st' c} ha := by
    have run : ∀ st, tolerate e st c = (if st.tolerant then modify fun c => { c with errors := c.errors ++ [e] }
          else throw (.rejected e) : Scan Unit) st c := fun _ => rfl
    cases ht : st.tolerant with
    | true => left; simp only [run, ht, ha.tolerant ht]; rfl
    | false =>
      cases ht' : st'.tolerant with
      | false => left; simp only [run, ht, ht']; rfl
      | true =>
        refine .inr ⟨ht, ht', fun _ _ hr => ?_, fun _ _ hr => ?_⟩
        · simp [(returns_tolerate.mp hr).1] at ht
        · simp [(returns_tolerate.mp hr).2]
  grows hr _ := by simp [(returns_tolerate.mp hr).2]
  quiet hr ht := by simp [(returns_tolerate.mp hr).1] at ht

instance (priority := low) [h : Built p] : Steady p := by
  induction h with
  | returns a => infer_instance
  | fails e => infer_instance
  | sequence _ _ hp hf => exact sequence
  | reads h _ hf => exact reads fun ha => h ha.source ha.isModule
  | @asks _ p q h =>
    refine ⟨fun {st st' c} ha => .inl (by rw [h, h, ha.source]), fun {st c d a} hr => ?_, fun {st c d a} hr _ => ?_⟩
    · cases (h st c).symm.trans hr
      exact id
    · cases (h st c).symm.trans hr
      rfl
  | moves f => exact modifies fun _ => rfl
  | opens f _ => exact modifies fun _ => rfl
  | tolerates e _ => infer_instance

instance : Steady next := by unfold next; infer_instance

instance : Steady markup := by
  refine andThen fun start => andThen fun c => ?_
  dsimp only
  split <;> infer_instance

/-- Whether comments are collected makes no difference where they are dropped. -/
instance (p : Scan α) [Steady p] : Steady (do
    let _ ← comments
    p) := by
  have hdrop : (do let _ ← comments; p) = (do let _ ← blanks (← ahead) ((← index) == 0); p) := by
    simp only [comments, bind_assoc, pure_bind]
    rfl
  rw [hdrop]
  infer_instance

end Steady

end ScriptTree.Scan
