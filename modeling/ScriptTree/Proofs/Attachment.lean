import ScriptTree.Attachment

/-! # Comments that wait for nodes

A node that is finished takes comments from those that wait and from other nodes. What is inside the nodes that were
finished before it stays there (`Extends`), and what it has inside has waited before (`Finishes`). -/

namespace ScriptTree.Attachment

variable {isEmptyBlock : Bool} {a a' b : Attachment} {start stop : Nat}

/-- What is inside nodes stays there. -/
structure Extends (a a' : Attachment) : Prop where
  count : a.nextId ≤ a'.nextId
  inner : ∀ id < a.nextId, (a'.remarksOf id).inner = (a.remarksOf id).inner

/-- A node that ends at an offset gets the next number, and inside it are comments that have waited. -/
structure Finishes (a : Attachment) (stop : Nat) (a' : Attachment) : Prop extends Extends a a' where
  leading : a'.leading ⊆ a.leading
  count_lt : a.nextId < a'.nextId
  waited : ∀ r ∈ (a'.remarksOf a.nextId).inner, ∃ p ∈ a.leading, p.remark = r ∧ p.start ≤ stop

/-- Comments are taken, but none from the inside of a node. -/
structure Spares (a a' : Attachment) : Prop where
  leading : a'.leading.Sublist a.leading
  trailing : a'.trailing.Sublist a.trailing
  count : a'.nextId = a.nextId
  inner : ∀ id, (a'.remarksOf id).inner = (a.remarksOf id).inner
  before : ∀ id, (a'.remarksOf id).leading.Sublist (a.remarksOf id).leading
  behind : ∀ id, (a'.remarksOf id).trailing.Sublist (a.remarksOf id).trailing

theorem Extends.refl (a : Attachment) : Extends a a := ⟨Nat.le_refl _, fun _ _ => rfl⟩

theorem Extends.trans (h : Extends a b) (h' : Extends b a') : Extends a a' where
  count := Nat.le_trans h.count h'.count
  inner id hid := (h'.inner id (Nat.lt_of_lt_of_le hid h.count)).trans (h.inner id hid)

namespace Spares

theorem refl (a : Attachment) : Spares a a := ⟨.refl _, .refl _, rfl, fun _ => rfl, fun _ => .refl _, fun _ => .refl _⟩

theorem trans (h : Spares a b) (h' : Spares b a') : Spares a a' where
  leading := h'.leading.trans h.leading
  trailing := h'.trailing.trans h.trailing
  count := h'.count.trans h.count
  inner id := (h'.inner id).trans (h.inner id)
  before id := (h'.before id).trans (h.before id)
  behind id := (h'.behind id).trans (h.behind id)

theorem update (k : Nat) {f : Remarks → Remarks} (hf : (f (a.remarksOf k)).inner = (a.remarksOf k).inner)
    (hl : (f (a.remarksOf k)).leading.Sublist (a.remarksOf k).leading)
    (ht : (f (a.remarksOf k)).trailing.Sublist (a.remarksOf k).trailing) : Spares a (a.update k f) := by
  have hof (id : Nat) : (a.update k f).remarksOf id = a.remarksOf id ∨
      id = k ∧ (a.update k f).remarksOf id = f (a.remarksOf k) := by
    simp only [remarksOf, Attachment.update, Array.getElem?_modify]
    by_cases hk : k = id
    · subst hk
      cases a.remarks[k]? <;> simp
    · simp [hk]
  refine ⟨.refl _, .refl _, Array.size_modify, fun id => ?_, fun id => ?_, fun id => ?_⟩ <;>
    obtain h | ⟨rfl, h⟩ := hof id <;> simp [h, hf, hl, ht]

/-- The node gets what was taken. -/
theorem finishes {x : Remarks} (h : Spares a b) (hx : ∀ r ∈ x.inner, ∃ p ∈ a.leading, p.remark = r ∧ p.start ≤ stop)
    (stack : List Finished) : a.Finishes stop { b with stack, remarks := b.remarks.push x } := by
  have hcount : b.remarks.size = a.nextId := h.count
  have hnext : a.nextId < nextId { b with stack, remarks := b.remarks.push x } := by
    rw [← hcount]
    simp [nextId]
  refine ⟨⟨Nat.le_of_lt hnext, fun id hid => ?_⟩, h.leading.subset, hnext, ?_⟩
  · rw [← h.inner id]
    simp [remarksOf, Array.getElem?_push, Nat.ne_of_lt (hcount ▸ hid)]
  · simpa [remarksOf, ← hcount] using hx

end Spares

theorem dropMarked_sublist {α : Type} (marks : List Bool) (l : List α) : (dropMarked marks l).Sublist l := by
  fun_induction dropMarked marks l with
  | case1 marks x rest ih => exact ih.cons x
  | case2 marks x rest ih => exact ih.cons_cons x
  | case3 => exact .refl _

theorem takeInner_spares {inner : List Remark} (h : a.takeInner stop = .ok (inner, a')) :
    Spares a a' ∧ ∀ r ∈ inner, ∃ p ∈ a.leading, p.remark = r ∧ p.start ≤ stop := by
  unfold takeInner at h
  extract_lets marks found at h
  split at h
  · cases h
  · split at h <;> obtain ⟨rfl, rfl⟩ := Prod.mk.inj (Except.ok.inj h)
    · exact ⟨.refl a, by simp⟩
    · exact ⟨{ Spares.refl a with leading := dropMarked_sublist _ _, trailing := dropMarked_sublist _ _ },
        by simp [found, and_assoc, and_comm]⟩

theorem takeTrailing_spares (a : Attachment) (stop : Nat) : Spares a (a.takeTrailing stop).2 := by
  unfold takeTrailing
  dsimp only
  repeat' split
  all_goals first
    | exact .refl a
    | exact .update _ rfl (.refl _) (List.nil_sublist _)
    | exact { Spares.refl a with trailing := List.nil_sublist _ }

theorem takeLeading_spares (a : Attachment) (start : Nat) : Spares a (a.takeLeading start).2 := by
  unfold takeLeading
  generalize popInner start a.stack none = popped
  obtain ⟨_ | f, stack⟩ := popped <;> simp only [List.partition_eq_filter_filter]
  · exact { Spares.refl a with leading := List.filter_sublist }
  · exact .trans (b := { a with stack }) { Spares.refl a with } (.update f.id rfl List.filter_sublist (.refl _))

/-- A node takes comments three times, and gets what was taken. -/
theorem visit_takes (h : a.visit isEmptyBlock start stop = .ok a') : ∃ b inner, Spares a b ∧
    (∀ r ∈ inner, ∃ p ∈ a.leading, p.remark = r ∧ p.start ≤ stop) ∧
    let c := b.takeTrailing stop
    let d := c.2.takeLeading start
    a' = { d.2 with stack := ⟨d.2.nextId, start⟩ :: d.2.stack, remarks := d.2.remarks.push ⟨inner, d.1, c.1⟩ } := by
  cases isEmptyBlock with
  | false =>
    cases h
    exact ⟨a, [], .refl a, by simp, rfl⟩
  | true =>
    simp only [visit, if_true] at h
    cases hinner : a.takeInner stop with
    | error e => simp [hinner, bind, Except.bind] at h
    | ok x =>
      obtain ⟨hb, hx⟩ := takeInner_spares hinner
      rw [hinner] at h
      cases h
      exact ⟨x.2, x.1, hb, hx, rfl⟩

theorem visit_finishes (h : a.visit isEmptyBlock start stop = .ok a') : a.Finishes stop a' := by
  obtain ⟨b, inner, hb, hinner, rfl⟩ := visit_takes h
  exact (hb.trans ((b.takeTrailing_spares stop).trans (takeLeading_spares _ start))).finishes hinner _

theorem skip_finishes (a : Attachment) (stop : Nat) : a.Finishes stop a.skip :=
  (Spares.refl a).finishes (x := {}) (by simp) a.stack

end ScriptTree.Attachment
