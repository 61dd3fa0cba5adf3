import ScriptTree.Proofs.Node.Residue
import ScriptTree.Proofs.Parse.Nest.Program

/-! # Comments inside empty blocks

An empty block takes all comments that wait and start no later than it ends. So it may take some from before it, and one
that starts where it ends. Those that start inside it are inside it (`parse_inner_comments`). -/

namespace ScriptTree

def Range.Contains (r r' : Range) : Prop := r.start ≤ r'.start ∧ r'.stop ≤ r.stop

/-- The nodes below one with comments beside it have theirs. -/
theorem Node.Below.remarks {n d : Node} {remarks : Nat → Remarks} (h : (n.annotate remarks).Below d) :
    d.info.remarks = remarks d.info.id := by
  have hnode : ∃ d₀ : Node, d = d₀.annotate remarks := by
    induction h with
    | root => exact ⟨n, rfl⟩
    | child _ hc ih =>
      obtain ⟨⟨info, shape⟩, rfl⟩ := ih
      obtain ⟨c₀, -, rfl⟩ := List.mem_map.mp (Node.children_foldShape _ shape ▸ hc)
      exact ⟨c₀, rfl⟩
  obtain ⟨⟨info, shape⟩, rfl⟩ := hnode
  rfl

section

variable {t : Text} {o : Parse.Options} {p : Program}

/-- No comment inside a node starts behind the end of the node, and those that start before its end, but not before the
node, are in its range. -/
theorem parse_inner_comments (ha : o.attach = true) (hr : o.range = true) (ht : o.tolerant = false)
    (hj : o.jsx = false) (hd : ∀ names, o.delegate ≠ .rename names) (h : parse t o = .ok p) {n : Node}
    (hn : p.root.Below n) {r : Range} (hrange : n.info.range = some r) {x : Remark} (hx : x ∈ n.info.remarks.inner) :
    ∃ place, x.range = some place ∧ place.start ≤ r.stop ∧
      (r.Contains place ↔ r.start ≤ place.start ∧ place.start < r.stop) := by
  obtain ⟨a, hfits, hroot⟩ := Program.fits hr ht hj hd h
  obtain ⟨root, hroot⟩ := hroot ha
  rw [hroot] at hn hfits
  rw [hn.remarks] at hx
  have hplaceholder : n.shape.isPlaceholder = false := by
    cases hfits.descend hn with
    | node _ _ hp => exact hp
    | placeholder hnone => rw [hnone] at hrange; cases hrange
  obtain ⟨r', hr', hsited⟩ := (hfits.descend hn).location hplaceholder
  obtain rfl := Option.some.inj (hr'.symm.trans hrange)
  obtain ⟨place, hplace, hle, hiff⟩ := (hsited.inner ha).2 x hx
  exact ⟨place, hplace, hle, and_congr_right fun _ => hiff.symm⟩

def Program.statement? (p : Program) : Option Node :=
  match p.root.shape with
  | .program _ [n] => some n
  | _ => none

/-- A program that consists of an empty block with a comment inside it. -/
theorem Program.exists_commented (r place : Range) (h : (parse t o).toOption.any (fun p => p.statement?.any fun n =>
      decide (n.info.range = some r ∧ n.info.remarks.inner.map Remark.range = [some place])) = true) :
    ∃ p n x, parse t o = .ok p ∧ p.root.Below n ∧ n.info.range = some r ∧ x ∈ n.info.remarks.inner ∧
      x.range = some place := by
  obtain ⟨p, hp, h⟩ := Program.exists_parsed h
  obtain ⟨n, hn, h⟩ := (Option.any_eq_true _ _).mp h
  obtain ⟨hr, hinner⟩ := of_decide_eq_true h
  have hbelow : p.root.Below n := by
    refine .child .root ?_
    unfold Program.statement? at hn
    split at hn
    next isModule n' hroot =>
      obtain rfl := Option.some.inj hn
      rw [hroot]
      simp [Shape.children, Shape.parts, Part.nodes, Part.word]
    next => cases hn
  obtain ⟨x, hx, hplace⟩ := List.mem_map.mp (hinner ▸ List.mem_singleton_self (some place))
  exact ⟨p, n, x, hp, hbelow, hr, hx, hplace⟩

end

/-- A comment between braces. -/
theorem parse_inner_comments_braces :
    let t := Text.ofString "\x7b/*a*/\x7d"
    let o : Parse.Options := { range := true, attach := true }
    ∃ p n x place, parse t o = .ok p ∧ p.root.Below n ∧ n.info.range = some ⟨0, 7⟩ ∧ x ∈ n.info.remarks.inner ∧
      x.range = some place ∧ place.start ≤ 7 ∧
      (Range.Contains ⟨0, 7⟩ place ↔ 0 ≤ place.start ∧ place.start < 7) := by
  intro t o
  obtain ⟨p, n, x, hp, hn, hr, hx, -⟩ := Program.exists_commented (t := t) (o := o) ⟨0, 7⟩ ⟨1, 6⟩ (by decide +kernel)
  obtain ⟨place, hplace, hle, hiff⟩ :=
    parse_inner_comments rfl rfl rfl rfl (fun _ hd => Delegate.noConfusion hd) hp hn hr hx
  exact ⟨p, n, x, place, hp, hn, hr, hx, hplace, hle, hiff⟩

/-- A comment before an empty block is taken for one inside it. -/
theorem parse_takes_comment_before_block :
    let t := Text.ofString "/*a*/\x7b\x7d"
    let o : Parse.Options := { range := true, attach := true }
    ∃ p n x r place, parse t o = .ok p ∧ p.root.Below n ∧ n.info.range = some r ∧ x ∈ n.info.remarks.inner ∧
      x.range = some place ∧ ¬ r.Contains place := by
  intro t o
  obtain ⟨p, n, x, hp, hn, hr, hx, hplace⟩ := Program.exists_commented (t := t) (o := o) ⟨5, 7⟩ ⟨0, 5⟩
    (by decide +kernel)
  exact ⟨p, n, x, _, _, hp, hn, hr, hx, hplace, fun h => absurd h.1 (by decide)⟩

end ScriptTree
