import ScriptTree.Proofs.Parse.Mirror.Program

/-! # Tolerance changes nothing where there is nothing to complain about

The strict parse is compared with the tolerant one. They go the same way up to the first complaint, where the
strict one ends, and a complaint is never taken back. -/

namespace ScriptTree

namespace Parse

/-- The strict parse on the left, the tolerant one on the right. -/
def Comparison.tolerance (source : Source) (o : Options) : Comparison where
  left := ⟨source, { o with tolerant := false }⟩
  right := ⟨source, { o with tolerant := true }⟩
  labels := .id
  Beside := Eq

namespace Tolerance

variable {source : Source} {o : Options}

/-- The two sides are in step if they are in the same state. -/
theorem sim_iff {s s' : State} : (Comparison.tolerance source o).Sim s s' ↔ s' = s ∧ s.cursor.errors = [] := by
  constructor
  · intro h
    have hvisible := h.visible
    rw [← show s.collected = s'.collected from h.beside] at hvisible
    exact ⟨hvisible, h.clean ⟨rfl, rfl⟩⟩
  · rintro ⟨rfl, hs⟩
    exact ⟨rfl, rfl, fun _ => hs⟩

instance : (Comparison.tolerance source o).Fair where
  source := rfl
  jsx := rfl
  classProperties := rfl
  isModule := rfl
  tolerant h := by cases h
  labels _ := rfl

/-- What is collected is the same on both sides, so it may be read. -/
theorem get {α : Type} [Relabels α] {f f' : State → Parse α} (hf : ∀ s, Mirrors (.tolerance source o) (f s) (f' s)) :
    Mirrors (.tolerance source o) (get >>= f) (get >>= f') where
  returns {s s' a u} hs hr := by
    obtain ⟨rfl, -⟩ := sim_iff.mp hs
    exact (hf _).returns hs hr.get
  fails {s s' e u} he hs hr := by
    obtain ⟨rfl, -⟩ := sim_iff.mp hs
    exact (hf _).fails he hs hr
  grows hK s a u hr hs := (hf s).grows hK hr.get hs

/-- Anything but the complaints may be changed. -/
theorem modifies {g : State → State} (hg : ∀ s, (g s).cursor.errors = s.cursor.errors) :
    Mirrors (.tolerance source o) (modify g) (modify g) where
  returns {s s' a u} hs hr := by
    obtain ⟨rfl, hclean⟩ := sim_iff.mp hs
    obtain rfl := returns_modify.mp hr
    exact ⟨g s', returns_modify.mpr rfl, sim_iff.mpr ⟨rfl, (hg s').trans hclean⟩⟩
  fails _ _ hr := by cases hr
  grows _ s a u hr hs := by
    rw [returns_modify.mp hr, hg]
    exact hs

instance (className typeName : String) (start stop : Mark) :
    Mirrors (.tolerance source o) (note className typeName start stop) (note className typeName start stop) := by
  refine .ofOptions ?_
  dsimp only [Comparison.tolerance]
  split
  · exact modifies fun _ => rfl
  · exact .pure

instance (c : Comment) : Mirrors (.tolerance source o) (takeComment c) (takeComment c) := by
  refine .ofOptions (.ofEnv (.step fun _ => ?_))
  refine .andThen (modifies fun _ => rfl) fun _ => .ite (modifies fun _ => rfl) (.pure)

instance (t : Token) : Mirrors (.tolerance source o) (entryOf t) (entryOf t) :=
  .ofOptions (get fun _ => .past <| .past <| .pure)

instance (t : Token) : Mirrors (.tolerance source o) (listToken t) (listToken t) :=
  .ofOptions (.ite (.past <| modifies fun _ => rfl) (.pure))

theorem finish_same (m : Mark) (shape : Shape Node) :
    Mirrors (.tolerance source o) (finish m shape) (finish m shape) := by
  refine .ofOptions (get fun s => .step fun _ => ?_)
  extract_lets n info n' info'
  have hn : n' = n := rfl
  subst info info'
  clear_value n n'
  subst hn
  refine .ite (get fun s => ?_) (.pure)
  extract_lets a rest
  have hrest (visited : Attachment) : Mirrors (.tolerance source o) (rest visited) (rest visited) :=
    .andThen (modifies fun _ => rfl) fun _ => .pure
  clear_value rest
  split
  · exact hrest _
  · extract_lets
    split
    · exact hrest _
    · exact .past <| hrest _

instance : (Comparison.tolerance source o).Lawful where
  finish m shape := by
    rw [show shape.map (Comparison.tolerance source o).labels.node = shape from shape.map_id]
    exact finish_same m shape
  takeComments := by
    rw [takeComments_eq]
    refine .step fun found => .ofOptions (.andThen ?_ fun _ => .pure)
    let items := if o.comments || o.attach then found else []
    have hloop : Mirrors (.tolerance source o) (forIn items () fun c _ => do takeComment c; pure (.yield ()))
        (forIn (items.map (relabel .id)) () fun c _ => do takeComment c; pure (.yield ())) :=
      .forIn (fun c _ => .past <| .pure) items ()
    rw [show items.map (relabel .id) = items from List.map_id' _] at hloop
    exact hloop
  listToken t := inferInstance
  unlist := .ofOptions (.ite (modifies fun _ => rfl) (.pure))

/-- The two runs on a whole text. -/
theorem outcome_strict_iff {t : Text} {root : Node} {s : State} : outcome t { o with tolerant := false } = .ok root s ↔
      outcome t { o with tolerant := true } = .ok root s ∧ s.cursor.errors = [] := by
  have hmirrors := program_mirrors (K := .tolerance (.ofText t) o) (grammar (depth (.ofText t)))
  have hstart : (Comparison.tolerance (.ofText t) o).Sim (.start (.ofText t)) (.start (.ofText t)) :=
    sim_iff.mpr ⟨rfl, rfl⟩
  have htolerant {root s} (h : outcome t { o with tolerant := false } = .ok root s) :
      outcome t { o with tolerant := true } = .ok root s ∧ s.cursor.errors = [] := by
    obtain ⟨s', hr, hs⟩ := hmirrors.returns hstart h
    obtain ⟨rfl, hclean⟩ := sim_iff.mp hs
    exact ⟨hr, hclean⟩
  refine ⟨htolerant, fun ⟨h, hclean⟩ => ?_⟩
  cases hstrict : outcome t { o with tolerant := false } with
  | ok root' s' => rw [← (htolerant hstrict).1, h]
  | error e u =>
    -- the tolerant run cannot go on without a complaint
    rcases hmirrors.fails id hstart hstrict with ⟨u', hfails⟩ | ⟨-, hcomplains⟩
    · cases hfails.symm.trans h
    · exact absurd hclean (hcomplains root s h)

end Tolerance

end Parse

/-- A strict parse returns a program if and only if a tolerant one has nothing to complain about, and then it
returns the same program, but for the list of complaints. All other options are the same. -/
theorem parse_strict_iff (t : Text) (o : Parse.Options) (p : Program) :
    parse t { o with tolerant := false } = .ok p ↔
      p.errors = none ∧ parse t { o with tolerant := true } = .ok { p with errors := some [] } := by
  constructor
  · intro h
    obtain ⟨root, s, hstrict, rfl⟩ := parse_eq_ok_iff.mp h
    obtain ⟨htolerant, hclean⟩ := Parse.Tolerance.outcome_strict_iff.mp hstrict
    refine ⟨rfl, parse_eq_ok_iff.mpr ⟨root, s, htolerant, ?_⟩⟩
    rw [← hclean]
    rfl
  · rintro ⟨hp, h⟩
    obtain ⟨root, s, htolerant, hprogram⟩ := parse_eq_ok_iff.mp h
    have hclean : s.cursor.errors = [] := (Option.some.inj (congrArg Program.errors hprogram)).symm
    have hstrict := Parse.Tolerance.outcome_strict_iff.mpr ⟨htolerant, hclean⟩
    refine parse_eq_ok_iff.mpr ⟨root, s, hstrict, ?_⟩
    calc p = { { p with errors := some [] } with errors := none } := by rw [← hp]
      _ = { Program.ofRun { o with tolerant := true } root s with errors := none } := by rw [hprogram]
      _ = .ofRun { o with tolerant := false } root s := rfl

end ScriptTree
