import ScriptTree.Proofs.Parse.Ends.Step
import ScriptTree.Proofs.Parse.Mirror.Program

/-! # Comments beside nodes do not influence parsing

A parse that puts comments beside nodes is compared with one that does not. It may fail where the comments of an empty
block are looked for among those that wait behind a node, and otherwise the two trees differ in the comments only. -/

namespace ScriptTree

namespace Node

/-- Labels may be changed while a tree is folded. -/
theorem fold_fold {β : Type} (f : Info → Shape β → β) (label : Info → Info) (n : Node) :
    fold f (fold (fun i s => ⟨label i, s⟩) n) = fold (fun i s => f (label i) s) n := by
  let g (i : Info) (s : Shape Node) : Node := ⟨label i, s⟩
  let h (i : Info) (s : Shape β) : β := f (label i) s
  apply @Node.rec (fun n => fold f (fold g n) = fold h n) (fun s => foldShape f (foldShape g s) = foldShape h s)
    (fun l => foldHoles f (foldHoles g l) = foldHoles h l) (fun l => foldList f (foldList g l) = foldList h l)
    (fun o => foldOption f (foldOption g o) = foldOption h o)
  all_goals intros; simp only [fold, foldShape, foldList, foldOption, foldHoles, g, h, *]

def detachLabel (i : Info) : Info := { i with id := 0, remarks := {} }

/-- No comments are left beside the nodes. -/
def detach : Relabelling where
  label := detachLabel
  node := fold fun i shape => ⟨detachLabel i, shape⟩
  node_mk _ shape := congrArg (Node.mk _) (foldShape_eq_map _ shape)
  label_empty := rfl
  cover_label _ := rfl
  label_cover _ _ := rfl

theorem detach_annotate (remarks : Nat → Remarks) (n : Node) : detach (n.annotate remarks) = detach n :=
  fold_fold _ (fun i => { i with remarks := remarks i.id }) n

end Node

namespace Parse

/-- Comments are put beside nodes on the left only. -/
def Comparison.attachment (source : Source) (o : Options) : Comparison where
  left := ⟨source, { o with attach := true }⟩
  right := ⟨source, { o with attach := false }⟩
  labels := Node.detach
  Beside c c' := c'.tokens = c.tokens ∧ (o.comments = true → c'.remarks = c.remarks)
  Excuses e := e = .unevenComments

namespace Attachments

variable {source : Source} {o : Options}

theorem not_forgives : ¬ (Comparison.attachment source o).Forgives := by
  rintro ⟨hl, hr⟩
  cases hl.symm.trans hr

instance : (Comparison.attachment source o).Fair where
  source := rfl
  jsx := rfl
  classProperties := rfl
  isModule := rfl
  tolerant h := h
  labels h := absurd h not_forgives

theorem finish_detached (source : Source) (o : Options) (m : Mark) (shape : Shape Node) (s : State) :
    ∃ log, finish m shape (Comparison.attachment source o).right s =
      .ok (nodeAt (Comparison.attachment source o).right m s.lastMark shape) { s with log } := by
  obtain ⟨_, _, _, _, _, _, _, _, _, _, delegate⟩ := o
  cases delegate with
  | nothing | log | rename => exact ⟨_, rfl⟩

theorem nodeAt_detach (source : Source) (o : Options) (m k : Mark) (shape : Shape Node) (id : Nat) :
    let n := nodeAt (Comparison.attachment source o).left m k shape
    nodeAt (Comparison.attachment source o).right m k (shape.map Node.detach) =
      Node.detach ⟨{ n.info with id }, n.shape⟩ := by
  intro n
  rw [Node.detach.node_mk]
  subst n
  obtain ⟨_, _, _, _, _, _, _, _, _, _, delegate⟩ := o
  cases delegate with
  | nothing | log => rfl
  | rename names =>
    cases shape with
    | identifier name =>
      simp only [nodeAt, Comparison.attachment, Shape.map, Functor.map]
      cases Table.get? name names <;> rfl
    | _ => rfl

theorem finish_mirrors (m : Mark) (shape : Shape Node) :
    Mirrors (.attachment source o) (finish m shape) (finish m (shape.map Node.detach)) where
  returns {s s' _ u} hs hr := by
    obtain ⟨hu, id, rfl⟩ := finish_makes hr
    obtain ⟨log, hr'⟩ := finish_detached source o m (shape.map Node.detach) s'
    have hlast : s'.lastMark = s.lastMark := by rw [hs.visible]
    have hnode := nodeAt_detach source o m s'.lastMark shape id
    refine ⟨_, hr'.trans (congrArg (EStateM.Result.ok · _) (hlast ▸ hnode)), ?_, ?_, fun hK => absurd hK not_forgives⟩
    · rw [hu, hs.visible]
      rfl
    · rw [hu]
      exact hs.beside
  fails he _ hr := absurd (finish_raises ⟨_, hr⟩).2 he
  grows hK := absurd hK not_forgives

theorem takeEach_eq (env : Env) (items : List Comment) (s : State) :
    ∃ attachment log, (do for c in items do takeComment c : Parse Unit) env s =
      .ok () { s with remarks := s.remarks ++ (items.map (remarkOf env)).toArray, attachment, log } := by
  have hone (c : Comment) (s : State) : ∃ attachment log, takeComment c env s =
      .ok () { s with remarks := s.remarks.push (remarkOf env c), attachment, log } := by
    obtain ⟨_, _, _, _, _, _, attach, _, _, _, _, delegate⟩ := env
    cases attach <;> cases delegate <;> exact ⟨_, _, rfl⟩
  induction items generalizing s with
  | nil => exact ⟨s.attachment, s.log, by simp; rfl⟩
  | cons c items ih =>
    obtain ⟨attachment, log, hc⟩ := hone c s
    obtain ⟨attachment', log', h⟩ := ih { s with remarks := s.remarks.push (remarkOf env c), attachment, log }
    refine ⟨attachment', log', ?_⟩
    rw [List.forIn_cons, bind_assoc, bind_assoc, bind_ok _ hc]
    refine h.trans ?_
    simp

theorem takeComments_mirrors : Mirrored (.attachment source o) takeComments := by
  rw [takeComments_eq]
  refine .step fun found => .ofOptions ?_
  dsimp only [Comparison.attachment]
  rw [Bool.or_true, Bool.or_false, if_pos rfl]
  constructor
  · intro s s' _ u hs hr
    obtain ⟨attachment, log, h⟩ := takeEach_eq (Comparison.attachment source o).left found s
    obtain ⟨attachment', log', h'⟩ :=
      takeEach_eq (Comparison.attachment source o).right (if o.comments then found else []) s'
    cases h.symm.trans hr
    refine ⟨_, h', ?_, ⟨hs.beside.1, fun hc => ?_⟩, fun hK => absurd hK not_forgives⟩
    · rw [hs.visible]
      rfl
    · rw [if_pos hc]
      exact congrArg (· ++ _) (hs.beside.2 hc)
  · intro s s' e u _ _ hr
    obtain ⟨_, _, h⟩ := takeEach_eq (Comparison.attachment source o).left found s
    cases h.symm.trans hr
  · exact fun hK => absurd hK not_forgives

theorem modifies_tokens (g : Array Entry → Array Entry) :
    Mirrored (.attachment source o) (modify fun s => { s with tokens := g s.tokens }) where
  returns hs hr := by
    obtain rfl := returns_modify.mp hr
    refine ⟨_, returns_modify.mpr rfl, ?_, ⟨congrArg g hs.beside.1, hs.beside.2⟩, fun hK => absurd hK not_forgives⟩
    rw [hs.visible]
    rfl
  fails _ _ hr := by cases hr
  grows hK := absurd hK not_forgives

instance : (Comparison.attachment source o).Lawful where
  finish := finish_mirrors
  takeComments := takeComments_mirrors
  listToken t := by
    have hentry : Mirrored (.attachment source o) (entryOf t) := .ofOptions (.get fun _ _ => .past <| .past <| .pure)
    exact .ofOptions (.ite (.step fun e => modifies_tokens (·.push e)) .pure)
  unlist := .ofOptions (.ite (modifies_tokens Array.pop) .pure)

end Attachments

end Parse

/-- A program without the comments beside its nodes. What a delegate noted is left out, as it notes more comments the
more are asked for. -/
def Program.detached (p : Program) : Program := { p with root := Node.detach p.root, log := [] }

/-- Unless the comments that wait do not match, putting comments beside nodes changes nothing else. -/
theorem parse_detached (t : Text) (o : Parse.Options)
    (h : parse t { o with attach := true } ≠ .error .unevenComments) :
    (parse t { o with attach := true }).map Program.detached =
      (parse t { o with attach := false }).map fun p => { p with log := [] } := by
  have hmirrors := Parse.program_mirrors (K := .attachment (.ofText t) o) (Parse.grammar (Parse.depth (.ofText t)))
  have hstart : (Parse.Comparison.attachment (.ofText t) o).Sim (.start (.ofText t)) (.start (.ofText t)) :=
    ⟨rfl, ⟨rfl, fun _ => rfl⟩, fun _ => rfl⟩
  rw [parse_eq] at h
  rw [parse_eq, parse_eq]
  cases hrun : Parse.outcome t { o with attach := true } with
  | error e s =>
    rw [hrun] at h
    have hfails : ∃ s', Parse.outcome t { o with attach := false } = .error e s' :=
      (hmirrors.fails (fun he => h (congrArg _ he)) hstart hrun).resolve_right fun hK =>
        Parse.Attachments.not_forgives hK.1
    obtain ⟨s', hfails⟩ := hfails
    rw [hfails]
    rfl
  | ok root s =>
    obtain ⟨s', hreturns, hs⟩ := hmirrors.returns hstart hrun
    change Parse.outcome t { o with attach := false } = .ok (Node.detach root) s' at hreturns
    have hcursor : s'.cursor = s.cursor := by rw [hs.visible]
    have htokens : s'.tokens = s.tokens := hs.beside.1
    rw [hreturns]
    have hremarks : (if o.comments then some s'.remarks.toList else none) =
        if o.comments then some s.remarks.toList else none := by
      split
      next hc => rw [show s'.remarks = s.remarks from hs.beside.2 hc]
      next => rfl
    simp [Except.map, Program.ofRun, Program.detached, Node.detach_annotate, hcursor, htokens, hremarks]

/-- A comment before a name. -/
theorem parse_detached_comment :
    let t := Text.ofString "/*a*/b"
    let o : Parse.Options := { range := true, comments := true }
    parse t { o with attach := true } ≠ .error .unevenComments ∧
      (parse t { o with attach := true }).map Program.detached =
        (parse t { o with attach := false }).map fun p => { p with log := [] } := by
  intro t o
  have hreturns : failure? (parse t { o with attach := true }) = none := by decide +kernel
  have h : parse t { o with attach := true } ≠ .error .unevenComments := by
    intro h
    rw [h] at hreturns
    cases hreturns
  exact ⟨h, parse_detached t o h⟩

/-- An empty block looks for a comment where the statement before has taken it. -/
theorem parse_attached_fails :
    let t := Text.ofString ";/*a*/\x7b\x7d"
    failure? (parse t { attach := true }) = some .unevenComments ∧ (parse t { attach := false }).isOk = true := by
  decide +kernel

end ScriptTree
