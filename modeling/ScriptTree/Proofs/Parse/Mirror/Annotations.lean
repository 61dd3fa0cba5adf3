import ScriptTree.Proofs.Parse.Mirror.Program

/-! # Annotations do not influence parsing

A parse that shows places and lists tokens and comments is compared with one that does not. What is shown and
listed is written and never read, so the bare tree is the annotated one with the places taken off. -/

namespace ScriptTree

variable {source : Source} {o : Options}

namespace Parse

/-- What a program shows besides the shape of its tree. -/
structure Annotations where
  range : Bool := false
  location : Bool := false
  source : Option Text := none
  tokens : Bool := false
  comments : Bool := false

def Options.annotated (o : Options) (a : Annotations) : Options :=
  { o with
    range := a.range, location := a.location, source := a.source, tokens := a.tokens, comments := a.comments }

/-- No delegate looks at the nodes, and no comments are put beside them. -/
class Options.Alone (o : Options) : Prop where
  attach : o.attach = false
  delegate : o.delegate = .nothing

/-- The annotated parse on the left, the bare one on the right. -/
def Comparison.annotations (source : Source) (o : Options) (a : Annotations) : Comparison where
  left := ⟨source, o.annotated a⟩
  right := ⟨source, o.annotated {}⟩
  labels := .unplace
  Beside c c' := c'.log = c.log

namespace Annotations

instance {o : Options} [h : o.Alone] {a : Annotations} : (o.annotated a).Alone := ⟨h.attach, h.delegate⟩

section

variable [ho : o.Alone] {s : State}

theorem finish_eq (m : Mark) (shape : Shape Node) :
    finish m shape ⟨source, o⟩ s = .ok ⟨infoAt ⟨source, o⟩ m s.lastMark, shape⟩ s := by
  obtain ⟨hattach, hdelegate⟩ := ho
  obtain ⟨_, _, _, _, _, _, _, _, _, _, _⟩ := o
  cases hattach
  cases hdelegate
  rfl

/-- The step only lists tokens and comments. -/
def Lists (p : Parse Unit) (env : Env) : Prop :=
  ∀ s, ∃ tokens remarks, p env s = .ok () { s with tokens, remarks }

theorem takeComment_eq (c : Comment) :
    takeComment c ⟨source, o⟩ s = .ok () { s with remarks := s.remarks.push (remarkOf ⟨source, o⟩ c) } := by
  obtain ⟨hattach, hdelegate⟩ := ho
  obtain ⟨_, _, _, _, _, _, _, _, _, _, _⟩ := o
  cases hattach
  cases hdelegate
  rfl

theorem takeEach_lists (items : List Comment) : Lists (do for c in items do takeComment c) ⟨source, o⟩ := by
  intro s
  induction items generalizing s with
  | nil => exact ⟨s.tokens, s.remarks, rfl⟩
  | cons c items ih =>
    obtain ⟨tokens, remarks, h⟩ := ih { s with remarks := s.remarks.push (remarkOf ⟨source, o⟩ c) }
    refine ⟨tokens, remarks, ?_⟩
    rw [List.forIn_cons, bind_assoc, bind_assoc, bind_ok _ (takeComment_eq c)]
    exact h

omit ho in
theorem listToken_lists (t : Token) : Lists (listToken t) ⟨source, o⟩ := by
  intro s
  obtain ⟨_, _, _, tokens, _, _, _, _, _, _, _⟩ := o
  cases tokens with
  | false => exact ⟨_, _, rfl⟩
  | true => exact ⟨_, _, rfl⟩

omit ho in
theorem unlist_lists : Lists (do if (← options).tokens then unlistToken) ⟨source, o⟩ := by
  intro s
  obtain ⟨_, _, _, tokens, _, _, _, _, _, _, _⟩ := o
  cases tokens with
  | false => exact ⟨_, _, rfl⟩
  | true => exact ⟨_, _, rfl⟩

end

/-! ## The comparison -/

variable {a : Annotations}

theorem not_forgives : ¬ (Comparison.annotations source o a).Forgives := by
  rintro ⟨hl, hr⟩
  cases hl.symm.trans hr

instance : (Comparison.annotations source o a).Fair where
  source := rfl
  jsx := rfl
  classProperties := rfl
  isModule := rfl
  tolerant h := h
  labels h := absurd h not_forgives

/-- Lists may differ on the two sides. -/
theorem mirrors_of_lists {p p' : Parse Unit} (h : Lists p ⟨source, o.annotated a⟩)
    (h' : Lists p' ⟨source, o.annotated {}⟩) : Mirrors (.annotations source o a) p p' where
  returns {s s' _ u} hs hr := by
    obtain ⟨tokens, remarks, h⟩ := h s
    obtain ⟨tokens', remarks', h'⟩ := h' s'
    cases h.symm.trans hr
    refine ⟨_, h', ?_, hs.beside, fun hK => absurd hK not_forgives⟩
    rw [hs.visible]
    rfl
  fails {s s' e u} _ hs hr := by
    obtain ⟨tokens, remarks, h⟩ := h s
    cases h.symm.trans hr
  grows hK := absurd hK not_forgives

theorem finish_mirrors [o.Alone] (m : Mark) (shape : Shape Node) :
    Mirrors (.annotations source o a) (finish m shape) (finish m (shape.map Node.Relabelling.unplace)) where
  returns {s s' _ u} hs hr := by
    cases (finish_eq m shape).symm.trans hr
    have hn := Node.Relabelling.unplace.node_mk (infoAt ⟨source, o.annotated a⟩ m s.lastMark) shape
    exact ⟨s', (finish_eq m _).trans (congrArg (EStateM.Result.ok · s') hn.symm), hs⟩
  fails _ hs hr := by cases (finish_eq m shape).symm.trans hr
  grows hK := absurd hK not_forgives

instance [o.Alone] : (Comparison.annotations source o a).Lawful where
  finish := finish_mirrors
  takeComments := by
    rw [takeComments_eq]
    exact .step fun found => .ofOptions (mirrors_of_lists (takeEach_lists _) (takeEach_lists _))
  listToken t := mirrors_of_lists (listToken_lists t) (listToken_lists t)
  unlist := mirrors_of_lists unlist_lists unlist_lists

end Annotations

end Parse

/-- A program without annotations. -/
def Program.unannotated (p : Program) : Program where
  root := Node.Relabelling.unplace p.root
  errors := p.errors
  log := p.log

/-- A program that is parsed without annotations is one that is parsed with them and has them taken off. -/
theorem parse_bare (t : Text) (o : Parse.Options) [ho : o.Alone] (a : Parse.Annotations) :
    parse t (o.annotated {}) = (parse t (o.annotated a)).map Program.unannotated := by
  have hmirrors := Parse.program_mirrors (K := .annotations (.ofText t) o a) (Parse.grammar (Parse.depth (.ofText t)))
  have hstart : (Parse.Comparison.annotations (.ofText t) o a).Sim (.start (.ofText t)) (.start (.ofText t)) :=
    ⟨rfl, rfl, fun _ => rfl⟩
  rw [parse_eq, parse_eq]
  cases h : Parse.outcome t (o.annotated a) with
  | error e s =>
    have hbare : ∃ s', Parse.outcome t (o.annotated {}) = .error e s' :=
      (hmirrors.fails id hstart h).resolve_right fun hK => Parse.Annotations.not_forgives hK.1
    obtain ⟨s', hbare⟩ := hbare
    rw [hbare]
    rfl
  | ok root s =>
    obtain ⟨s', hbare, hs⟩ := hmirrors.returns hstart h
    change Parse.outcome t (o.annotated {}) = .ok (Node.Relabelling.unplace root) s' at hbare
    have hcursor : s'.cursor = s.cursor := by rw [hs.visible]
    have hlog : s'.log = s.log := hs.beside
    rw [hbare]
    simp [Except.map, Program.ofRun, Program.unannotated, Parse.Options.annotated, ho.attach, hcursor, hlog]

/-- Whatever is shown of places and listed of tokens and comments, the parse fails with the same error, or
returns the same program but for what is shown and listed. -/
theorem parse_unannotated (t : Text) {o : Parse.Options} (hattach : o.attach = false)
    (hdelegate : o.delegate = .nothing) (a b : Parse.Annotations) :
    (parse t (o.annotated a)).map Program.unannotated = (parse t (o.annotated b)).map Program.unannotated := by
  have : o.Alone := ⟨hattach, hdelegate⟩
  rw [← parse_bare, ← parse_bare]

/-- Markup and a regular expression, for which what is listed is taken off the list again, a comment, and a
complaint. -/
theorem parse_unannotated_markup :
    let t := Text.ofString "<a/> /* b */; /c/; return"
    let o : Parse.Options := { jsx := true, tolerant := true }
    let a : Parse.Annotations := ⟨true, true, some (Text.ofString "d"), true, true⟩
    o.attach = false ∧ o.delegate = .nothing ∧
      (parse t (o.annotated a)).map Program.unannotated = (parse t (o.annotated {})).map Program.unannotated ∧
      (parse t (o.annotated a)).toOption.map (fun p =>
        (p.tokens.map List.length, p.comments.map List.length, p.errors.map List.length)) =
        some (some 8, some 1, some 1) := by
  intro t o a
  refine ⟨rfl, rfl, parse_unannotated t rfl rfl a {}, ?_⟩
  decide +kernel

end ScriptTree
