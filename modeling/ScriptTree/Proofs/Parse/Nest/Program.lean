import ScriptTree.Proofs.Parse.Coverage
import ScriptTree.Proofs.Parse.Nest.Module

/-! # Ranges nest

The syntax tree of every program is well nested, but for the placeholders that a comma before a closing
parenthesis leaves behind (`parse_nests_iff`). -/

namespace ScriptTree

namespace Parse

variable {lo : Nat} {n : Node} {env : Env} [Ranged env] {g : Grammar} [Parses env g] {s s' : State}

/-- Nothing has been read of a program, or nodes in a row. Its last mark is first set to the end of the first
token. -/
def Opened (env : Env) (lo : Nat) (ns : List Node) (s : State) : Prop :=
  ns = [] ∧ At env lo s ∧ lo ≤ s.lastMark.index ∨ Holds env lo [ns] s

omit [Ranged env] in
theorem Ready.initial : Ready env (State.start env.source) := by
  have hm : Aligned env.source (State.start env.source).startMark := fun hne => by
    simp [Mark.position, State.start, Scan.start, hne, Source.positionOf, Text.positionOf, Text.lineBreaks,
      Text.lastLineLength]
  refine ⟨⟨.here, hm, hm, ⟨rfl, rfl⟩, _, .here, rfl, .here, .inl rfl, fun _ _ => rfl⟩, rfl, Nat.le_refl _, ?_⟩
  simp [Waits, State.start]

theorem Opened.collects : Collects env (Opened env lo) where
  quiet := by
    rintro α p hp ns s a s' (⟨hn, hs, hl⟩ | hs) h
    · have hstill := Quiet.still h
      exact .inl ⟨hn, hstill.at hs, hstill.last ▸ hl⟩
    · exact .inr (hs.goes ((Quiet.still h).goes hs.toReady))
  reads := by
    rintro α _ p _ _ ns s a s' (⟨rfl, hs, -⟩ | hs) h
    · exact .inr (Reads.leads lo s a s' hs h)
    · exact .inr (Leads.follow s a s' hs h)

theorem Opened.finish {m : Mark} {isModule : Bool} {ns : List Node} (hm : Starts env lo m) :
    Leads env (Opened env lo ns) (finish m (.program isModule ns)) fun n s' => Fits (Sited env s'.attachment) 0 s'.lastMark.index n := by
  intro s n s' hs h
  obtain ⟨rfl, hm⟩ := hm
  have hs : m.index ≤ s.lastMark.index ∧ Row (Sited env s.attachment) m.index s.lastMark.index ns ∧ Ready env s := by
    rcases hs with ⟨rfl, hs, hl⟩ | hs
    · exact ⟨hl, .nil, hs.toReady⟩
    · exact ⟨hs.lower, hs.rows.1, hs.toReady⟩
  obtain ⟨hn, -⟩ := finish_fits h hs.1 hm hs.2.2 rfl ⟨hs.2.1, trivial⟩
  exact hn.mono (Nat.zero_le _) (Nat.le_refl _)

theorem program_fits (hs : Ready env s)
    (h : Returns (program g) env s n s') : Fits (Sited env s'.attachment) 0 s'.lastMark.index n := by
  obtain ⟨_, u, h₁, h⟩ := Returns.bind h
  obtain ⟨t, _, h₁, h₂⟩ := Returns.bind h₁
  obtain ⟨-, rfl⟩ := h₂.ended
  obtain ⟨-, ms, c, k, hm⟩ := next_moves h₁
  obtain ⟨hready, -, -, -⟩ := hs.took hm
  replace h := ((h.first rfl).modify).first rfl
  extract_lets isModule rest at h
  have hrest v : At env u.startMark.index v → u.startMark.index ≤ v.lastMark.index →
      Returns (rest ()) env v n s' → Fits (Sited env s'.attachment) 0 s'.lastMark.index n := by
    intro hv hl h
    have hbody : Leads env (Opened env u.startMark.index []) (do
        let directives ← prologue g
        let items ← until' seesEnd g.item
        finish v.startMark (.program isModule (directives ++ items)))
        fun n s' => Fits (Sited env s'.attachment) 0 s'.lastMark.index n := by
      refine .bind (Reads.prologue_collects Opened.collects) fun _ =>
        .bind (Opened.collects.until' inferInstance) fun _ => ?_
      rw [flatMap_nodes]
      exact Opened.finish ⟨hv.eq, .inl hv.toSituated.start⟩
    exact hbody v n s' (.inl ⟨rfl, hv, hl⟩) (h.first rfl)
  have hwaits : Waits { u with lastMark := cursorMark u.cursor } := by
    intro p hp
    obtain ⟨r, hr, hle, -⟩ := hready.waits p hp
    exact ⟨r, hr, hle, .inl (Nat.le_trans hle hready.le)⟩
  have hu : At env u.startMark.index { u with lastMark := cursorMark u.cursor } :=
    ⟨⟨hready.congr rfl rfl rfl hready.cursor.aligned, hready.at', hready.le, hwaits⟩, rfl⟩
  rcases h.ite with ⟨_, h⟩ | ⟨_, h⟩
  · obtain ⟨_, v, h₂, h⟩ := h.bind
    have hstill := Quiet.still h₂
    exact hrest v (hstill.at hu) (hstill.last ▸ hready.le) h
  · exact hrest _ hu hready.le h

theorem program_inside (hs : s.cursor.index ≤ env.source.length)
    (h : Returns (program g) env s n s') : Inside env s' := by
  obtain ⟨t, u, h₁, hrun, -⟩ := program_run Ranged.plain h
  obtain ⟨-, ms, c, k, hm⟩ := next_moves h₁
  obtain ⟨hcursor, hstart, -⟩ := hm.inside hs
  exact (hrun false nofun).preserves Step.inside ⟨hcursor, hstart, hcursor⟩

end Parse

/-- The tree of a program lies inside its text, with comments beside its nodes if these are asked for. -/
theorem Program.fits {t : Text} {o : Parse.Options} {p : Program} (hr : o.range = true)
    (ht : o.tolerant = false) (hj : o.jsx = false) (hd : ∀ names, o.delegate ≠ .rename names)
    (h : parse t o = .ok p) : ∃ a, Fits (Parse.Sited ⟨.ofText t, o⟩ a) 0 t.length p.root ∧
      (o.attach = true → ∃ root : Node, p.root = root.annotate a.remarksOf) := by
  have : Parse.Ranged ⟨.ofText t, o⟩ := ⟨hr, ht, hj, hd⟩
  unfold parse at h
  dsimp only at h
  split at h
  · cases h
  next root s hs =>
    obtain rfl := Except.ok.inj h
    have hroot : Fits (Parse.Sited ⟨.ofText t, o⟩ s.attachment) 0 t.length root := by
      have hlast : s.lastMark.index ≤ t.length :=
        Source.length_ofText t ▸ (Parse.program_inside (Nat.zero_le _) hs).last
      exact (Parse.program_fits .initial hs).mono (Nat.le_refl 0) hlast
    refine ⟨s.attachment, ?_, fun ha => ⟨root, if_pos ha⟩⟩
    dsimp only
    split
    · exact hroot.annotate _
    · exact hroot

/-- In the tree of a program the range of each node contains those of all nodes below it, and nodes in a list
come one after the other. The exceptions are the placeholders for parameters of an arrow function that never
came, which have no range. -/
theorem parse_nests_iff {t : Text} {o : Parse.Options} {p : Program} (hr : o.range = true)
    (ht : o.tolerant = false) (hj : o.jsx = false) (hd : ∀ names, o.delegate ≠ .rename names)
    (h : parse t o = .ok p) {n : Node} (hn : p.root.Below n) :
    n.Nests t.length ↔ n.shape.isPlaceholder = false := by
  obtain ⟨a, hfits, -⟩ := Program.fits hr ht hj hd h
  exact (hfits.descend hn).nests_iff

theorem Program.exists_parsed {t : Text} {o : Parse.Options} {q : Program → Bool}
    (h : (parse t o).toOption.any q = true) : ∃ p, parse t o = .ok p ∧ q p = true := by
  cases hparse : parse t o with
  | error => rw [hparse] at h; cases h
  | ok p =>
    rw [hparse] at h
    exact ⟨p, rfl, h⟩

theorem lists_read :
    (parse (Text.ofString "x = (a, b + c * d)\nlet [, f] = (y, z) => y") { range := true }).toOption.any
      (!·.root.shape.isPlaceholder) = true ∧
    -- the object of the member that the only statement consists of
    (parse (Text.ofString "(a,).b") { range := true }).toOption.any (fun p =>
      p.root.shape.children.any fun statement => statement.shape.children.any fun member =>
        member.shape.children.any (·.info.range.isNone)) = true := by
  decide +kernel

/-- A sequence, operators of two strengths, a missing semicolon, a hole, and parentheses that do turn out to
be parameters. -/
theorem parse_nests_arrow :
    let t := Text.ofString "x = (a, b + c * d)\nlet [, f] = (y, z) => y"
    let o : Parse.Options := { range := true }
    ∃ p, parse t o = .ok p ∧ p.root.shape.isPlaceholder = false ∧ p.root.Nests t.length := by
  intro t o
  obtain ⟨p, h, hp⟩ := Program.exists_parsed lists_read.1
  rw [Bool.not_eq_true'] at hp
  exact ⟨p, h, hp, (parse_nests_iff rfl rfl rfl (fun _ hd => Delegate.noConfusion hd) h .root).mpr hp⟩

/-- A comma before the closing parenthesis makes a list of parameters even if no arrow follows. -/
theorem parse_leaves_placeholder :
    let t := Text.ofString "(a,).b"
    let o : Parse.Options := { range := true }
    ∃ p n, parse t o = .ok p ∧ p.root.Below n ∧ n.info.range = none ∧ ¬ n.Nests t.length := by
  intro t o
  obtain ⟨p, h, hp⟩ := Program.exists_parsed lists_read.2
  obtain ⟨statement, hstatement, hp⟩ := List.any_eq_true.mp hp
  obtain ⟨member, hmember, hp⟩ := List.any_eq_true.mp hp
  obtain ⟨n, hn, hp⟩ := List.any_eq_true.mp hp
  have hnone := Option.isNone_iff_eq_none.mp hp
  refine ⟨p, n, h, .child (.child (.child .root hstatement) hmember) hn, hnone, ?_⟩
  rintro ⟨r, hr, -⟩
  rw [hnone] at hr
  cases hr

/-! ## Lines and columns -/

section

variable {t : Text} {o : Parse.Options} {p : Program}

def Program.expression? (p : Program) : Option Node :=
  match p.root.shape with
  | .program _ [⟨_, .expressionStatement e⟩] => some e
  | _ => none

theorem Program.below_expression {e : Node} (h : p.expression? = some e) : p.root.Below e := by
  unfold Program.expression? at h
  split at h
  next isModule info e' hroot =>
    have hstatement : p.root.Below ⟨info, .expressionStatement e'⟩ := by
      refine .child .root ?_
      rw [hroot]
      simp [Shape.children, Shape.parts, Part.nodes, Part.word]
    obtain rfl := Option.some.inj h
    exact hstatement.child (.head _)
  next => cases h

/-- A program that consists of an expression of a kind. -/
theorem Program.exists_expression {q : Node → Bool}
    (h : (parse t o).toOption.any (fun p => p.expression?.any q) = true) :
    ∃ p e, parse t o = .ok p ∧ p.root.Below e ∧ q e = true := by
  obtain ⟨p, hp, h⟩ := Program.exists_parsed h
  obtain ⟨e, he, hq⟩ := (Option.any_eq_true _ _).mp h
  exact ⟨p, e, hp, Program.below_expression he, hq⟩

end

/-- In the tree of a program each node ends at the line and the column of the end of its range, and starts at those
of the start of its range, unless a token that starts there ends on a later line. An empty text has no line. -/
theorem parse_locations {t : Text} {o : Parse.Options} {p : Program} (hr : o.range = true) (hl : o.location = true)
    (ht : o.tolerant = false) (hj : o.jsx = false) (hd : ∀ names, o.delegate ≠ .rename names) (hne : t ≠ [])
    (h : parse t o = .ok p) {n : Node} (hn : p.root.Below n) (hp : n.shape.isPlaceholder = false) :
    ∃ r l, n.info.range = some r ∧ n.info.location = some l ∧ l.stop = t.positionOf r.stop ∧
      (l.start = t.positionOf r.start ∨ (Source.ofText t).SpansLines r.start) := by
  obtain ⟨a, hfits, -⟩ := Program.fits hr ht hj hd h
  obtain ⟨r, hrange, hsited⟩ := (hfits.descend hn).location hp
  obtain ⟨start, hloc, hstart⟩ := hsited.location hl (by simpa [Source.length_ofText, List.length_pos_iff] using hne)
  exact ⟨r, _, hrange, hloc, rfl, hstart⟩

theorem lines_read :
    (parse (Text.ofString "a +\r\n b") { range := true, location := true }).toOption.any (fun p => p.expression?.any
      fun n => decide (n.info.range = some ⟨0, 7⟩) && !n.shape.isPlaceholder) = true ∧
    (parse (Text.ofString "`\n`.a") { range := true, location := true }).toOption.any (fun p => p.expression?.any
      fun n => decide (n.info.range = some ⟨0, 5⟩ ∧ n.info.location = some ⟨⟨1, -2⟩, ⟨2, 3⟩⟩)) = true := by
  decide +kernel

/-- The places of an operator with operands on two lines. -/
theorem parse_locations_operator :
    let t := Text.ofString "a +\r\n b"
    let o : Parse.Options := { range := true, location := true }
    ∃ p n r l, parse t o = .ok p ∧ p.root.Below n ∧ n.info.range = some r ∧ n.info.location = some l ∧
      l.stop = ⟨2, 2⟩ ∧ (l.start = ⟨1, 0⟩ ∨ (Source.ofText t).SpansLines 0) := by
  intro t o
  obtain ⟨p, n, hp, hn, hq⟩ := Program.exists_expression lines_read.1
  simp only [Bool.and_eq_true, decide_eq_true_eq, Bool.not_eq_true'] at hq
  obtain ⟨r, l, hr, hl, hstop, hstart⟩ := parse_locations rfl rfl rfl rfl (fun _ hd => Delegate.noConfusion hd)
    (by decide) hp hn hq.2
  obtain rfl := Option.some.inj (hq.1.symm.trans hr)
  have hend : t.positionOf 7 = ⟨2, 2⟩ := by decide
  have hfirst : t.positionOf 0 = ⟨1, 0⟩ := by decide
  exact ⟨p, n, _, l, hp, hn, hr, hl, hstop.trans hend, hstart.imp_left (·.trans hfirst)⟩

/-- The start of a token is reckoned from the line on which it ends. -/
theorem parse_misplaces_member :
    let t := Text.ofString "`\n`.a"
    let o : Parse.Options := { range := true, location := true }
    ∃ p n r l, parse t o = .ok p ∧ p.root.Below n ∧ n.info.range = some r ∧ n.info.location = some l ∧
      l.start ≠ t.positionOf r.start := by
  intro t o
  obtain ⟨p, n, hp, hn, hq⟩ := Program.exists_expression lines_read.2
  obtain ⟨hr, hl⟩ := of_decide_eq_true hq
  exact ⟨p, n, _, _, hp, hn, hr, hl, by decide⟩

end ScriptTree
