import ScriptTree.Proofs.Parse.Context.Program
import ScriptTree.Proofs.Parse.Mirror.Program
import ScriptTree.Proofs.Parse.Scope.Expression
import ScriptTree.Proofs.Parse.Scope.Module

/-! # Programs are sound

Main results: where nothing is tolerated, the jumps in the tree of a program lie inside what they jump to
(`parse_jumps`), functions of strict code have parameters with distinct names that strict code may bind
(`parse_strict_parameters`), and imports and exports are members of lists of statements outside of functions
(`parse_module_items`). -/

namespace ScriptTree

variable {o : Parse.Options} {p : Program} {t : Text}

namespace Parse

/-- Rules nested to any depth return nodes that are sound. -/
instance grammar_scoping (env : Env) [Exact env] (n : Nat) : Scoping env (grammar n) := by
  induction n with
  | zero =>
    have hfails {α : Type} {P : State → Prop} {Q : α → State → Prop} : Leads env P (throw .exhausted) Q := .fails
    constructor <;> intros <;> first | exact hfails | exact ⟨fun _ => hfails⟩
  | succ n ih =>
    constructor <;> intros <;> simp only [grammar_succ]
    case statesItem c => exact Itemizes.item_states c
    all_goals infer_instance

variable {env : Env} [Exact env] {g : Grammar} [Scoping env g]

/-- The rule for programs starts in no scope. -/
theorem program_seated : Leads env (Under {}) (program g) fun root _ => Seated {} root := by
  refine .past <| .keeps fun last => .past <| .keeps fun o => ?_
  have hrest (isModule : Bool) : Leads env (Under { strict := isModule, isModule }) (do
      let start ← startMark
      let directives ← prologue g
      let items ← until' seesEnd g.item
      finish start (.program isModule (directives ++ items))) fun root _ => Seated {} root := by
    refine .past <| .bind prologue_opens fun directives => .fact fun hopened => ?_
    refine .statements fun items hitems => .closes fun info _ _ =>
      ⟨.node trivial trivial ⟨nofun, nofun⟩ fun x hx => ?_, rfl⟩
    obtain ⟨n, hn, rfl⟩ := List.mem_map.mp hx
    rw [any_isStrictDirective hitems]
    rcases List.mem_append.mp hn with hn | hn
    · exact hopened.free n hn _ rfl
    · exact (hitems n hn).sound
  cases o.isModule with
  | true =>
    refine .turns { strict := true, isModule := true } (fun _ h => ?_) (hrest true)
    exact { h with strict := rfl, isModule := rfl }
  | false => exact hrest false

end Parse

/-- Trees of programs are sound. -/
theorem Program.seated (ht : o.tolerant = false)
    (hd : ∀ names, o.delegate ≠ .rename names) (h : parse t o = .ok p) : Seated {} p.root := by
  have : Parse.Exact ⟨.ofText t, o⟩ := { strict := ht, kept := hd }
  obtain ⟨root, s, hrun, rfl⟩ := parse_eq_ok_iff.mp h
  have hroot : Seated {} root := Parse.program_seated (.start (.ofText t)) root s (Parse.Kept.refl _) hrun
  unfold Program.ofRun
  split
  · refine ⟨hroot.sound.annotate _, ?_⟩
    rw [Node.annotate_eq_relabel, Node.shape_relabel, Shape.isModuleItem_map]
    exact hroot.inner
  · exact hroot

theorem Program.sound (ht : o.tolerant = false)
    (hd : ∀ names, o.delegate ≠ .rename names) (h : parse t o = .ok p) : Sound {} p.root :=
  (Program.seated ht hd h).sound

/-- In the tree of a program a jump lies in the labelled statement, the loop, the case or the function that it
jumps out of, and no label is that of a statement around it in the same function. -/
theorem parse_jumps {t : Text} {o : Parse.Options} {p : Program} (ht : o.tolerant = false)
    (hd : ∀ names, o.delegate ≠ .rename names) (h : parse t o = .ok p) :
    (∀ n, p.root.Below n → ∃ sc, p.root.Lies sc n) ∧ ∀ sc n, p.root.Lies sc n → n.shape.Jumps sc :=
  ⟨fun _ hn => hn.lies, fun _ _ hn => ((Program.sound ht hd h).lies hn).jumps⟩

/-- A program that is a loop under a label, with a jump as its body. -/
def Shape.isLabeledJump (label : Text) : Shape Node → Bool
  | .program false [⟨_, .labeledStatement l ⟨_, .forStatement none none none ⟨_, .breakStatement (some _)⟩⟩⟩] =>
    l.name? == some label
  | _ => false

/-- A program that is a directive and a function whose parameters bind the names. -/
def Shape.isStrictFunction (names : List Text) : Shape Node → Bool
  | .program false [d, ⟨_, .functionDeclaration _ _ params _⟩] =>
    d.isStrictDirective && params.flatMap Node.boundNames == names
  | _ => false

theorem scopes_read :
    (parse (Text.ofString "a: for (;;) break a")).toOption.map
      (·.root.shape.isLabeledJump (Text.ofString "a")) = some true ∧
    (parse (Text.ofString "'use strict'; function f(a, [b]) \x7b\x7d")).toOption.map
      (·.root.shape.isStrictFunction [Text.ofString "a", Text.ofString "b"]) = some true := by
  decide +kernel

/-- A jump out of a loop with a label. -/
theorem parse_jumps_break :
    ∃ p n label, parse (Text.ofString "a: for (;;) break a") = .ok p ∧
      p.root.Lies { labels := [Text.ofString "a"], inLoop := true } n ∧
      n.shape = .breakStatement (some label) ∧ label.name? = some (Text.ofString "a") := by
  have hshape := scopes_read.1
  cases h : parse (Text.ofString "a: for (;;) break a") with
  | error e => rw [h] at hshape; cases hshape
  | ok p =>
    rw [h] at hshape
    have hp : p.root.shape.isLabeledJump (Text.ofString "a") = true := Option.some.inj hshape
    unfold Shape.isLabeledJump at hp
    split at hp
    next info l info' info'' label hroot =>
      have hl : l.name? = some (Text.ofString "a") := by simpa using hp
      have hbreak : p.root.Lies { labels := l.name?.toList, inLoop := true }
          ⟨info'', .breakStatement (some label)⟩ := by
        let loop : Node := ⟨info', .forStatement none none none ⟨info'', .breakStatement (some label)⟩⟩
        have hlabeled : p.root.Lies {} ⟨info, .labeledStatement l loop⟩ :=
          .child .root (by rw [hroot]; exact .head _)
        have hloop : p.root.Lies { labels := l.name?.toList } loop := hlabeled.child (by simp [Shape.enclosed])
        exact hloop.child (.head _)
      rw [hl] at hbreak
      obtain ⟨name, hname, hlabel⟩ := (parse_jumps rfl (fun _ hd => Delegate.noConfusion hd) h).2 _ _ hbreak
      exact ⟨p, _, label, rfl, hbreak, rfl, List.mem_singleton.mp hname ▸ hlabel⟩
    · cases hp

/-- In the tree of a program a function of strict code has parameters that bind no name twice and neither of
the names that strict code may not bind. -/
theorem parse_strict_parameters {t : Text} {o : Parse.Options} {p : Program} (ht : o.tolerant = false)
    (hd : ∀ names, o.delegate ≠ .rename names) (h : parse t o = .ok p) :
    (∀ n, p.root.Below n → ∃ sc, p.root.Lies sc n) ∧ ∀ sc n, p.root.Lies sc n → n.shape.Binds sc :=
  ⟨fun _ hn => hn.lies, fun _ _ hn => ((Program.sound ht hd h).lies hn).binds⟩

/-- A directive makes the code of a function strict. -/
theorem parse_strict_parameters_directive :
    ∃ p n kind id params body, parse (Text.ofString "'use strict'; function f(a, [b]) \x7b\x7d") = .ok p ∧
      p.root.Lies { strict := true } n ∧ n.shape = .functionDeclaration kind id params body ∧
      params.flatMap Node.boundNames = [Text.ofString "a", Text.ofString "b"] ∧
      Shape.StrictParameters params := by
  have hshape := scopes_read.2
  cases h : parse (Text.ofString "'use strict'; function f(a, [b]) \x7b\x7d") with
  | error e => rw [h] at hshape; cases hshape
  | ok p =>
    rw [h] at hshape
    have hp : p.root.shape.isStrictFunction [Text.ofString "a", Text.ofString "b"] = true := Option.some.inj hshape
    unfold Shape.isStrictFunction at hp
    split at hp
    next d info kind id params body hroot =>
      rw [Bool.and_eq_true, beq_iff_eq] at hp
      have hlies : p.root.Lies { strict := true } ⟨info, .functionDeclaration kind id params body⟩ := by
        refine .child .root ?_
        rw [hroot]
        simp [Shape.enclosed, hp.1]
      have hbinds := (parse_strict_parameters rfl (fun _ hd => Delegate.noConfusion hd) h).2 _ _ hlies
      exact ⟨p, _, kind, id, params, body, rfl, hlies, rfl, hp.2, hbinds rfl⟩
    · cases hp

/-- In the tree of a program an import or an export is a member of the program, of a block or of a case, and
that lies in no function. -/
theorem parse_module_items {t : Text} {o : Parse.Options} {p : Program} {n : Node} (ht : o.tolerant = false)
    (hd : ∀ names, o.delegate ≠ .rename names) (h : parse t o = .ok p) (hn : p.root.Below n)
    (hm : n.shape.isModuleItem = true) :
    ∃ sc list, p.root.Lies sc list ∧ sc.inFunction = false ∧ list.shape.isList = true ∧
      n ∈ list.shape.children := by
  obtain ⟨hsound, hroot⟩ := Program.seated ht hd h
  cases hn with
  | root => exact absurd (hroot.symm.trans hm) Bool.false_ne_true
  | child hlist hn =>
    obtain ⟨sc, hlies⟩ := hlist.lies
    have hl := (hsound.lies hlies).isList hn hm
    obtain ⟨sc', hx⟩ := Shape.exists_enclosed hn
    refine ⟨sc, _, hlies, ?_, hl, hn⟩
    rw [← Shape.inFunction_of_isList hl hx]
    exact ((hsound.lies hlies).enclosed hx).hosts.1 hm

def Program.members (p : Program) : List Node :=
  match p.root.shape with
  | .program _ body => body
  | _ => []

theorem Program.below_members {n : Node} (h : n ∈ p.members) : p.root.Below n := by
  refine .child .root ?_
  unfold Program.members at h
  split at h
  next hroot =>
    simpa [hroot, Shape.children, Shape.parts, Part.word, Part.nodes] using h
  · cases h

theorem items_read :
    (parse (Text.ofString "export * from 'a'") { isModule := true }).toOption.map
      (·.members.any (·.shape.isModuleItem)) = some true ∧
    (parse (Text.ofString "\x7b import 'a' \x7d") { isModule := true }).toOption.map (fun p =>
      p.members.any (·.shape.children.any (·.shape.isModuleItem)) && p.members.all (!·.shape.isModuleItem)) =
        some true := by
  decide +kernel

/-- A module that exports what another one exports. -/
theorem parse_module_items_export :
    let t := Text.ofString "export * from 'a'"
    let o : Parse.Options := { isModule := true }
    ∃ p n, parse t o = .ok p ∧ p.root.Below n ∧ n.shape.isModuleItem = true ∧
      ∃ sc list, p.root.Lies sc list ∧ sc.inFunction = false ∧ list.shape.isList = true ∧
        n ∈ list.shape.children := by
  intro t o
  have hitem : (parse t o).toOption.map _ = _ := items_read.1
  cases h : parse t o with
  | error e => rw [h] at hitem; cases hitem
  | ok p =>
    rw [h] at hitem
    obtain ⟨n, hn, hm⟩ := List.any_eq_true.mp (Option.some.inj hitem)
    have hn := Program.below_members hn
    exact ⟨p, n, rfl, hn, hm, parse_module_items rfl (fun _ hd => Delegate.noConfusion hd) h hn hm⟩

/-- A block may have an import as a member, which no member of the program is. -/
theorem parse_accepts_nested_import :
    let t := Text.ofString "\x7b import 'a' \x7d"
    let o : Parse.Options := { isModule := true }
    ∃ p n, parse t o = .ok p ∧ p.root.Below n ∧ n.shape.isModuleItem = true ∧ n ∉ p.members := by
  intro t o
  have hitem : (parse t o).toOption.map _ = _ := items_read.2
  cases h : parse t o with
  | error e => rw [h] at hitem; cases hitem
  | ok p =>
    rw [h] at hitem
    obtain ⟨hany, hall⟩ := Bool.and_eq_true_iff.mp (Option.some.inj hitem)
    obtain ⟨list, hlist, hany⟩ := List.any_eq_true.mp hany
    obtain ⟨n, hn, hm⟩ := List.any_eq_true.mp hany
    refine ⟨p, n, rfl, .child (Program.below_members hlist) hn, hm, fun hmember => ?_⟩
    exact absurd hm (by simpa using List.all_eq_true.mp hall n hmember)

end ScriptTree
