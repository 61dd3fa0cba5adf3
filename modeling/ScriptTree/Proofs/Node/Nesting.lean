import ScriptTree.Node.Fields
import ScriptTree.Node.Pattern

/-! # Nested ranges

A tree is well nested if the range of each node contains those of the nodes below it and nodes in a list
come one after the other (`Node.Nests`). `Fits` is the same as an inductive predicate, with the interval in
which a node has to lie. It is kept when an expression becomes a pattern (`Fits.patterns`) and when
comments are put beside nodes (`Fits.annotate`). -/

namespace ScriptTree

variable {hi hi' lo lo' : Nat} {n c : Node} {r : Range} {shape : Shape Node}

/-- Expressions in parentheses that stand for parameters of an arrow function that never came. -/
def Shape.isPlaceholder {α : Type} : Shape α → Bool
  | .arrowParameters .. => true
  | _ => false

/-- Of two nodes in the list the one before ends where the other one starts, or earlier. -/
def InOrder (ns : List Node) : Prop :=
  ns.Pairwise fun m n => ∀ r ∈ m.info.range, ∀ r' ∈ n.info.range, r.stop ≤ r'.start

namespace Node

/-- The node is the root of a tree or somewhere below it. -/
inductive Below (root : Node) : Node → Prop
  | root : Below root root
  | child {n c : Node} : Below root n → c ∈ n.shape.children → Below root c

/-- The node has a range in a text of a length, the ranges of all nodes below it lie inside, and in each of
its fields the nodes are in order. -/
def Nests (length : Nat) (n : Node) : Prop :=
  ∃ r, n.info.range = some r ∧ r.start ≤ r.stop ∧ r.stop ≤ length ∧
    (∀ d, n.Below d → ∀ r' ∈ d.info.range, r.start ≤ r'.start ∧ r'.stop ≤ r.stop) ∧
    ∀ p ∈ n.shape.parts, InOrder p.2.nodes

end Node

/-- What is known of the number, the range and the location of a node. -/
abbrev Siting := Nat → Range → Option Location → Prop

/-- The node lies between two offsets and is well nested, placeholders apart. Those have no range, and the
nodes in them lie between the same offsets. Besides, something is known of where nodes are. -/
inductive Fits (L : Siting) : Nat → Nat → Node → Prop
  | node {lo hi : Nat} {r : Range} {info : Node.Info} {shape : Shape Node} :
      info.range = some r → L info.id r info.location → shape.isPlaceholder = false →
      lo ≤ r.start → r.start ≤ r.stop → r.stop ≤ hi →
      (∀ p ∈ shape.parts, ∀ n ∈ p.2.nodes, Fits L r.start r.stop n) →
      (∀ p ∈ shape.parts, InOrder p.2.nodes) → Fits L lo hi ⟨info, shape⟩
  | placeholder {lo hi : Nat} {info : Node.Info} {isAsync : Bool} {params : List Node} :
      info.range = none → (∀ n ∈ params, Fits L lo hi n) → InOrder params →
      Fits L lo hi ⟨info, .arrowParameters isAsync params⟩

variable {L L' : Siting}

namespace Fits

theorem mono (h : Fits L lo hi n) (hlo : lo' ≤ lo) (hhi : hi ≤ hi') : Fits L lo' hi' n := by
  induction h generalizing lo' hi' with
  | node hr hl hp h₁ h₂ h₃ hn ho _ => exact .node hr hl hp (by omega) h₂ (by omega) hn ho
  | placeholder hr _ ho ih => exact .placeholder hr (fun n hn => ih n hn hlo hhi) ho

theorem imp (hL : ∀ {id r l}, L id r l → L' id r l) (h : Fits L lo hi n) : Fits L' lo hi n := by
  induction h with
  | node hr hl hp h₁ h₂ h₃ _ ho ih => exact .node hr (hL hl) hp h₁ h₂ h₃ ih ho
  | placeholder hr _ ho ih => exact .placeholder hr ih ho

theorem range_le (h : Fits L lo hi n) (hr : r ∈ n.info.range) : lo ≤ r.start ∧ r.start ≤ r.stop ∧ r.stop ≤ hi := by
  cases h with
  | node hr' _ _ h₁ h₂ h₃ =>
    obtain rfl := Option.some.inj (hr'.symm.trans hr)
    exact ⟨h₁, h₂, h₃⟩
  | placeholder hr' =>
    rw [hr'] at hr
    cases hr

/-- What lies below a node lies between the same offsets. -/
theorem descend {d : Node} (h : Fits L lo hi n) (hd : n.Below d) : Fits L lo hi d := by
  induction hd with
  | root => exact h
  | child _ hc ih =>
    obtain ⟨p, hp, hm⟩ := List.mem_flatMap.mp hc
    cases ih with
    | node _ _ _ h₁ _ h₃ hn => exact (hn p hp _ hm).mono h₁ h₃
    | placeholder _ hn =>
      rcases List.mem_cons.mp hp with rfl | hp
      · exact hn _ hm
      · obtain rfl := List.mem_singleton.mp hp
        cases hm

theorem nests_iff (h : Fits L lo hi n) : n.Nests hi ↔ n.shape.isPlaceholder = false := by
  cases h with
  | @node _ _ r _ _ hr hl hp h₁ h₂ h₃ hn ho =>
    refine iff_of_true ⟨r, hr, h₂, h₃, fun d hd r' hr' => ?_, ho⟩ hp
    have hd := (Fits.node hr hl hp (Nat.le_refl _) h₂ (Nat.le_refl _) hn ho).descend hd
    have := hd.range_le hr'
    omega
  | placeholder hr =>
    refine iff_of_false ?_ (by simp [Shape.isPlaceholder])
    rintro ⟨r, hr', -⟩
    rw [hr] at hr'
    cases hr'

/-- What is known of the range and the location of a node that is no placeholder. -/
theorem location (h : Fits L lo hi n) (hp : n.shape.isPlaceholder = false) :
    ∃ r, n.info.range = some r ∧ L n.info.id r n.info.location := by
  cases h with
  | node hr hl => exact ⟨_, hr, hl⟩
  | placeholder => cases hp

end Fits

/-- Nodes that lie between two offsets one after the other. -/
def Row (L : Siting) (lo hi : Nat) (ns : List Node) : Prop := (∀ n ∈ ns, Fits L lo hi n) ∧ InOrder ns

namespace Row

variable {ns ms : List Node}

@[simp] theorem nil : Row L lo hi [] := ⟨nofun, .nil⟩

@[simp] theorem singleton : Row L lo hi [n] ↔ Fits L lo hi n := by simp [Row, InOrder]

theorem mono (h : Row L lo hi ns) (hlo : lo' ≤ lo) (hhi : hi ≤ hi') : Row L lo' hi' ns :=
  ⟨fun n hn => (h.1 n hn).mono hlo hhi, h.2⟩

theorem imp (hL : ∀ {id r l}, L id r l → L' id r l) (h : Row L lo hi ns) : Row L' lo hi ns :=
  ⟨fun n hn => (h.1 n hn).imp hL, h.2⟩

theorem append (h : Row L lo hi ns) (h' : Row L lo' hi' ms) (hm : hi ≤ lo') (hlo : lo ≤ lo')
    (hhi : hi ≤ hi') : Row L lo hi' (ns ++ ms) := by
  refine ⟨?_, List.pairwise_append.mpr ⟨h.2, h'.2, ?_⟩⟩
  · intro n hn
    rcases List.mem_append.mp hn with hn | hn
    · exact (h.1 n hn).mono (Nat.le_refl _) hhi
    · exact (h'.1 n hn).mono hlo (Nat.le_refl _)
  · intro m hm' n hn r hr r' hr'
    have := (h.1 m hm').range_le hr
    have := (h'.1 n hn).range_le hr'
    omega

theorem left (h : Row L lo hi (ns ++ ms)) : Row L lo hi ns :=
  ⟨fun n hn => h.1 n (List.mem_append_left _ hn), (List.pairwise_append.mp h.2).1⟩

theorem right (h : Row L lo hi (ns ++ ms)) : Row L lo hi ms :=
  ⟨fun n hn => h.1 n (List.mem_append_right _ hn), (List.pairwise_append.mp h.2).2.1⟩

theorem head (h : Row L lo hi (n :: ns)) : Row L lo hi [n] := by
  rw [← List.singleton_append] at h
  exact h.left

theorem tail (h : Row L lo hi (n :: ns)) : Row L lo hi ns := by
  rw [← List.singleton_append] at h
  exact h.right

/-- Nodes in a row may be replaced by others with the same ranges. -/
theorem map {f : Node → Node} (h : Row L lo hi ns) (hf : ∀ n ∈ ns, Fits L lo hi (f n))
    (hr : ∀ n, (f n).info.range = n.info.range) : Row L lo hi (ns.map f) := by
  refine ⟨?_, ?_⟩
  · intro n hn
    obtain ⟨m, hm, rfl⟩ := List.mem_map.mp hn
    exact hf m hm
  · refine List.pairwise_map.mpr (h.2.imp fun hmn => ?_)
    rw [hr, hr]
    exact hmn

end Row

/-- The nodes in each field are in a row. -/
def Rows (L : Siting) (lo hi : Nat) : List (String × Part Node) → Prop
  | [] => True
  | (_, .value _) :: rest => Rows L lo hi rest
  | (_, .one n) :: rest => Row L lo hi [n] ∧ Rows L lo hi rest
  | (_, .optional n) :: rest => Row L lo hi n.toList ∧ Rows L lo hi rest
  | (_, .many ns) :: rest => Row L lo hi ns ∧ Rows L lo hi rest
  | (_, .holes ns) :: rest => Row L lo hi (ns.filterMap id) ∧ Rows L lo hi rest

theorem rows_iff {ps : List (String × Part Node)} : Rows L lo hi ps ↔ ∀ p ∈ ps, Row L lo hi p.2.nodes := by
  induction ps with
  | nil => simp [Rows]
  | cons p ps ih =>
    obtain ⟨name, part⟩ := p
    cases part <;> simp [Rows, Part.nodes, ih]

theorem Fits.of_rows {info : Node.Info}
    (hr : info.range = some r) (hl : L info.id r info.location) (hp : shape.isPlaceholder = false) (h₁ : lo ≤ r.start)
    (h₂ : r.start ≤ r.stop) (h₃ : r.stop ≤ hi) (h : Rows L r.start r.stop shape.parts) :
    Fits L lo hi ⟨info, shape⟩ := by
  have hrow := rows_iff.mp h
  exact .node hr hl hp h₁ h₂ h₃ (fun p hp => (hrow p hp).1) fun p hp => (hrow p hp).2

theorem Fits.rows (h : Fits L lo hi n) : Rows L lo hi n.shape.parts := by
  cases h with
  | node _ _ _ h₁ _ h₃ hn ho => exact rows_iff.mpr fun p hp => Row.mono ⟨hn p hp, ho p hp⟩ h₁ h₃
  | placeholder _ hn ho => exact ⟨⟨hn, ho⟩, trivial⟩

theorem Row.rows (h : Row L lo hi [n]) (hn : n.shape = shape) : Rows L lo hi shape.parts := by
  subst hn
  exact (Row.singleton.mp h).rows

/-! ## Patterns -/

namespace Node

theorem range_asPattern (n : Node) : n.asPattern.info.range = n.info.range := by
  unfold asPattern
  split <;> rfl

theorem asPatterns_eq_map (ns : List (Option Node)) : asPatterns ns = ns.map (Option.map asPattern) := by
  induction ns with
  | nil => simp [asPatterns]
  | cons n ns ih => cases n <;> simp [asPatterns, ih]

theorem asPatterns_nodes (ns : List (Option Node)) :
    (asPatterns ns).filterMap id = (ns.filterMap id).map asPattern := by
  simp [asPatterns_eq_map, List.map_filterMap]

def asPatternProperty : Node → Node
  | ⟨info, .spreadElement argument⟩ =>
    ⟨{ info with cover := some .spread }, .restElement (asPattern argument)⟩
  | ⟨info, .property kind key computed value method shorthand⟩ =>
    ⟨info, .property kind key computed (asPattern value) method shorthand⟩
  | n => n

theorem range_asPatternProperty (n : Node) : n.asPatternProperty.info.range = n.info.range := by
  unfold asPatternProperty
  split <;> rfl

theorem asPatternProperties_eq_map (ns : List Node) : asPatternProperties ns = ns.map asPatternProperty := by
  induction ns with
  | nil => simp [asPatternProperties]
  | cons n ns ih =>
    unfold asPatternProperties
    split <;> simp_all [asPatternProperty]

end Node

/-- Both ways to turn a node into part of a pattern keep it in its place. They are proved together: the
values of properties are two levels below an object. -/
theorem Fits.patterns (h : Fits L lo hi n) : Fits L lo hi n.asPattern ∧ Fits L lo hi n.asPatternProperty := by
  induction h with
  | @node lo hi r info shape hr hl hp h₁ h₂ h₃ hn ho ih =>
    have hkeep := Fits.node hr hl hp h₁ h₂ h₃ hn ho
    have hrows : Rows L r.start r.stop shape.parts := rows_iff.mpr fun p hp => ⟨hn p hp, ho p hp⟩
    have hchild : ∀ n ∈ shape.children, Fits L r.start r.stop n.asPattern ∧
        Fits L r.start r.stop n.asPatternProperty := by
      intro n hm
      obtain ⟨p, hp, hm⟩ := List.mem_flatMap.mp hm
      exact ih p hp n hm
    cases shape with
    | spreadElement argument =>
      have hrest : Fits L lo hi ⟨{ info with cover := some .spread }, .restElement argument.asPattern⟩ :=
        .of_rows hr hl rfl h₁ h₂ h₃ ⟨Row.singleton.mpr (hchild argument (List.mem_cons_self ..)).1, trivial⟩
      exact ⟨hrest, hrest⟩
    | arrayExpression elements =>
      refine ⟨.of_rows hr hl rfl h₁ h₂ h₃ ⟨?_, trivial⟩, hkeep⟩
      rw [Node.asPatterns_nodes]
      exact hrows.1.map (fun n hm => (hchild n (List.mem_append_left _ hm)).1) Node.range_asPattern
    | objectExpression properties =>
      refine ⟨.of_rows hr hl rfl h₁ h₂ h₃ ⟨?_, trivial⟩, hkeep⟩
      rw [Node.asPatternProperties_eq_map]
      exact hrows.1.map (fun n hm => (hchild n (List.mem_append_left _ hm)).2) Node.range_asPatternProperty
    | assignmentExpression operator left right =>
      have hleft := (hchild left (List.mem_cons_self ..)).1
      exact ⟨.of_rows hr hl rfl h₁ h₂ h₃ ⟨Row.singleton.mpr hleft, hrows.2⟩, hkeep⟩
    | property kind key computed value =>
      have hvalue := (hchild value (List.mem_cons_of_mem _ (List.mem_cons_self ..))).1
      exact ⟨hkeep, .of_rows hr hl rfl h₁ h₂ h₃ ⟨hrows.1, Row.singleton.mpr hvalue, trivial⟩⟩
    | _ => exact ⟨hkeep, hkeep⟩
  | placeholder hr hn ho ih => exact ⟨.placeholder hr hn ho, .placeholder hr hn ho⟩

theorem Row.asPatterns {ns : List Node} (h : Row L lo hi ns) : Row L lo hi (ns.map Node.asPattern) :=
  h.map (fun n hn => (h.1 n hn).patterns.1) Node.range_asPattern

namespace Node

variable {β : Type} (f : Info → Shape β → β)

@[simp] theorem foldList_eq_map (ns : List Node) : foldList f ns = ns.map (fold f) := by
  induction ns with
  | nil => simp [foldList]
  | cons n ns ih => simp [foldList, ih]

@[simp] theorem foldOption_eq_map (n : Option Node) : foldOption f n = n.map (fold f) := by
  cases n <;> simp [foldOption]

@[simp] theorem foldHoles_eq_map (ns : List (Option Node)) :
    foldHoles f ns = ns.map (Option.map (fold f)) := by
  induction ns with
  | nil => simp [foldHoles]
  | cons n ns ih => simp [foldHoles, ih]

/-- A field with the results of its nodes. -/
def foldPart : Part Node → Part β
  | .value v => .value v
  | .one n => .one (fold f n)
  | .optional n => .optional (foldOption f n)
  | .many ns => .many (foldList f ns)
  | .holes ns => .holes (foldHoles f ns)

theorem nodes_foldPart (p : Part Node) : (foldPart f p).nodes = p.nodes.map (fold f) := by
  cases p with
  | value | one => rfl
  | optional n => cases n <;> simp [foldPart, Part.nodes]
  | many ns => simp [foldPart, Part.nodes]
  | holes ns =>
    simp only [foldPart, Part.nodes, foldHoles_eq_map]
    induction ns with
    | nil => rfl
    | cons n ns ih =>
      cases n with
      | none => exact ih
      | some n => exact congrArg (fold f n :: ·) ih

theorem parts_foldShape (s : Shape Node) : (foldShape f s).parts = s.parts.map fun p => (p.1, foldPart f p.2) := by
  cases s with
  | functionDeclaration kind | functionExpression kind => cases kind <;> rfl
  | _ => rfl

theorem isPlaceholder_foldShape (s : Shape Node) : (foldShape f s).isPlaceholder = s.isPlaceholder := by
  cases s <;> rfl

theorem range_annotate (remarks : Nat → Remarks) (n : Node) : (n.annotate remarks).info.range = n.info.range := by
  cases n
  rfl

end Node

/-- Comments beside nodes do not move them. -/
theorem Fits.annotate (remarks : Nat → Remarks) (h : Fits L lo hi n) : Fits L lo hi (n.annotate remarks) := by
  induction h with
  | node hr hl hp h₁ h₂ h₃ hn ho ih =>
    refine .of_rows hr hl ?_ h₁ h₂ h₃ ?_
    · rw [Node.isPlaceholder_foldShape, hp]
    · refine rows_iff.mpr fun p hp => ?_
      rw [Node.parts_foldShape] at hp
      obtain ⟨q, hq, rfl⟩ := List.mem_map.mp hp
      rw [Node.nodes_foldPart]
      exact Row.map ⟨hn q hq, ho q hq⟩ (ih q hq) (Node.range_annotate remarks)
  | @placeholder lo hi info isAsync params hr hn ho ih =>
    have hrow := Row.map ⟨hn, ho⟩ ih (Node.range_annotate remarks)
    refine .placeholder hr ?_ ?_
    · rw [Node.foldList_eq_map]
      exact hrow.1
    · rw [Node.foldList_eq_map]
      exact hrow.2

namespace Parts

attribute [scoped simp] Shape.children Shape.parts Part.nodes Part.text Part.flag Part.word

end Parts

theorem Part.sizeOf_node {p : Part Node} (h : c ∈ p.nodes) : sizeOf c < sizeOf p := by
  cases p with
  | value => cases h
  | one => simp [List.mem_singleton.mp h]
  | optional o =>
    obtain rfl := Option.mem_toList.mp h
    simp
    omega
  | many ns =>
    have := List.sizeOf_lt_of_mem (show c ∈ ns from h)
    simp
    omega
  | holes ns =>
    have := List.sizeOf_lt_of_mem (show some c ∈ ns by simpa [Part.nodes] using h)
    simp at this ⊢
    omega

theorem Shape.sizeOf_child (h : c ∈ shape.children) : sizeOf c < sizeOf shape := by
  obtain ⟨p, hp, hc⟩ := List.mem_flatMap.mp h
  refine Nat.lt_of_lt_of_le (Part.sizeOf_node hc) ?_
  replace hc := List.ne_nil_of_mem hc
  revert p
  cases shape with
  | functionDeclaration kind | functionExpression kind =>
    cases kind <;> simp [Shape.parts, Shape.functionParts, Part.nodes, Part.flag] <;> omega
  | _ => simp [Shape.parts, Shape.classParts, Part.nodes, Part.word, Part.text, Part.flag] <;> omega

/-- What passes from the nodes in a node to the node holds of all nodes. -/
theorem Node.induction {P : Node → Prop} (h : ∀ info shape, (∀ c ∈ shape.children, P c) → P ⟨info, shape⟩)
    (n : Node) : P n := by
  induction hn : sizeOf n using Nat.strongRecOn generalizing n with
  | ind k ih =>
    obtain ⟨info, shape⟩ := n
    refine h info shape fun c hc => ih _ ?_ c rfl
    have := Shape.sizeOf_child hc
    rw [← hn, Node.mk.sizeOf_spec]
    omega

end ScriptTree
