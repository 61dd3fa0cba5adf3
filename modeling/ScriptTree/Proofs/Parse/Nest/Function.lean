import ScriptTree.Proofs.Parse.Reads

/-! # Names, patterns and functions read nodes

One instance of `Reads` for each rule, over a grammar whose members are known to read nodes (`Parses`). -/

namespace ScriptTree.Parse

/-- The members of the grammar read nodes. -/
class Parses (env : Env) (g : Grammar) : Prop extends Regular g where
  readsAssignment : Reads env g.assignment
  readsUnary : Reads env g.unary
  readsPower : Reads env g.power
  readsCall : Reads env g.call
  readsCallee : Reads env g.callee
  readsPattern : ∀ kind, Reads env (g.pattern kind)
  readsStatement : Reads env g.statement
  readsItem : Reads env g.item

attribute [instance] Parses.readsAssignment Parses.readsUnary Parses.readsPower Parses.readsCall
  Parses.readsCallee Parses.readsPattern Parses.readsStatement Parses.readsItem

variable {env : Env} [Ranged env] {g : Grammar} [Parses env g]

namespace Reads

variable {gs : List (List Node)} {lo : Nat}

instance : Reads env anyName := .routine

instance (kind : Option DeclarationKind) : Reads env (bindingName kind) := .routine

instance : Reads env (propertyKey g) := .routine

instance : Reads env (expression g) := by
  refine ⟨fun lo => .token fun _ ht => .first fun first => .past <| .fork ?_ .result⟩
  -- the further expressions of a sequence are found in reverse
  let I (found : List Node) := Holds env lo [first :: found.reverse]
  refine .loops (Q := I) I (fun _ h => h) (fun _ => .keeps fun _ => ?_) fun _ => .finish (ht 0) id
  refine .fork .pure <| .past <| .follows fun _ => .pure fun _ h => ?_
  simpa [I] using h

section

variable (kind : Option DeclarationKind)

instance : Reads env (patternWithDefault g kind) := .routine

instance : Reads env (bindingRest g kind) := .routine

instance : Reads env (arrayPattern g kind) := by
  refine ⟨fun lo => .opens fun hm _ => ?_⟩
  let I (x : List (Option Node) × List Token) := Holds env lo [x.1.reverse.filterMap id]
  refine .loops (Q := I) I (fun _ h => h.imp fun h => ⟨.nil, h⟩) (fun (_, _) => .keeps fun _ => ?_)
    fun (_, _) => .past <| .finishes hm id fun _ => .result
  refine .fork .pure <| .past <| .fork ?_ <| .past <| .fork ?_ ?_
  · -- a hole
    refine .past <| .pure fun _ h => ?_
    simpa [I] using h
  · refine .follows fun (_, _) => .pure fun _ h => ?_
    simpa [I] using h
  · refine .follows fun (_, _) => .past <| .pastUnless <| .pure fun _ h => ?_
    simpa [I] using h

instance : Reads env (propertyPattern g kind) := .routine

instance : Reads env (restProperty g) := .routine

instance : Reads env (objectPattern g kind) := by
  refine ⟨fun _ => .opens fun hm _ => .collects ⟨fun _ => ?_⟩ fun items => .keeps fun _ => ?_⟩
  · refine .past <| .fork ?_ ?_
    · exact .first fun _ => .past <| .pastUnless .result
    · exact .first fun _ => .past <| .pastUnless .result
  · refine .finishes hm (fun h => ?_) fun _ => .result
    exact flatMap_nodes_pair nodes_tokens items ▸ h

instance : Reads env (pattern g kind) := .routine

end

instance : Held Parameters := ⟨Parameters.params⟩
instance : Held FunctionName := ⟨fun name => name.id.toList⟩

@[simp] theorem nodes_parameters (p : Parameters) : Held.nodes p = p.params := rfl
@[simp] theorem nodes_functionName (name : FunctionName) : Held.nodes name = name.id.toList := rfl

instance : Reads env (restParameter g) := .routine

theorem parameter_follows (p : Parameters) :
    Leads env (Holds env lo (p.params :: gs)) (parameter g p) fun p' => Holds env lo (p'.params :: gs) := by
  refine .keeps fun _ => ?_
  extract_lets rest
  have hrest : ∀ x, Leads env (Holds env lo ((p.params ++ Held.nodes x) :: gs)) (rest x)
      fun p' => Holds env lo (p'.params :: gs) := by
    intro (n, names)
    refine .keeps fun c => .pure fun _ h => ?_
    simpa [Parameters.push, Parameters.params_foldl_bind] using h
  exact .fork (.follows hrest) <| .follows hrest

instance (o : Option Offender) : Reads env (parameters g o) := by
  refine ⟨fun lo => .takes fun _ => .empty <| .keeps fun _ => ?_⟩
  extract_lets rest
  let I (p : Parameters) := Holds env lo [p.params]
  have hrest : ∀ p, Leads env (I p) (rest p) I := fun _ => .past .pure
  refine .fork (.pure_bind (hrest { restricted := o })) ?_
  refine .loops (Q := I) I (fun _ h => h) (fun p => .keeps fun _ => ?_) hrest
  refine .fork .pure <| .bind (parameter_follows p) fun _ => .keeps fun _ => ?_
  refine .fork .pure <| .past <| .keeps fun _ => ?_
  exact .fork .pure .pure

instance : Reads env (directive g) := .routine
theorem prologue_collects {J : List Node → State → Prop} (hJ : Collects env J) : Leads env (J []) (prologue g) J := by
  let I (x : List Node × Option Token) := J x.1.reverse
  refine .loops (Q := fun found => J found.reverse) I (fun _ h => h) (fun x => ?_) fun _ => .pure
  obtain ⟨found, octal⟩ := x
  have hpush {n s} : J (found.reverse ++ Held.nodes n) s → J (n :: found).reverse s := by
    intro h
    rwa [List.reverse_cons]
  refine .bind hJ.quiet fun _ => ?_
  split
  · refine .bind hJ.reads fun n => ?_
    split
    · refine .fork (.bind hJ.quiet fun _ => ?_) <| .pure fun _ h => hpush h
      split
      · exact .fails_bind
      · exact .bind hJ.quiet fun _ => .when <| .pure fun _ h => hpush h
    · -- a first statement that only looks like a directive
      exact .pure fun _ h => hpush h
  · exact .pure

instance : Reads env (functionBody g) := by
  refine ⟨fun _ => .opens fun hm _ => .empty ?_⟩
  refine .bind (prologue_collects Holds.collects) fun _directives => .past <| .keeps fun _ => ?_
  refine .bind (Holds.collects.until' inferInstance) fun items => .past <| .keeps fun _ => ?_
  exact .finish hm fun h => flatMap_nodes items ▸ h

theorem checkFunctionName_keeps (id : Node) (t : Token) : Leads env (Holds env lo ([id] :: gs)) (checkFunctionName id t)
      fun name => Holds env lo (Held.nodes name :: gs) := by
  refine .past <| .fork (.when .pure) ?_
  refine .fork .pure ?_
  exact .fork .pure .pure

instance (name : FunctionName) : Reads env (functionTail g name) := by
  refine ⟨fun lo => .first fun p => .past <| .past <| .follows fun body => .keeps fun _ => ?_⟩
  extract_lets rest stricted
  have hrest : Leads env (Holds env lo [Held.nodes p ++ [body]]) (rest ()) (Yields env lo) := .past .result
  refine .fork ?_ hrest
  split
  · exact .fails_bind
  · dsimp only [stricted]
    split
    · exact .fails_bind
    · exact hrest

instance : Takes env functionHead := by
  refine ⟨fun _ => .past <| .fork ?_ ?_⟩
  · exact .takes fun _ => Keeps.leads
  · exact .takes fun _ => Keeps.leads

theorem rows_function {L : Siting} {hi : Nat} {kind : FunctionKind} {id : Option Node}
    {params : List Node} {body : Node} (hid : Row L lo hi id.toList) (h : Row L lo hi (params ++ [body])) :
    Rows L lo hi (Shape.functionParts kind id params body) := by
  cases kind <;> exact ⟨hid, h.left, h.right, trivial⟩

instance (nameIsOptional : Bool) : Reads env (functionDeclaration g nameIsOptional) := by
  refine ⟨fun lo => .opens fun hm _ => .keeps fun _ => ?_⟩
  extract_lets rest
  have hrest name : Leads env (Holds env lo [Held.nodes name]) (rest name) (Yields env lo) := by
    refine .past <| .past <| .reads fun (_, _) => .keeps fun _ => ?_
    exact .finish hm fun ⟨h, hid, _⟩ => rows_function hid h
  refine .fork (.pure_bind (.empty (hrest {}))) <| .keeps fun t => .reads fun id => ?_
  exact .bind (checkFunctionName_keeps id t) hrest

instance : Reads env (functionExpression g) := by
  refine ⟨fun lo => .opens fun hm _ => .past <| .past <| .keeps fun _ => ?_⟩
  extract_lets rest
  have hrest name : Leads env (Holds env lo [Held.nodes name]) (rest name) (Yields env lo) := by
    refine .reads fun (_, _) => .keeps fun _ => ?_
    exact .finish hm fun ⟨h, hid, _⟩ => rows_function hid h
  refine .fork (.pure_bind (.empty (hrest {}))) <| .keeps fun t => .keeps fun _ => ?_
  refine .fork (.reads fun id => ?_) <| .reads fun id => ?_
  · exact .bind (checkFunctionName_keeps id t) hrest
  · exact .bind (checkFunctionName_keeps id t) hrest

instance (p : Parameters) : Reads env (methodBody g p) := .routine

instance : Reads env (plainMethod g) := .routine

instance : Reads env (asyncMethod g) := .routine

instance : Reads env (getter g) := .routine

instance : Reads env (setter g) := .routine

instance : Reads env (generatorMethod g) := .routine

end Reads

end ScriptTree.Parse
