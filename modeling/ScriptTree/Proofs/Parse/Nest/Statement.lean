import ScriptTree.Proofs.Parse.Nest.Object

/-! # Statements read nodes -/

namespace ScriptTree.Parse

variable {env : Env} [Ranged env] {g : Grammar} [Parses env g]

instance : Held LoopHead :=
  ⟨fun
    | .steps init test update => init.toList ++ test.toList ++ update.toList
    | .over _ left right => [left, right]⟩

@[simp] theorem nodes_steps (init test update : Option Node) :
    Held.nodes (LoopHead.steps init test update) = init.toList ++ test.toList ++ update.toList := rfl
@[simp] theorem nodes_over (isOf : Bool) (left right : Node) :
    Held.nodes (LoopHead.over isOf left right) = [left, right] := rfl

namespace Reads

instance : Reads env (block g) := .routine

instance (kind : DeclarationKind) (inFor : Bool) : Reads env (lexicalBinding g kind inFor) := .routine

instance (item : Parse Node) [Reads env item] [Steps false item] : Reads env (separated item) := by
  refine ⟨fun lo => .first fun first => ?_⟩
  let I (found : List Node) := Holds env lo [first :: found.reverse]
  refine .loops (Q := I) I (fun _ h => h) (fun _ => .keeps fun _ => ?_) fun _ => .result
  refine .fork ?_ .pure
  refine .past <| .follows fun _ => .pure fun _ h => ?_
  simpa [I] using h

instance : Reads env (lexicalDeclaration g) := .routine

instance (inFor : Bool) : Reads env (variableBinding g inFor) := .routine

instance : Reads env (variableStatement g) := .routine

instance : Reads env emptyStatement := .routine

instance : Reads env (expressionStatement g) := .routine

instance : Reads env (branch g) := .routine

instance : Reads env (ifStatement g) := by
  refine ⟨fun _ => .opens fun hm _ => .past <| .reads fun _test => ?_⟩
  have : Reads env (do
      let consequent ← branch g
      if ← seesWord "else" then
        skip
        return (consequent, some (← branch g))
      else return (consequent, none)) := by
    refine ⟨fun _ => .first fun _consequent => .past <| .fork ?_ .result⟩
    exact .past <| .follows fun _alternate => .result
  refine .reads fun (_, _) => ?_
  exact .finish hm fun ⟨h, htest, _⟩ => ⟨htest, h.head, h.tail, trivial⟩

instance : Reads env (doWhileStatement g) := .routine

instance : Reads env (whileStatement g) := .routine

section

variable {lo : Nat} {gs : List (List Node)}

theorem loopSteps_follows (init : Option Node) :
    Leads env (Holds env lo (init.toList :: gs)) (loopSteps g init) (Yields env lo) := by
  refine .keeps fun _ => ?_
  extract_lets rest
  have hrest test : Leads env (Holds env lo ((init.toList ++ Held.nodes test) :: gs)) (rest test) (Yields env lo) := by
    refine .past <| .past <| .fork ?_ ?_
    · exact .pure_bind <| .followsNone .result
    · exact .follows fun _update => .result
  exact .fork (.pure_bind (.followsNone (hrest none))) <| .follows hrest

theorem loopIn_follows (left : Node) : Leads env (Holds env lo ([left] :: gs)) (loopIn g left) (Yields env lo) :=
  .past <| .follows fun _right => .result

theorem loopOf_follows (left : Node) : Leads env (Holds env lo ([left] :: gs)) (loopOf g left) (Yields env lo) :=
  .past <| .follows fun _right => .result

end

instance : Reads env (loopVar g) := by
  refine ⟨fun _ => .opens fun hm _ => .reads fun _declarations => .keeps fun _ => ?_⟩
  refine .fork ?_ <| .past <| .fork ?_ ?_
  · exact .past <| .when <| .finishes hm id loopIn_follows
  · exact .finishes hm id loopOf_follows
  · exact .finishes hm id fun init => .past <| loopSteps_follows (some init)

instance (kind : DeclarationKind) : Reads env (loopLexical g kind) := by
  refine ⟨fun _ => .opens fun hm _ => .past <| .past <| .fork ?_ ?_⟩
  · -- the word is the name of a variable
    exact .finishes hm (fun _ => trivial) loopIn_follows
  refine .reads fun _declarations => .past <| .fork ?_ ?_
  · exact .finishes hm id loopIn_follows
  refine .past <| .fork ?_ ?_
  · exact .finishes hm id loopOf_follows
  · exact .past <| .finishes hm id fun init => loopSteps_follows (some init)

instance : Reads env (loopExpression g) := by
  refine ⟨fun lo => .token fun _ ht => .first fun init => .past <| .past <| .fork ?_ ?_⟩
  · exact .when <| (loopIn_follows init.asPattern).imp fun h => ⟨h.1.asPatterns, h.2⟩
  refine .past <| .fork ?_ ?_
  · exact .when <| (loopOf_follows init.asPattern).imp fun h => ⟨h.1.asPatterns, h.2⟩
  refine .keeps fun _ => ?_
  extract_lets rest
  have hrest : ∀ gs n, Leads env (Holds env lo ([n] :: gs)) (rest n) (Yields env lo) :=
    fun _ n => .past <| loopSteps_follows (some n)
  refine .fork ?_ <| .pure_bind (hrest _ _)
  let I (found : List Node) := Holds env lo [init :: found.reverse]
  refine .loops (Q := I) I (fun _ h => h) (fun _ => .keeps fun _ => ?_) fun _ => .finishes (ht 0) id (hrest _)
  refine .fork ?_ .pure
  refine .past <| .follows fun _ => .pure fun _ h => ?_
  simpa [I] using h

instance : Reads env (loopHead g) := by
  refine ⟨fun lo => .past <| .fork (.takes fun _ => .empty (loopSteps_follows none)) ?_⟩
  refine .fork (leads lo) ?_
  split <;> exact leads lo

instance : Reads env (forStatement g) := by
  refine ⟨fun _ => .opens fun hm _ => .past <| .reads fun head => .reads fun _body => ?_⟩
  match head with
  | .steps .. => exact .finish hm fun ⟨hbody, h, _⟩ => ⟨h.left.left, h.left.right, h.right, hbody, trivial⟩
  | .over false .. | .over true .. => exact .finish hm fun ⟨hbody, h, _⟩ => ⟨h.head, h.tail, hbody, trivial⟩

theorem jumpLabel_reads {lo : Nat} {gs : List (List Node)} :
    Leads env (Holds env lo gs) jumpLabel fun label => Holds env lo (Held.nodes label :: gs) := by
  refine .past <| .past <| .fork ?_ ?_
  · exact .reads fun _label => .past <| .guard .pure
  · exact .empty .pure

instance : Reads env continueStatement := by
  refine ⟨fun _ => .opens fun hm _ => .bind jumpLabel_reads fun _label => ?_⟩
  exact .past <| .past <| .when <| .finish hm id

instance : Reads env breakStatement := by
  refine ⟨fun _ => .opens fun hm _ => .bind jumpLabel_reads fun _label => ?_⟩
  exact .past <| .past <| .when <| .finish hm id

instance : Reads env (returnStatement g) := .routine

instance : Reads env (throwStatement g) := .routine

instance : Reads env (withStatement g) := .routine

instance : Reads env (switchCase g) := .routine

instance : Reads env (switchStatement g) := by
  refine ⟨fun lo => .opens fun hm _ => .past <| .reads fun discriminant => ?_⟩
  refine .past <| .past <| .past <| .past <| .empty ?_
  let I (found : List Node) := Holds env lo [found.reverse, [discriminant]]
  refine .loops (Q := I) (fun x => I x.1) (fun _ h => h) (fun (_, _) => .keeps fun _ => ?_)
    fun _ => .past <| .keeps fun _ => ?_
  · refine .fork .pure <| .follows fun (_, _) => .when <| .pure fun _ h => ?_
    simpa [I] using h
  · exact .finish hm fun ⟨hcases, hdiscriminant, _⟩ => ⟨hdiscriminant, hcases, trivial⟩

instance : Reads env (labelledBody g) := .routine

instance : Reads env (labelledStatement g) := .routine

instance : Reads env (catchClause g) := .routine

instance : Reads env (tryStatement g) := .routine

instance : Reads env debuggerStatement := .routine

instance (word : String) : Reads env (wordStatement g word) := by
  unfold wordStatement
  split <;> infer_instance

instance : Reads env (statement g) := .routine

end Reads

end ScriptTree.Parse
