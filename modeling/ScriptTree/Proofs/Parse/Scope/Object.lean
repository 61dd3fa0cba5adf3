import ScriptTree.Proofs.Parse.Context.Object
import ScriptTree.Proofs.Parse.Nest.Object
import ScriptTree.Proofs.Parse.Scope.Function

/-! # Arrays, objects and classes in their scope

In a class the code is strict from its first word on, and after it as it was before. -/

namespace ScriptTree.Parse

open Parts

variable {env : Env} [Exact env] {g : Grammar} [Scoping env g] {strict : Bool}

namespace Expresses

instance : Expresses env (spread g) := .routine

instance : Expresses env (arrayLiteral g) := by
  refine ⟨fun _ => .past <| .past <| .items ⟨fun _ => .expressing⟩ fun elements => .past <| .joined fun h => ?_⟩
  rw [flatMap_nodes_option] at h
  simpa using h

instance (start : Mark) (t : Token) : Expresses env (propertyHead g start t) := by
  refine ⟨fun strict => ?_⟩
  unfold propertyHead
  split <;> exact .expressing

instance (hasProto : Bool) (start : Mark) (t : Token) (key : Node) (head : PropertyHead) :
    Continues env [key] (propertyValue g hasProto start t key head) := .routine

instance (hasProto : Bool) : Expresses env (property g hasProto) := .routine

instance : Expresses env (objectLiteral g) := .routine

instance (head : MemberHead) (key : Node) : Continues env [key] (staticHead g head key) := .routine

instance (head : MemberHead) : Continues env head.key.toList (asyncHead g head) := .routine

instance : Expresses env (memberHead g) := .routine

instance (m : Mark) (head : MemberHead) : Continues env head.key.toList (memberValue g m head) := .routine

instance (hasConstructor : Bool) : Expresses env (classMember g hasConstructor) := .routine

instance : Expresses env (classBody g) := .routine

instance : Expresses env (classTail g) := .routine

instance (nameIsOptional : Bool) : Expresses env (classDeclaration g nameIsOptional) := by
  refine ⟨fun strict => ?_⟩
  refine .keeps fun start => .recalls fun before hb => .becomes (fun _ => rfl) fun _ => .past <| .keeps fun _ => ?_
  extract_lets rest
  have hrest (id : Option Node) : Leads env (Code true (Held.nodes id)) (rest id) (Coded strict) := by
    refine .hears fun (parent, body) => .becomes (fun _ => hb) fun h => .formed fun _ _ => (Fine.classes ?_).1
    simpa [and_assoc] using h
  exact .fork (.pure_bind (hrest none)) <| .hears hrest

instance : Expresses env (classExpression g) := by
  refine ⟨fun strict => ?_⟩
  refine .keeps fun start => .recalls fun before hb => .becomes (fun _ => rfl) fun _ => .past <| .keeps fun _ => ?_
  extract_lets rest
  have hrest (id : Option Node) : Leads env (Code true (Held.nodes id)) (rest id) (Coded strict) := by
    refine .hears fun (parent, body) => .becomes (fun _ => hb) fun h => .formed fun _ _ => (Fine.classes ?_).2
    simpa [and_assoc] using h
  exact .fork (.hears hrest) <| .pure_bind (hrest none)

end Expresses

end ScriptTree.Parse
