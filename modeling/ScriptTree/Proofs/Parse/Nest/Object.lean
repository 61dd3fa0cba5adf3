import ScriptTree.Proofs.Parse.Nest.Function

/-! # Classes, arrays and objects read nodes -/

namespace ScriptTree.Parse

variable {computed : Bool} {key : Node} {env : Env} [Ranged env] {g : Grammar} [Parses env g]

instance : Held MemberHead := ⟨fun head => head.key.toList⟩

instance : Held PropertyHead := ⟨fun head => head.key.toList⟩

@[simp] theorem nodes_memberHead (head : MemberHead) : Held.nodes head = head.key.toList := rfl
@[simp] theorem nodes_propertyHead (head : PropertyHead) : Held.nodes head = head.key.toList := rfl

/-- The key of a member and its value. -/
instance : Held (Option (Node × Bool × MemberValue)) :=
  ⟨fun
    | some (key, _, .method _ value) => [key, value]
    | some (key, _, .field value) => key :: value.toList
    | none => []⟩

@[simp] theorem nodes_noMember : Held.nodes (none : Option (Node × Bool × MemberValue)) = [] := rfl
@[simp] theorem nodes_method {value : Node} {kind : MethodKind} :
    Held.nodes (some (key, computed, MemberValue.method kind value)) = [key, value] := rfl
@[simp] theorem nodes_field {value : Option Node} :
    Held.nodes (some (key, computed, MemberValue.field value)) = key :: value.toList := rfl

namespace Reads

variable {lo : Nat} {m : Mark}

/-! ## Members of classes -/

theorem staticHead_keeps (head : MemberHead) (key : Node) :
    Leads env (Holds env lo [[key]]) (staticHead g head key) (Yields env lo) := .reading

theorem asyncHead_keeps (head : MemberHead) :
    Leads env (Holds env lo [Held.nodes head]) (asyncHead g head) (Yields env lo) := .reading

instance : Reads env (memberHead g) := by
  refine ⟨fun _ => .past <| .past <| .fork ?_ ?_⟩
  · exact .takes fun _ => .done fun _ => .nil
  · refine .past <| .first fun key => ?_
    exact .bind (staticHead_keeps _ key) asyncHead_keeps

theorem memberValue_follows (m : Mark) (head : MemberHead) :
    Leads env (Holds env lo [Held.nodes head]) (memberValue g m head) (Yields env lo) := by
  obtain ⟨key, token, computed, isStatic, isAsync⟩ := head
  refine .keeps fun _ => ?_
  extract_lets keyAhead method field
  have hmethod : Leads env (Holds env lo [key.toList]) method (Yields env lo) := by
    cases key with
    | none => exact .done fun _ => .nil
    | some key =>
      refine .past <| .fork ?_ <| .done fun _ => .nil
      refine .fork ?_ ?_
      · exact .follows fun _value => .result
      · exact .follows fun _value => .result
  have hfield value : Leads env (Holds env lo [key.toList ++ Held.nodes value]) (field value) (Yields env lo) := by
    cases key with
    | none => exact .done fun _ => .nil
    | some key => exact .result
  split
  · refine .fork ?_ <| .fork ?_ <| .past <| .past <| .fork (.past <| .keeps fun _ => ?_) hmethod
    · -- what has been taken for the key is the word of the accessor
      exact .past <| .reads fun _key => .past <| .follows fun _value => .result
    · exact .past <| .reads fun _key => .follows fun _value => .result
    · refine .fork (.past <| .follows hfield) ?_
      exact .pure_bind (.followsNone (hfield none))
  · refine .fork ?_ hmethod
    exact .past <| .reads fun _key => .follows fun _value => .result
  · exact hmethod

instance (hasConstructor : Bool) : Reads env (classMember g hasConstructor) := by
  refine ⟨fun lo => .mark fun m hm => .first fun head => .bind (memberValue_follows m head) ?_⟩
  intro value
  match value with
  | none => exact .fails
  | some (key, computed, .method kind value) =>
    have hfinish {kind : MethodKind} {has : Bool} : Leads env (Holds env lo [[key, value]])
        (do return (← finish m (.methodDefinition key computed value kind head.isStatic), has))
        (Yields env lo) :=
      .finishes hm (fun h => ⟨h.1.head, h.1.tail, trivial⟩) fun _ => .result
    exact .when <| .fork (.when (.when hfinish)) hfinish
  | some (key, computed, .field value) =>
    refine .when <| .when ?_
    exact .finishes hm (fun h => ⟨h.1.head, h.1.tail, trivial⟩) fun _ => .result

instance : Reads env (classBody g) := by
  refine ⟨fun lo => .opens fun hm _ => ?_⟩
  let I (found : List Node) := Holds env lo [found.reverse]
  refine .loops (Q := I) (fun x => I x.1) (fun _ h => h.imp fun h => ⟨.nil, h⟩)
    (fun (found, has) => .keeps fun _ => ?_) fun _ => .past <| .finish hm id
  refine .fork .pure <| .past <| .fork ?_ ?_
  · exact .past .pure
  · refine .follows fun (_, _) => .pure fun _ h => ?_
    simpa [I] using h

instance : Reads env (classTail g) := by
  refine ⟨fun _ => .past <| .fork ?_ ?_⟩
  · exact .takes fun _ => .reads fun _superClass => .follows fun _body => .result
  · exact .pure_bind <| .first fun _body => .result

instance (nameIsOptional : Bool) : Reads env (classDeclaration g nameIsOptional) := .routine

instance : Reads env (classExpression g) := .routine

instance : Reads env (spread g) := .routine

set_option synthInstance.maxSize 1000 in
instance : Reads env (arrayLiteral g) := by
  refine ⟨fun _ => .opens fun hm _ => .collects ⟨fun _ => .reading⟩ fun items => .keeps fun _ => ?_⟩
  exact .finish hm fun h => ⟨flatMap_nodes_option items ▸ h.1, trivial⟩

theorem propertyHead_reads (hm : Starts env lo m) (t : Token) :
    Leads env (At env lo) (propertyHead g m t) (Yields env lo) := by
  unfold propertyHead
  split <;> exact .reading

theorem propertyValue_follows {hasProto : Bool} {t : Token} {head : PropertyHead} (hm : Starts env lo m) :
    Leads env (Holds env lo [[key]]) (propertyValue g hasProto m t key head) (Yields env lo) := .reading

instance (hasProto : Bool) : Reads env (property g hasProto) := by
  refine ⟨fun lo => .mark fun m hm => .keeps fun t => .bind (propertyHead_reads hm t) fun head => .keeps fun _ => ?_⟩
  refine .fork .reading <| .fork .reading <| .fork .reading ?_
  obtain ⟨key, computed, isAsync⟩ := head
  cases key with
  | none => exact .fails
  | some key => exact propertyValue_follows hm

instance : Reads env (objectLiteral g) := by
  refine ⟨fun lo => .opens fun hm _ => ?_⟩
  let I (found : List Node) := Holds env lo [found.reverse]
  refine .loops (Q := I) (fun x => I x.1) (fun _ h => h.imp fun h => ⟨.nil, h⟩)
    (fun (found, has) => .keeps fun _ => ?_) fun _ => .past <| .finish hm id
  refine .fork .pure <| .past <| .fork ?_ ?_
  · refine .follows fun _ => .pure_bind <| .past <| .pastUnless <| .pure fun _ h => ?_
    simpa [I] using h
  · refine .follows fun (_, _) => .past <| .pastUnless <| .pure fun _ h => ?_
    simpa [I] using h

end Reads

end ScriptTree.Parse
