import ScriptTree.Proofs.Parse.Mirror.Function

/-! # Arrays, objects and classes on both sides -/

namespace ScriptTree.Parse

variable {K : Comparison} [K.Lawful] {g : Grammar} [Mirroring K g]
variable (head : MemberHead) (start : Mark)

/-! ## Arrays -/

instance : Mirrored K (spread g) := .routine

instance : Mirrored K (arrayLiteral g) := .routine

instance : Relabels PropertyHead :=
  ⟨fun r head => { head with key := relabel r head.key }, fun head => by rw [relabel_id]⟩

instance (t : Token) : Mirrored K (propertyHead g start t) := by
  unfold propertyHead
  exact .routine

instance (hasProto : Bool) (t : Token) (key : Node) (head : PropertyHead) :
    Mirrors K (propertyValue g hasProto start t key head)
      (propertyValue g hasProto start t (relabel K.labels key) (relabel K.labels head)) := by
  unfold propertyValue
  rw [relabel_node, isKey_relabel]
  refine .past <| .ite ?_ (.past <| .ite ?_ ?_)
  · refine .guard fun _ => .past <| .bind fun value => ?_
    exact .routine
  · exact .either inferInstance inferInstance fun value => .builds rfl fun _ => .pure
  · exact .routine

instance (hasProto : Bool) : Mirrored K (property g hasProto) := by
  refine .step fun start => .step fun t => .bind fun ⟨key, computed, isAsync⟩ => .step fun l => ?_
  refine .ite ?_ (.ite ?_ (.ite ?_ ?_))
  · exact .routine
  · exact .routine
  · exact .routine
  · cases key with
    | none => exact inferInstanceAs (Mirrors K (rejectAhead : Parse (Node × Bool)) rejectAhead)
    | some key =>
      exact inferInstanceAs (Mirrors K (propertyValue g hasProto start t key ⟨some key, computed, isAsync⟩)
        (propertyValue g hasProto start t (relabel K.labels key) (relabel K.labels ⟨some key, computed, isAsync⟩)))

instance : Mirrored K (objectLiteral g) := .routine

instance : Relabels MemberHead :=
  ⟨fun r head => { head with key := relabel r head.key }, fun head => by rw [relabel_id]⟩

instance : Mirrors K (asyncHead g head) (asyncHead g (relabel K.labels head)) := by
  refine .step fun l => .get fun s c => .ite ?_ (.pure)
  exact .routine

instance : Mirrored K (memberHead g) := .routine

instance : Relabels MemberValue where
  relabel r
    | .method kind value => .method kind (r value)
    | .field value => .field (relabel r value)
  relabel_id value := by
    cases value with
    | method => rfl
    | field => exact congrArg MemberValue.field (relabel_id _)

instance :
    Mirrors K (memberValue g start head) (memberValue g start (relabel K.labels head)) := by
  refine .step fun l => ?_
  extract_lets keyAhead method rest method' rest'
  have hmethod : Mirrors K method method' := by
    obtain ⟨key, token, computed, isStatic, isAsync⟩ := head
    cases key with
    | none => exact .pure
    | some key =>
      refine .past <| .ite ?_ (.pure)
      exact .either inferInstance inferInstance fun value => .pure
  have hrest (value : Option Node) : Mirrors K (rest value) (rest' (relabel K.labels value)) := by
    obtain ⟨key, token, computed, isStatic, isAsync⟩ := head
    cases key with
    | none => exact .pure
    | some key => exact .pure
  clear_value method method' rest rest'
  obtain ⟨key, token, computed, isStatic, isAsync⟩ := head
  dsimp only [relabel]
  split
  · refine .ite ?_ (.ite ?_ ?_)
    · exact .routine
    · exact .step fun computed => .bind fun key => .bind fun value => .pure
    · refine .ofOptions ?_
      rw [Comparison.Fair.classProperties]
      exact .routine
  · exact .routine
  · exact hmethod

instance (hasConstructor : Bool) : Mirrored K (classMember g hasConstructor) := by
  refine .step fun start => .bind fun head => .bind fun member => ?_
  cases member with
  | none => exact inferInstanceAs (Mirrors K (rejectAhead : Parse (Node × Bool)) rejectAhead)
  | some member =>
    obtain ⟨key, computed, value⟩ := member
    cases value with
    | method kind value =>
      dsimp only [relabel, Option.map_some]
      rw [isKey_relabel, isKey_relabel, isGenerator_relabel]
      exact .routine
    | field value =>
      dsimp only [relabel, Option.map_some]
      rw [isKey_relabel, isKey_relabel]
      exact .routine

instance : Mirrored K (classBody g) := .routine

instance : Mirrored K (classTail g) := .routine

instance : Mirrored K seesIdentifier := .routine

instance (nameIsOptional : Bool) : Mirrored K (classDeclaration g nameIsOptional) := .routine

instance : Mirrored K (classExpression g) := .routine

end ScriptTree.Parse
