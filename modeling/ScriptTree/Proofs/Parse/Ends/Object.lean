import ScriptTree.Proofs.Parse.Ends.Function

/-! # How arrays, objects and classes end

A property or a member of a class starts with a token that is no part of its value, so that no list of them
goes on without an end. -/

namespace ScriptTree.Parse

variable {env : Env} {n : Nat} {g g' : Grammar} [Serves env n g g']
variable (head : MemberHead)

instance : Fronts env n 0 (spread g) (spread g') := .routine

instance : Fronts env n 0 (arrayLiteral g) (arrayLiteral g') := by
  refine .of fun lo => .past <| .first fun _ => .gathers (fun lo => .look fun t _ => .ask ?_) fun _ => .on .last
  refine .ite (fun h => .skips (ne_end_of_isMark h) .result) fun _ => .ask <| .fork ?_ ?_
  · exact .first fun _ => .past <| .fork .result <| .past <| .on .result
  · exact .first fun _ => .past <| .goUnless .result

instance : Inert PropertyHead := ⟨⟩

theorem propertyHead_ends (lo : Nat) (start : Mark) (t : Token) :
    Ends env (Sights env n 0 lo t) (propertyHead g start t) (propertyHead g' start t) (Onwards env n lo) := by
  unfold propertyHead
  split
  next h =>
    refine .skips (by simp [h]) <| .past <| .past <| .stay fun _ => ?_
    exact .fork (.on .result) <| .on .result
  · refine .ask <| .ite (fun h => .skips (ne_end_of_isMark h) .result) fun _ => .ask ?_
    exact .first fun _ => .result

instance (hasProto : Bool) (start : Mark) (t : Token) (key : Node) (head : PropertyHead) :
    Trails env n (propertyValue g hasProto start t key head) (propertyValue g' hasProto start t key head) := by
  refine ⟨fun lo => .past <| .fork (.stayIf ?_) <| .past <| .fork ?_ ?_⟩
  · exact .on <| .on <| .on .result
  · exact .fork (.on <| .on .result) <| .on <| .on .result
  · split
    · refine .go fun id => .past <| .fork (.stay fun equals he => ?_) ?_
      · have : Stays env (Poised env) (setContext fun c => { c with coverError := some equals }) :=
          .sets fun _ _ => ⟨inferInstanceAs (Known env (some equals))⟩
        exact .past <| .on <| .on <| .on <| .on .result
      · exact .on .result
    · exact .on .fails

instance (hasProto : Bool) : Fronts env n 0 (property g hasProto) (property g' hasProto) := by
  refine .of fun lo => .stay fun start => .look fun t _ => .ask <| .bind (propertyHead_ends lo start t) fun head =>
    .fact fun _ => .stay fun l _ => ?_
  refine .fork ?_ <| .fork ?_ <| .fork ?_ ?_
  · exact .past <| .on <| .sets <| .on <| .on .result
  · exact .past <| .on <| .on <| .on .result
  · exact .past <| .on <| .on <| .on .result
  · split
    · exact .last
    · exact .fails

instance : Fronts env n 0 (objectLiteral g) (objectLiteral g') := by
  refine .of fun lo => ?_
  refine .past <| .first fun _ => .loops (fun lo (found, hasProto) _ => .stay fun _ => ?_) fun _ => .on .last
  refine .fork .done <| .past <| .fork (.first fun n _ => ?_) <| .first fun x _ => ?_
  · exact .pure_bind <| .past <| .goUnless .again
  · exact .past <| .goUnless .again

instance : Knowable MemberHead := ⟨fun env head => Known env head.token⟩

instance [h : Known env head] : Known env head.token := h.holds

instance (key : Option Node) (t : Token) (computed isStatic isAsync : Bool) [h : Known env t] :
    Known env (⟨key, t, computed, isStatic, isAsync⟩ : MemberHead) := ⟨h⟩

instance (key : Node) [Known env head] : Trails env n (staticHead g head key) (staticHead g' head key) := .routine

instance [Known env head] : Trails env n (asyncHead g head) (asyncHead g' head) := .routine

instance : Fronts env n 0 (memberHead g) (memberHead g') where
  advances _ := .look fun t => .ask <| .ask <| .ite (fun h => .skips (ne_end_of_isMark h) .result) fun _ =>
    .ask <| .first fun _ => .on .last

instance : Inert MemberValue := ⟨⟩

instance (start : Mark) : Trails env n (memberValue g start head) (memberValue g' start head) := .routine

instance (hasConstructor : Bool) : Fronts env n 0 (classMember g hasConstructor) (classMember g' hasConstructor) := .routine

instance : Fronts env n 0 (classBody g) (classBody g') := by
  refine .of fun lo => .past <| .first fun _ => .loops (fun lo (found, hasConstructor) _ => .look fun t _ => .ask ?_)
    fun _ => .on .last
  refine .fork (.front .done) <| .ask <| .ite (fun h => .skips (ne_end_of_isMark h) .again) fun _ => ?_
  exact .first fun _ => .again

instance : Fronts env n 0 (classTail g) (classTail g') := by
  refine .of fun lo => .look fun t _ => .ask <| .ite (fun h => .skips (ne_end_of_isWord h) ?_) fun _ => .pure_bind ?_
  · exact .on <| .on .result
  · exact .first fun _ => .result

instance (nameIsOptional : Bool) :
    Fronts env n 0 (classDeclaration g nameIsOptional) (classDeclaration g' nameIsOptional) := .routine

instance : Fronts env n 0 (classExpression g) (classExpression g') := .routine

end ScriptTree.Parse
