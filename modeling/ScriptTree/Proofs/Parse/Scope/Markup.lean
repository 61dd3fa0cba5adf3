import ScriptTree.Proofs.Parse.Context.Markup
import ScriptTree.Proofs.Parse.Scope.Function

/-! # Markup in its scope

All that markup has of its own is plain. While elements are open, their parts are known to be fine. -/

namespace ScriptTree.Parse

open Parts

variable {env : Env} [Exact env] {g : Grammar} [Scoping env g] {strict : Bool}

namespace Expresses

instance : Expresses env markupName := .routine

instance : Expresses env elementName := .routine

instance : Expresses env attributeName := .routine

instance : Expresses env stringAttribute := .routine

instance : Expresses env (expressionAttribute g) := .routine

instance : Expresses env (attributeValue g) := .routine

instance : Expresses env (namedAttribute g) := .routine

instance : Expresses env (spreadAttribute g) := .routine

instance : Expresses env (attributes g) := by
  have hitem : Expresses env (do if ← seesMarkup "\x7b" then spreadAttribute g else namedAttribute g) :=
    ⟨fun _ => .past <| .fork .heard .heard⟩
  unfold attributes
  infer_instance

instance (start : Mark) : Expresses env (openingTail g start) := .routine

instance : Expresses env (openingElement g) := .routine

instance : Expresses env (boundaryElement g) := .routine

instance : Expresses env emptyExpression := .routine

instance : Expresses env (expressionContainer g) := .routine

instance : Expresses env (textChildren g) := .routine

end Expresses

def openNodes : List OpenElement → List Node
  | [] => []
  | e :: es => e.opening :: e.children ++ openNodes es

attribute [local simp] openNodes

theorem elementTail_fine {start : Mark} {opening : Node} :
    Leads env (Code strict [opening]) (elementTail g { start, opening })
      fun x => Code strict (opening :: Held.nodes x) := by
  let I (x : OpenElement × List OpenElement) := Code strict (opening :: openNodes (x.1 :: x.2))
  refine .loop I (fun _ h => ⟨h.1, ?_⟩) fun (e, stack) => .past <| .fork ?_ ?_
  · simpa using h.2
  · refine .pure fun _ h => ⟨h.1, ?_⟩
    have hall := h.2
    simp at hall ⊢
    exact ⟨hall.1, hall.2.2.1⟩
  refine .hears fun texts => ?_
  extract_lets e'
  refine .keeps fun start => .hears fun tag => ?_
  refine .knows (l := opening :: openNodes (e' :: stack) ++ [tag]) (fun h => ?_) ?_
  · simp [e'] at h ⊢
    grind
  split
  · -- a closing tag makes a child of the element above, or ends the outermost one
    extract_lets closed
    have hclosed : Leads env (Code strict (opening :: openNodes (e' :: stack) ++ [tag])) (closed ())
        fun r s => r.Satisfies (I · s) fun x => Code strict (opening :: Held.nodes x) s := by
      dsimp only [closed]
      split
      · refine .joins (fun h => ?_) fun _ => .pure fun _ h => ⟨h.1, ?_⟩
        · simp at h ⊢
          grind
        · have hall := h.2
          simp at hall ⊢
          grind
      · refine .pure fun _ h => ⟨h.1, ?_⟩
        have hall := h.2
        simp at hall ⊢
        grind
    exact .pastIf hclosed
  · refine .fork ?_ ?_
    · refine .joins (fun h => ?_) fun _ => .pure fun _ h => ⟨h.1, ?_⟩
      · simp at h ⊢
        grind
      · have hall := h.2
        simp at hall ⊢
        grind
    · refine .pure fun _ h => ⟨h.1, ?_⟩
      have hall := h.2
      simp at hall ⊢
      grind

namespace Expresses

instance : Expresses env (element g) := by
  refine ⟨fun strict => .keeps fun start => .hears fun opening => .fork (.joined fun h => ?_) ?_⟩
  · simpa using h
  · refine .bind elementTail_fine fun (children, closing) => .joined fun h => ?_
    simpa using h

instance : Expresses env (rootElement g) := .routine

end Expresses

end ScriptTree.Parse
