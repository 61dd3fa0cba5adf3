import ScriptTree.Proofs.Parse.Context.Module
import ScriptTree.Proofs.Parse.Nest.Module
import ScriptTree.Proofs.Parse.Scope.Statement

/-! # Imports, exports and items in their scope -/

namespace ScriptTree.Parse

open Parts

variable {α : Type} {env : Env} [Exact env] {g : Grammar} [Scoping env g]

namespace Expresses

instance : Expresses env moduleSpecifier := .routine

instance : Expresses env fromClause := .routine

instance : Expresses env importSpecifier := .routine

omit [Exact env] in
/-- Items in braces. -/
theorem inBraces_items [Held α] {p : Parse α} [Expresses env p] {strict : Bool} :
    Leads env (Code strict []) (inBraces p) fun as => Code strict (as.flatMap Held.nodes) := by
  refine .past <| .items ⟨fun _ => ?_⟩ fun found => .past .pure
  exact .hears fun _ => .past <| .pastUnless <| .gives fun h => h

instance (p : Parse Node) [Expresses env p] : Expresses env (inBraces p) := by
  refine ⟨fun _ => .conclude inBraces_items fun ns _ h => ?_⟩
  rwa [flatMap_nodes] at h

instance (p : Parse (Node × Bool)) [Expresses env p] : Expresses env (inBraces p) := by
  refine ⟨fun _ => .conclude inBraces_items fun ns _ h => ?_⟩
  rwa [flatMap_nodes_pair nodes_bool] at h

instance : Expresses env importDefault := .routine

instance : Expresses env importNamespace := .routine

instance : Expresses env importSpecifiers := .routine

instance : Expresses env exportSpecifier := .routine

instance : Expresses env exportDefaultSpecifier := .routine

instance : Expresses env (exportDefault g) := .routine

end Expresses

/-! ## Items -/

namespace Itemizes

variable {c : Context}

/-- The parts of an import or an export. -/
theorem seated {ns : List Node} (h : Fines c.strict ns) : ∀ n ∈ ns, Seated c.scope n :=
  fun n hn => (h n hn).free.seated rfl

instance : Itemizes env importDeclaration := by
  refine ⟨fun c => .look fun d hd => .ite (fun _ => .fails_bind) fun hin => ?_⟩
  have hin : c.inFunction = false := by
    rw [← hd.inFunction]
    simpa using hin
  refine .past <| .past <| .keeps fun _ => ?_
  extract_lets rest
  have hrest (specifiers : List Node) (source : Node) : Fines c.strict (specifiers ++ [source]) →
      Leads env (Under c) (rest (specifiers, source)) fun n s => Under c s ∧ Itemed c n := by
    intro h
    exact .past <| .itemizes hin (seated (by simpa using h))
  split
  · exact .fineParts fun source hsource => .pure_bind (hrest [] source hsource)
  · refine .fineParts fun specifiers hspecifiers => .fineParts fun source hsource => .pure_bind (hrest _ _ ?_)
    exact Fines.append_iff.mpr ⟨hspecifiers, hsource⟩

theorem exportNames_itemizes (start : Mark) (hin : c.inFunction = false) :
    Leads env (Under c) (exportNames start) fun n s => Under c s ∧ Itemed c n := by
  refine .keeps fun _ => ?_
  extract_lets rest
  have hrest (first : Option Node) : Fines c.strict (Held.nodes first) →
      Leads env (Under c) (rest first) fun n s => Under c s ∧ Itemed c n := by
    intro hfirst
    refine .keeps fun _ => ?_
    extract_lets expectMore named listed
    have hlisted : Leads env (Under c) (listed ()) fun n s => Under c s ∧ Itemed c n := by
      have hnamed (more : List (Node × Bool)) : Fines c.strict (Held.nodes more) →
          Leads env (Under c) (named more) fun n s => Under c s ∧ Itemed c n := by
        intro hmore
        have hmore : Fines c.strict (more.map Prod.fst) := hmore
        refine .past <| .fork (.fineParts fun source hsource => .keeps fun _ => ?_) <|
          .fork .fails <| .keeps fun _ => ?_
        · refine .itemizes hin (seated ?_)
          simpa using ⟨hfirst, hmore, List.forall_mem_singleton.mp hsource⟩
        · refine .itemizes hin (seated ?_)
          simpa using ⟨hfirst, hmore⟩
      exact .fork (.fineParts hnamed) <| .pure_bind (hnamed [] .nil)
    exact .pastIf hlisted
  exact .fork (.fineParts hrest) <| .pure_bind (hrest none .nil)

/-- What is exported starts with the word ahead. -/
theorem exportedDeclaration_states {word : String} :
    Leads env (fun s => Under c s ∧ s.lookahead.lexeme = .keyword word) (exportedDeclaration g word)
      fun n s => Under c s ∧ Stated c n := by
  refine .fork ?_ <| .ite (fun hw => ?_) fun _ => .fails
  · refine .weaken (fun _ h => h.1) (.conclude (States.leads c) fun n s h => ⟨h.1, ?_⟩)
    exact h.2 n (List.mem_singleton_self n)
  · refine .weaken (fun s h => ⟨h.1, ?_, ?_⟩) (Scoping.statesItem c)
    · rintro heq
      rw [h.2] at heq
      cases heq
      exact absurd hw (by decide)
    · rintro heq
      rw [h.2] at heq
      cases heq
      exact absurd hw (by decide)

instance : Itemizes env (exportDeclaration g) := by
  refine ⟨fun c => .look fun d hd => .ite (fun _ => .fails_bind) fun hin => ?_⟩
  have hin : c.inFunction = false := by
    rw [← hd.inFunction]
    simpa using hin
  refine .past <| .keeps fun _ => ?_
  intro s n s' hs h
  replace h := h.first rfl
  split at h
  · refine (?_ : Leads env (Under c) _ fun n s => Under c s ∧ Itemed c n) s n s' hs h
    refine .past <| .statement fun n hn => .itemizes hin ?_
    simpa using hn.seated
  · refine (?_ : Leads env (Under c) _ fun n s => Under c s ∧ Itemed c n) s n s' hs h
    refine .past <| .statement fun source hsource => .past <| .itemizes hin ?_
    simpa using hsource.seated
  next hw =>
    refine (?_ : Leads env (fun s => Under c s ∧ s.lookahead.lexeme = _) _ fun n s => Under c s ∧ Itemed c n)
      s n s' ⟨hs, hw⟩ h
    refine .bind exportedDeclaration_states fun n => .fact fun hn => .itemizes hin ?_
    simpa using hn.seated
  · refine (?_ : Leads env (Under c) _ fun n s => Under c s ∧ Itemed c n) s n s' hs h
    refine .past <| .fork (.statement fun n hn => .itemizes hin ?_) <| exportNames_itemizes _ hin
    simpa using hn.seated

/-- What starts with another word is neither an import nor an export. -/
theorem item_states (c : Context) :
    Leads env (fun s => Under c s ∧ s.lookahead.lexeme ≠ .keyword "import" ∧ s.lookahead.lexeme ≠ .keyword "export")
      (item g) fun n s => Under c s ∧ Stated c n := by
  rintro s n s' ⟨hs, himport, hexport⟩ h
  replace h := (Returns.modify h).first rfl
  have hs : Under c { s with context := { s.context with isTarget := true, isBinding := true } } := { hs with }
  have hstates {p : Parse Node} [States env p] : Leads env (Under c) p fun n s => Under c s ∧ Stated c n :=
    .conclude (States.leads c) fun n _ h => ⟨h.1, h.2 n (List.mem_singleton_self n)⟩
  split at h
  next hl => exact absurd hl hexport
  next hl => exact absurd hl himport
  · exact hstates _ n s' hs h
  · exact hstates _ n s' hs h
  · exact hstates _ n s' hs h
  · refine (?_ : Leads env (Under c) _ fun n s => Under c s ∧ Stated c n) _ n s' hs h
    exact .past <| .fork hstates hstates
  · exact hstates _ n s' hs h

instance : Itemizes env (item g) := by
  refine ⟨fun c => ?_⟩
  have hflags : Neutral (setContext fun c => { c with isTarget := true, isBinding := true }) :=
    Neutral.of_setContext fun _ => { Same.refl _ with }
  refine .past <| .keeps fun _ => ?_
  split
  · exact .past <| .pastIf (Itemizes.leads c)
  · exact .past <| .fork (Itemizes.leads c) <| .past <| .pastIf (Itemizes.leads c)
  · exact Itemizes.leads c
  · exact Itemizes.leads c
  · exact Itemizes.leads c
  · exact .past <| .fork (Itemizes.leads c) <| Itemizes.leads c
  · exact Itemizes.leads c

end Itemizes

end ScriptTree.Parse
