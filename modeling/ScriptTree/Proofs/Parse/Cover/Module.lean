import ScriptTree.Proofs.Parse.Cover.Statement
import ScriptTree.Proofs.Parse.Nest.Module

/-! # Imports, exports and items -/

namespace ScriptTree.Parse

open Parts

variable {α : Type} {env : Env} {T B F P : Prop} {t : Token}

instance : Builds env moduleSpecifier := by
  refine ⟨fun F => .enters fun t => .answers ?_⟩
  split
  next ht =>
    have ha : ¬ Arrow t := fun ha => nomatch ha.symm.trans ht
    exact .nexts ha fun hF _ => .past <| .shaped hF nofun
  next => exact .fails

instance : Builds env fromClause := by
  refine ⟨fun F => .facing fun t => .answers <| .ite (fun hn => .skips (not_arrow_of_isName hn) fun hF _ => ?_) fun _ =>
    .fails_bind⟩
  rw [← bind_pure moduleSpecifier]
  exact .parts fun _ n _ => .built hF id

variable [Intolerant env]

instance : Builds env importSpecifier := .routine

section

omit [Intolerant env]

/-- Items in braces. -/
theorem inBraces_built [Held α] {p : Parse α} [Builds env p] :
    Leads env (Reached env True True F) (inBraces p) fun as =>
      Onward env True True F (Propers env.source (as.flatMap Held.nodes)) := by
  have : Builds env (do
      let n ← p
      unless ← sees "\x7d" do expect ","
      return n) := ⟨fun F => .facing fun t => .parts fun hF n _ => .expectsUnless fun hn _ => .built hF fun _ => hn⟩
  refine .facing fun t => .expects fun hF _ _ => .everyItem fun found _ => .expects fun ⟨_, hfound⟩ _ _ =>
    .pure fun _ hs => ?_
  exact ⟨hF, hs.known fun _ => hfound⟩

instance (p : Parse Node) [Builds env p] : Builds env (inBraces p) := by
  refine ⟨fun F => .conclude inBraces_built fun ns _ h => ?_⟩
  rwa [flatMap_nodes] at h

instance (p : Parse (Node × Bool)) [Builds env p] : Builds env (inBraces p) := by
  refine ⟨fun F => .conclude inBraces_built fun ns _ h => ?_⟩
  rwa [flatMap_nodes_pair nodes_bool] at h

end

instance : Builds env importDefault := .routine

instance : Builds env importNamespace := .routine

instance : Builds env importSpecifiers := .routine

instance : Builds env importDeclaration := .routine

instance : Builds env exportSpecifier := .routine

instance : Builds env exportDefaultSpecifier := .routine

variable {g : Grammar} [Covering env g]

instance : Builds env (exportDefault g) := .routine

instance (word : String) : Builds env (exportedDeclaration g word) :=
  ⟨fun _ => .facing fun _ => .fork .build <| .fork .build .fails⟩

instance : Builds env (exportDeclaration g) := by
  refine ⟨fun F => .facing fun t => .past <| .fork .fails_bind <| .past <| .expectsWord fun hF _ t => .answers ?_⟩
  split <;> exact .building

instance : Builds env (item g) := by
  refine ⟨fun F => .facing fun t => .losesFlags <| .answers ?_⟩
  split
  · exact .past <| .when .build
  · exact .past <| .fork .build <| .past <| .when .build
  · exact .build
  · exact .build
  · exact .build
  · exact .past <| .fork .build .build
  · exact .build

end ScriptTree.Parse
