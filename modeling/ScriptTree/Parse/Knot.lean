import ScriptTree.Parse.Expression
import ScriptTree.Parse.Module

/-!
The grammar as a whole: its rules call each other down to a depth.
-/

namespace ScriptTree.Parse

/-- The rules over a grammar. Nothing is read before a rule is run. -/
def Grammar.over (g : Unit → Grammar) : Grammar where
  assignment := fun env s => Parse.assignment (g ()) env s
  unary := fun env s => Parse.unary (g ()) env s
  power := fun env s => Parse.power (g ()) env s
  call := fun env s => Parse.call (g ()) env s
  callee := fun env s => Parse.callee (g ()) env s
  pattern := fun kind env s => Parse.pattern (g ()) kind env s
  statement := fun env s => Parse.statement (g ()) env s
  item := fun env s => Parse.item (g ()) env s
  element := fun env s => Parse.element (g ()) env s

def grammar : Nat → Grammar
  | 0 => .empty
  | n + 1 => .over fun _ => grammar n

/-- A depth that no program goes below: rules nest a few times at most before a token is taken. -/
def depth (s : Source) : Nat := 8 * (s.length + 2)

end ScriptTree.Parse
