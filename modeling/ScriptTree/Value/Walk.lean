import ScriptTree.Failure
import ScriptTree.Value.Basic

/-!
The classes of the objects in a value, in the order in which a walk meets them. Objects of some classes
may be passed by without a look inside.
-/

namespace ScriptTree.Value

mutual

/-- The classes that a walk meets. Classes that are passed by are marked with a dash. -/
def walk (passed : List String) : Value → Except Failure (List String)
  | .list items => walkItems passed items
  | .record fields => walkFields passed fields
  | .object className fields =>
    if passed.contains className then .ok ["-" ++ className]
    else do return className :: (← walkFields passed fields)
  | .again => .error .cyclic
  | _ => .ok []

def walkItems (passed : List String) : List Value → Except Failure (List String)
  | [] => .ok []
  | item :: rest => do
    let first ← walk passed item
    return first ++ (← walkItems passed rest)

def walkFields (passed : List String) : List (Text × Value) → Except Failure (List String)
  | [] => .ok []
  | (name, value) :: rest => do
    if isHidden name then walkFields passed rest
    else
      let first ← walk passed value
      return first ++ (← walkFields passed rest)

end

/-- The classes that a walk meets which goes into the value itself whatever its class. -/
def walkInto (passed : List String) : Value → Except Failure (List String)
  | .object className fields => do return className :: (← walkFields passed fields)
  | v => walk passed v

end ScriptTree.Value
