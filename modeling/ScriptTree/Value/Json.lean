import ScriptTree.Failure
import ScriptTree.Json.Basic
import ScriptTree.Value.Basic

/-!
Values as JSON.
-/

namespace ScriptTree.Value

mutual

/-- A value as JSON. Patterns have no such form. -/
def toJson : Value → Except Failure Json
  | .null => .ok .null
  | .bool b => .ok (.bool b)
  | .number n => .ok (.number n)
  | .text t => .ok (.string t)
  | .pattern _ | .again => .error .mismatch
  | .list items => do return .array (← itemsToJson items)
  | .record fields | .object _ fields => do return .object (← fieldsToJson fields)

def itemsToJson : List Value → Except Failure (List Json)
  | [] => .ok []
  | item :: rest => do
    let first ← toJson item
    return first :: (← itemsToJson rest)

def fieldsToJson : List (Text × Value) → Except Failure (List (Text × Json))
  | [] => .ok []
  | (name, value) :: rest => do
    let first ← toJson value
    return (name, first) :: (← fieldsToJson rest)

end

end ScriptTree.Value
