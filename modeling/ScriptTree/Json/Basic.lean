import ScriptTree.Number.Basic
import ScriptTree.Table

/-!
JSON values. Objects keep the order of their members.
-/

namespace ScriptTree

inductive Json where
  | null
  | bool (value : Bool)
  | number (value : Number)
  | string (value : Text)
  | array (items : List Json)
  | object (members : List (Text × Json))
deriving Inhabited

namespace Json

/-- Is the value anything but null, false, zero or empty? -/
def isPresent : Json → Bool
  | .null => false
  | .bool b => b
  | .number (.integer n) => n != 0
  | .number (.real (.finite _ m _)) => m != 0
  | .number _ => true
  | .string t => !t.isEmpty
  | .array items => !items.isEmpty
  | .object members => !members.isEmpty

end Json

end ScriptTree
