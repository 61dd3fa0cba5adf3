import ScriptTree.Failure
import ScriptTree.Json.Basic
import ScriptTree.Json.Quoted

/-!
JSON texts: on one line, or with one member a line and an indentation of four blanks a level.
-/

namespace ScriptTree.Json

/-- The text of a number. Infinities and not-a-number have names of their own. -/
def numberText : Number → Except Failure Text
  | .real (.infinity negative) =>
    .ok (Text.ofString (if negative then "-Infinity" else "Infinity"))
  | .real .notANumber => .ok (Text.ofString "NaN")
  | n => match n.text? with
    | some t => .ok t
    | none => .error .tooManyDigits

/-- How a text is laid out: on one line, or indented below a level. -/
inductive Layout where
  | line
  | indented (level : Nat)

def Layout.inner : Layout → Layout
  | .line => .line
  | .indented level => .indented (level + 1)

def Layout.break : Layout → Text
  | .line => []
  | .indented level => 0x0A :: List.replicate (4 * level) 0x20

def Layout.separator : Layout → Text
  | .line => Text.ofString ", "
  | .indented level => 0x2C :: Layout.break (.indented level)

mutual

def writeBefore (layout : Layout) (after : Text) : Json → Except Failure Text
  | .null => .ok (Text.ofString "null" ++ after)
  | .bool b => .ok (Text.ofString (if b then "true" else "false") ++ after)
  | .number n => do return (← numberText n) ++ after
  | .string t => .ok (quote t ++ after)
  | .array [] => .ok (0x5B :: 0x5D :: after)
  | .array items => do
    let rest ← writeItemsBefore layout.inner (layout.break ++ 0x5D :: after) items
    return 0x5B :: (layout.inner.break ++ rest)
  | .object [] => .ok (0x7B :: 0x7D :: after)
  | .object members => do
    let rest ← writeMembersBefore layout.inner (layout.break ++ 0x7D :: after) members
    return 0x7B :: (layout.inner.break ++ rest)

def writeItemsBefore (layout : Layout) (after : Text) : List Json → Except Failure Text
  | [] => .ok after
  | item :: rest => do
    let tail ← writeItemsBefore layout after rest
    writeBefore layout (if rest.isEmpty then tail else layout.separator ++ tail) item

/-- The texts of the members of an object in front of what comes after them. -/
def writeMembersBefore (layout : Layout) (after : Text) : List (Text × Json) → Except Failure Text
  | [] => .ok after
  | (name, value) :: rest => do
    let tail ← writeMembersBefore layout after rest
    let written ← writeBefore layout (if rest.isEmpty then tail else layout.separator ++ tail) value
    return quote name ++ Text.ofString ": " ++ written

end

def write (layout : Layout) (j : Json) : Except Failure Text := writeBefore layout [] j

end ScriptTree.Json
