import ScriptTree.Failure
import ScriptTree.Regex.Printer
import ScriptTree.Value.Basic

/-!
Values as indented text. Locations are written on one line.
-/

namespace ScriptTree.Value

/-- How a text is laid out, and which fields it leaves out. -/
structure Layout where
  indent : Text := List.replicate 4 0x20
  newLine : Text := [0x0A]
  space : Text := []
  skipped : List Text := []
deriving Inhabited

namespace Layout

def flat (l : Layout) : Layout := { l with indent := [], newLine := [], space := [] }

def margin (l : Layout) (level : Nat) : Text := (List.replicate level l.indent).flatten

/-- Parts between brackets, one a line. -/
def bracket (l : Layout) (level : Nat) (opening closing : Nat) (parts : List Text) : Text :=
  if parts.isEmpty then [opening, closing]
  else
    let inner := l.margin (level + 1)
    let separator := 0x2C :: (l.newLine ++ l.space ++ inner)
    opening :: (l.space ++ l.newLine ++ inner ++ Text.join separator parts ++ l.newLine ++ l.margin level
      ++ l.space ++ [closing])

end Layout

def numberText (n : Number) : Except Failure Text :=
  match n.text? with
  | some t => .ok t
  | none => .error .tooManyDigits

mutual

def print (l : Layout) (level : Nat) : Value → Except Failure Text
  | .null => .ok (Text.ofString "None")
  | .bool b => .ok (Text.ofString (if b then "True" else "False"))
  | .number n => numberText n
  | .text t => .ok (Json.quote t)
  | .pattern p => .ok p.text
  | .list items => do return l.bracket level 0x5B 0x5D (← printItems l (level + 1) items)
  | .record fields => do return l.bracket level 0x7B 0x7D (← printFields l (level + 1) fields)
  | .object className fields => do
    let l := if className == "SourceLocation" then l.flat else l
    return l.bracket level 0x7B 0x7D (← printFields l (level + 1) fields)
  | .again => .ok (Text.ofString "...")

def printItems (l : Layout) (level : Nat) : List Value → Except Failure (List Text)
  | [] => .ok []
  | item :: rest => do
    let first ← print l level item
    return first :: (← printItems l level rest)

def printFields (l : Layout) (level : Nat) : List (Text × Value) → Except Failure (List Text)
  | [] => .ok []
  | (name, value) :: rest => do
    if value.isNull || isHidden name || l.skipped.contains name then printFields l level rest
    else
      let first ← print l level value
      return (name ++ Text.ofString ": " ++ first) :: (← printFields l level rest)

end

end ScriptTree.Value
