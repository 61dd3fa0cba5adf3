import ScriptTree.Lexeme.Escape
import ScriptTree.Text.Blank

/-!
String literals.
-/

namespace ScriptTree.Scan

def letterEscape? (c : Nat) : Option Nat :=
  match c with
  | 0x6E => some 0x0A
  | 0x72 => some 0x0D
  | 0x74 => some 0x09
  | 0x62 => some 0x08
  | 0x66 => some 0x0C
  | 0x76 => some 0x0B
  | _ => none

/-- The rest of an escape in a string after its backslash: the text that it stands for, and whether it is
octal. A line terminator is passed over. -/
def stringEscape : Scan (Text × Bool) := do
  let c ← take
  if Text.isLineTerminator c then
    newLine c
    return ([], false)
  else if c == 0x75 then
    if (← here) == 0x7B then
      advance 1
      return ([← bracedEscape], false)
    else
      match ← hexEscape c with
      | some d => return ([d], false)
      | none => reject
  else if c == 0x78 then
    match ← hexEscape c with
    | some d => return ([d], false)
    | none => reject .hexEscape
  else match letterEscape? c with
    | some d => return ([d], false)
    | none =>
      if c == 0x38 || c == 0x39 then
        complain
        return ([c], false)
      else if Text.isOctalDigit c then
        let (octal, d) ← octalEscape c
        return ([← character d], octal)
      else return ([c], false)

/-- The rest of a string: its value, and whether it has an octal escape. There is no result if its end is
missing. -/
def stringTail (quote : Nat) : Nat → Scan (Option (Text × Bool))
  | 0 => return none
  | n + 1 => do
    if ← atEnd then return none
    let c ← take
    if c == quote then return some ([], false)
    else if c == 0x5C then
      let (value, octal) ← stringEscape
      let tail ← stringTail quote n
      return tail.map fun (rest, octals) => (value ++ rest, octal || octals)
    else if Text.isLineTerminator c then return none
    else
      let tail ← stringTail quote n
      return tail.map fun (rest, octals) => (c :: rest, octals)

def string : Scan Token := do
  let start ← index
  let quote ← here
  unless quote == 0x27 || quote == 0x22 do throw (.broken "String literal must starts with a quote")
  advance 1
  match ← stringTail quote (← ahead) with
  | some (value, octal) => token start (.string value octal)
  | none =>
    seek start
    reject

end ScriptTree.Scan
