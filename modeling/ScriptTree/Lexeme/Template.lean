import ScriptTree.Lexeme.StringLiteral

/-!
Pieces of template literals: from the opening quote or a closing brace up to the closing quote or the
start of a substitution.
-/

namespace ScriptTree.Scan

/-- The rest of an escape in a template after its backslash: the text that it stands for. An escape of four
digits that lacks some is no escape, and octal escapes are not allowed. -/
def templateEscape : Scan Text := do
  let c ← take
  if Text.isLineTerminator c then
    newLine c
    return []
  else if c == 0x75 then
    if (← here) == 0x7B then
      advance 1
      return [← bracedEscape]
    else
      let start ← index
      match ← hexEscape c with
      | some d => return [d]
      | none =>
        seek start
        return [c]
  else if c == 0x78 then
    match ← hexEscape c with
    | some d => return [d]
    | none => reject .hexEscape
  else match letterEscape? c with
    | some d => return [d]
    | none =>
      if c == 0x30 then
        if Text.isDecimalDigit (← here) then reject .templateOctal
        return [0]
      else if Text.isOctalDigit c then reject .templateOctal
      else return [c]

/-- The rest of a piece: its value, and whether the template ends with it. There is no result if its end is
missing. -/
def templateTail : Nat → Scan (Option (Text × Bool))
  | 0 => return none
  | n + 1 => do
    if ← atEnd then return none
    let c ← take
    let more (value : Text) : Scan (Option (Text × Bool)) := do
      let tail ← templateTail n
      return tail.map fun (rest, last) => (value ++ rest, last)
    if c == 0x60 then return some ([], true)
    else if c == 0x24 then
      if (← here) == 0x7B then
        modify fun s => { s with openers := .substitution :: s.openers }
        advance 1
        return some ([], false)
      else more [c]
    else if c == 0x5C then more (← templateEscape)
    else if Text.isLineTerminator c then
      newLine c
      more [0x0A]
    else more [c]

/-- A piece of a template. One that is not the first closes the substitution before it. -/
def template : Scan Token := do
  let start ← index
  let head := (← here) == 0x60
  advance 1
  match ← templateTail (← ahead) with
  | none => reject
  | some (cooked, tail) =>
    unless head do modify fun s => { s with openers := s.openers.tail }
    let stop := (← index) - (if tail then 1 else 2)
    let raw := (← read).source.slice (start + 1) stop
    token start (.template raw cooked head tail)

end ScriptTree.Scan
