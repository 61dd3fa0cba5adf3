import ScriptTree.Lexeme.Scan

/-!
Escapes that stand for a code point by its number.
-/

namespace ScriptTree.Scan

def digit (kind : Nat → Bool) (c : Nat) : Scan Nat :=
  if kind c then return Text.digitValue c else throw .noEntry

def character (code : Nat) : Scan Nat :=
  if code ≤ 0x10FFFF then return code else throw .noSuchCodePoint

/-- Takes exactly so many hexadecimal digits. There is no result, and the digits before stay taken, if
another character comes first. -/
def hexDigits : Nat → Nat → Scan (Option Nat)
  | 0, code => return some (← character code)
  | n + 1, code => do
    if ← atEnd then return none
    let c ← here
    if Text.isHexDigit c then
      advance 1
      hexDigits n (code * 16 + (← digit Text.isHexDigit c))
    else return none

/-- The rest of an escape of four hexadecimal digits after `u`, or of two after another letter. -/
def hexEscape (letter : Nat) : Scan (Option Nat) := hexDigits (if letter == 0x75 then 4 else 2) 0

def bracedDigits : Nat → Nat → Nat → Scan (Nat × Nat)
  | 0, code, last => return (code, last)
  | n + 1, code, last => do
    if ← atEnd then return (code, last)
    let c ← take
    if Text.isHexDigit c then bracedDigits n (code * 16 + (← digit Text.isHexDigit c)) c
    else return (code, c)

def bracedEscape : Scan Nat := do
  let c ← here
  if c == 0x7D then reject
  let (code, last) ← bracedDigits (← ahead) 0 c
  if code > 0x10FFFF || last != 0x7D then reject
  character code

/-- The value of an octal escape from its first digit, and whether it is one: a single zero is not. Three
digits are taken only if the first is at most three. -/
def octalEscape (first : Nat) : Scan (Bool × Nat) := do
  let octal := first != 0x30
  let code ← digit Text.isOctalDigit first
  let next? : Scan (Option Nat) := do
    if ← atEnd then return none
    let c ← here
    if Text.isOctalDigit c then
      let value ← digit Text.isOctalDigit c
      advance 1
      return some value
    else return none
  match ← next? with
  | none => return (octal, code)
  | some second =>
    let code := code * 8 + second
    if first ≤ 0x33 then
      match ← next? with
      | none => return (true, code)
      | some third => return (true, code * 8 + third)
    else return (true, code)

end ScriptTree.Scan
