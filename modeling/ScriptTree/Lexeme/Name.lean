import ScriptTree.Lexeme.Escape
import ScriptTree.Text.Identifier
import ScriptTree.Words

/-!
Identifiers, keywords and the literals that are spelled like them.
-/

namespace ScriptTree.Scan

/-- Takes the rest of an escape in a name after its backslash. An escape in braces may stand for any
code point, another one only for those that the place admits. -/
def nameEscape (admits : Nat → Bool) : Scan Nat := do
  if (← here) != 0x75 then reject
  advance 1
  if (← here) == 0x7B then
    advance 1
    bracedEscape
  else
    match ← hexEscape 0x75 with
    | some c => if c == 0x5C || !admits c then reject else return c
    | none => reject

def escapedNameTail : Nat → Scan Text
  | 0 => return []
  | n + 1 => do
    if ← atEnd then return []
    let c ← here
    if !Text.isIdentifierPart c then return []
    advance 1
    if c == 0x5C then
      let d ← nameEscape Text.isIdentifierPart
      return d :: (← escapedNameTail n)
    else return c :: (← escapedNameTail n)

def escapedName : Scan Text := do
  let c ← take
  let first ← if c == 0x5C then nameEscape Text.isIdentifierStart else pure c
  return first :: (← escapedNameTail (← ahead))

/-- Moves to the end of a name without escapes. Tells whether a backslash or a surrogate was met. -/
def plainNameEnd : Nat → Scan Bool
  | 0 => return false
  | n + 1 => do
    if ← atEnd then return false
    let c ← here
    if c == 0x5C || (0xD800 ≤ c && c < 0xDFFF) then return true
    else if Text.isIdentifierPart c then
      advance 1
      plainNameEnd n
    else return false

/-- A name that starts without an escape. It is read again from its start if an escape comes later. -/
def plainName : Scan Text := do
  let start ← index
  advance 1
  if ← plainNameEnd (← ahead) then
    seek start
    escapedName
  else since start

/-- What a name stands for. No keyword has a single letter. -/
def nameLexeme (name : Text) : Lexeme :=
  if name.length == 1 then .identifier name
  else match Words.find? Words.keywords name with
    | some word => .keyword word
    | none =>
      if name.is "null" then .null
      else if name.is "true" then .boolean true
      else if name.is "false" then .boolean false
      else .identifier name

/-- A token that is spelled like a name. Only identifiers may have escapes. -/
def name : Scan Token := do
  let start ← index
  let name ← if (← here) == 0x5C then escapedName else plainName
  let l := nameLexeme name
  let stop ← index
  unless l == .identifier name || start + name.length == stop do
    seek start
    complain .escapedKeyword
    seek stop
  token start l

end ScriptTree.Scan
