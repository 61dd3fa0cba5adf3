import ScriptTree.Lexeme.Scan
import ScriptTree.Location
import ScriptTree.Text.Blank

/-!
White space and comments between tokens. Besides comments after two slashes and between `/*` and `*/`
there are two kinds from markup: after `<!--`, which modules do not have, and after `-->` at the start of
a line.
-/

namespace ScriptTree

/-- A comment with its place. The body is the comment without its delimiters. -/
structure Comment where
  multiLine : Bool
  body : Range
  range : Range
  location : Location
deriving DecidableEq, Repr, Inhabited

namespace Scan

/-- The place of the cursor, so many columns back. -/
def positionBack (count : Nat) : Scan Position := do
  let c ← get
  return ⟨c.line, (c.index : Int) - c.lineStart - count⟩

/-- Takes the rest of a line. What is returned is the offset of its end and its last position. -/
def restOfLine : Nat → Scan (Nat × Position)
  | 0 => return (← index, ← positionBack 0)
  | n + 1 => do
    if ← atEnd then return (← index, ← positionBack 0)
    let c ← take
    if Text.isLineTerminator c then
      let stop := (← index) - 1
      let position ← positionBack 1
      newLine c
      return (stop, position)
    else restOfLine n

/-- Takes the rest of a comment that ends with its line. Its mark, of so many characters, is before the
cursor. -/
def lineComment (mark : Nat) : Scan Comment := do
  let body ← index
  let first ← positionBack mark
  let (stop, last) ← restOfLine (← ahead)
  return ⟨false, ⟨body, stop⟩, ⟨body - mark, stop⟩, ⟨first, last⟩⟩

/-- Takes everything up to the end of a block. Tells whether the end was found. -/
def restOfBlock : Nat → Scan Bool
  | 0 => return false
  | n + 1 => do
    if ← atEnd then return false
    let c ← take
    if Text.isLineTerminator c then
      newLine c
      restOfBlock n
    else if c == 0x2A then
      if (← here) == 0x2F then
        advance 1
        return true
      else restOfBlock n
    else restOfBlock n

/-- Takes the rest of a comment in a block, of which the first two characters are before the cursor. A
block without an end is complained about. -/
def blockComment : Scan Comment := do
  let body ← index
  let first ← positionBack 2
  let closed ← restOfBlock (← ahead)
  let stop ← index
  let last ← positionBack 0
  unless closed do complain
  return ⟨true, ⟨body, if closed then stop - 2 else stop⟩, ⟨body - 2, stop⟩, ⟨first, last⟩⟩

/-- Takes white space and comments. `lineHead` tells whether only those stand before the cursor in its
line. -/
def blanks : Nat → Bool → Scan (List Comment)
  | 0, _ => return []
  | n + 1, lineHead => do
    if ← atEnd then return []
    let c ← here
    let i ← index
    if Text.isWhiteSpace c then
      advance 1
      blanks n lineHead
    else if Text.isLineTerminator c then
      advance 1
      newLine c
      blanks n true
    else if c == 0x2F then
      let d ← charAt (i + 1)
      if d == 0x2F then
        advance 2
        let comment ← lineComment 2
        return comment :: (← blanks n true)
      else if d == 0x2A then
        advance 2
        let comment ← blockComment
        return comment :: (← blanks n lineHead)
      else return []
    else if lineHead && c == 0x2D then
      if ← sees (i + 1) "->" then
        advance 3
        let comment ← lineComment 3
        return comment :: (← blanks n lineHead)
      else return []
    else if c == 0x3C && !(← read).isModule then
      if ← sees (i + 1) "!--" then
        advance 4
        let comment ← lineComment 4
        return comment :: (← blanks n lineHead)
      else return []
    else return []

/-- Takes white space and comments before the next token. The comments are returned if they are to be
collected. -/
def comments : Scan (List Comment) := do
  let found ← blanks (← ahead) ((← index) == 0)
  return if (← read).comments then found else []

end Scan

end ScriptTree
