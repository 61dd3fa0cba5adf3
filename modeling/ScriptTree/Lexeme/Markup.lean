import ScriptTree.Lexeme.Next
import ScriptTree.Text.Entity

/-!
Tokens inside the tags of markup, and the text between tags.
-/

namespace ScriptTree.Scan

/-- A character reference as far as it has been read, from its ampersand on. -/
structure Reference where
  text : Text := [0x26]
  isValid : Bool := true
  isClosed : Bool := false
  isDecimal : Bool := false
  isHex : Bool := false

namespace Reference

def push (r : Reference) (c : Nat) : Reference :=
  let r := { r with text := r.text ++ [c] }
  if c == 0x3B then { r with isClosed := true }
  else if r.text.length == 2 then { r with isDecimal := c == 0x23 }
  else if r.text.length == 3 then
    if r.isDecimal then
      let isHex := c == 0x78
      { r with isHex, isValid := isHex || Text.isDecimalDigit c, isDecimal := !isHex }
    else r
  else
    { r with
      isValid := r.isValid && !(r.isDecimal && !Text.isDecimalDigit c) && !(r.isHex && !Text.isHexDigit c) }

def codePoint (code : Nat) : Except Failure Text :=
  if code ≥ Nat.pow 2 31 then .error .hugeCodePoint
  else if code > 0x10FFFF then .error .noSuchCodePoint
  else .ok [code]

/-- The text that a reference stands for. What is no reference stands for itself. -/
def value (r : Reference) : Except Failure Text :=
  let name := (r.text.drop 1).dropLast
  if !r.isValid || !r.isClosed || r.text.length ≤ 2 then .ok r.text
  else if r.isDecimal then
    if name.length ≤ 1 then .ok r.text
    else if name.length - 1 > Number.maxDigits then .error .tooManyDigits
    else codePoint (Text.positional 10 (name.drop 1))
  else if r.isHex then
    if name.length ≤ 2 then .ok r.text else codePoint (Text.positional 16 (name.drop 2))
  else match Text.entity? name with
    | some c => .ok [c]
    | none => .ok r.text

end Reference

def referenceTail (quote : Nat) : Nat → Reference → Scan Reference
  | 0, r => return r
  | n + 1, r => do
    if (← atEnd) || !r.isValid || r.isClosed then return r
    let c ← here
    if c == quote then return r
    advance 1
    referenceTail quote n (r.push c)

def reference (quote : Nat) : Scan Text := do
  let r ← referenceTail quote (← ahead) {}
  match r.value with
  | .ok t => return t
  | .error e => throw e

/-- The rest of a string in a tag. It may end with the program. -/
def markupString (quote : Nat) : Nat → Scan Text
  | 0 => return []
  | n + 1 => do
    if ← atEnd then return []
    let c ← take
    if c == quote then return []
    else if c == 0x26 then
      let value ← reference quote
      return value ++ (← markupString quote n)
    else return c :: (← markupString quote n)

def isMarkupPart (c : Nat) : Bool := c == 0x2D || (Text.isIdentifierPart c && c != 0x5C)

/-- The next token in a tag. Braces are not counted among the open brackets. A template is not taken, as it
is no part of a tag. -/
def markup : Scan Token := do
  let start ← index
  let c ← here
  let marks := ["<", ">", "/", ":", "=", "\x7b", "\x7d"]
  if let some mark := marks.find? fun m => Text.ofString m == [c] then
    advance 1
    token start (.punctuator mark)
  else if c == 0x27 || c == 0x22 then
    advance 1
    let value ← markupString c (← ahead)
    token start (.string value false)
  else if c == 0x2E then
    let mark := if ← sees start "..." then "..." else "."
    advance mark.length
    token start (.punctuator mark)
  else if c == 0x60 then token start (.template [] [] false false)
  else if Text.isIdentifierStart c && c != 0x5C then
    advance 1
    let _ ← takeWhile isMarkupPart (← ahead)
    token start (.jsxIdentifier (← since start))
  else next

/-- The rest of the text up to the next tag or expression. Of two characters that end a line together only
the first is kept. -/
def markupTextTail : Nat → Scan Text
  | 0 => return []
  | n + 1 => do
    if ← atEnd then return []
    let c ← here
    if c == 0x7B || c == 0x3C then return []
    advance 1
    if Text.isLineTerminator c then newLine c
    return c :: (← markupTextTail n)

def markupText : Scan Token := do
  let start ← index
  let text ← markupTextTail (← ahead)
  token start (.jsxText text)

end ScriptTree.Scan
