import ScriptTree.Lexeme.Escape
import ScriptTree.Regex.Reader

/-!
Regular expression literals.
-/

namespace ScriptTree.Scan

/-- The body of a regular expression up to its closing slash. Inside a set in brackets a slash is an
ordinary character. -/
def regexTail : Nat → Bool → Scan Text
  | 0, _ => reject .unterminatedRegex
  | n + 1, inSet => do
    if ← atEnd then reject .unterminatedRegex
    let c ← take
    if c == 0x5C then
      let d ← take
      if Text.isLineTerminator d then reject .unterminatedRegex
      return c :: d :: (← regexTail n inSet)
    else if Text.isLineTerminator c then reject .unterminatedRegex
    else if inSet then return c :: (← regexTail n (c != 0x5D))
    else if c == 0x2F then return []
    else return c :: (← regexTail n (c == 0x5B))

def regexBody : Scan Text := do
  unless (← here) == 0x2F do
    throw (.broken "Regular expression literal must start with a slash")
  advance 1
  regexTail (← ahead) false

/-- The flags after a regular expression. Escapes are complained about. -/
def regexFlags : Nat → Scan Text
  | 0 => return []
  | n + 1 => do
    if ← atEnd then return []
    let c ← here
    if !Text.isIdentifierPart c then return []
    advance 1
    if c == 0x5C && !(← atEnd) then
      if (← here) == 0x75 then
        advance 1
        let start ← index
        let flag ← match ← hexEscape 0x75 with
          | some d => pure d
          | none => do
            seek start
            pure 0x75
        complain
        return flag :: (← regexFlags n)
      else
        complain
        regexFlags n
    else return c :: (← regexFlags n)

def astralSubstitute : Nat := 0xFFFF

/-- The number that an escape at the front of a text stands for, and the rest of the text. -/
def codeEscape? (t : Text) : Option (Nat × Text) :=
  match t with
  | 0x5C :: 0x75 :: 0x7B :: rest =>
    let digits := rest.takeWhile Text.isHexDigit
    match digits, rest.drop digits.length with
    | _ :: _, 0x7D :: rest => some (Text.positional 16 digits, rest)
    | _, _ => none
  | 0x5C :: 0x75 :: rest =>
    let digits := (rest.take 4).takeWhile Text.isHexDigit
    if digits.length == 4 then some (Text.positional 16 digits, rest.drop 4) else none
  | _ => none

/-- A pattern with its escapes by number replaced by their characters. Escapes that stand for no code point
are complained about. -/
def plainPattern : Nat → Text → Scan Text
  | 0, t => return t
  | _, [] => return []
  | n + 1, c :: rest => do
    match codeEscape? (c :: rest) with
    | some (code, rest) =>
      let d ←
        if code > 0x10FFFF then
          complain .badRegex
          pure astralSubstitute
        else pure (if code ≤ 0xFFFF then code else astralSubstitute)
      return d :: (← plainPattern n rest)
    | none => return c :: (← plainPattern n rest)

def joinSurrogates : Text → Text
  | [] => []
  | [c] => [c]
  | c :: d :: rest =>
    if 0xD800 ≤ c && c ≤ 0xDBFF && 0xDC00 ≤ d && d ≤ 0xDFFF then
      astralSubstitute :: joinSurrogates rest
    else c :: joinSurrogates (d :: rest)

/-- The flags of a literal that change how its pattern is matched. Of the two only one has an effect. -/
def patternFlags (flags : Text) : Regex.Flags :=
  if flags.contains 0x6D then { multiLine := true }
  else if flags.contains 0x69 then { ignoreCase := true }
  else {}

/-- The regular expression with a pattern and flags. An invalid one is complained about. -/
def checkRegex (pattern flags : Text) : Scan (Option Regex.Pattern) := do
  let pattern := joinSurrogates (← plainPattern pattern.length pattern)
  match Regex.compile? pattern (patternFlags flags) with
  | some r => return some r
  | none =>
    complain .badRegex
    return none

def regex : Scan Token := do
  let start ← index
  let pattern ← regexBody
  let flags ← regexFlags (← ahead)
  let compiled ← checkRegex pattern flags
  token start (.regex pattern flags compiled)

end ScriptTree.Scan
