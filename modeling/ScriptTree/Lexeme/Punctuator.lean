import ScriptTree.Lexeme.Scan

/-!
Punctuators. Of several that fit the longest is taken.
-/

namespace ScriptTree.Scan

def singleMarks : List String := ["(", ")", ";", ",", "[", "]", ":", "?", "~"]

/-- Punctuators by length, longest first. -/
def longMarks : List String :=
  [">>>=", "===", "!==", ">>>", "<<=", ">>=", "**=", "&&", "||", "==", "!=", "+=", "-=", "*=", "/=",
   "++", "--", "<<", ">>", "&=", "|=", "^=", "%=", "<=", ">=", "=>", "**", "<", ">", "=", "!", "+",
   "-", "*", "%", "&", "|", "^", "/"]

def markAt? (i : Nat) (marks : List String) : Scan (Option String) := do
  let source := (← read).source
  return marks.find? fun m => source.hasAt i m

/-- A punctuator. Braces are counted among the open brackets. -/
def punctuator : Scan Token := do
  let start ← index
  let c ← here
  let mark ←
    if c == 0x7B then
      modify fun s => { s with openers := .brace :: s.openers }
      pure "\x7b"
    else if c == 0x7D then
      modify fun s => { s with openers := s.openers.tail }
      pure "\x7d"
    else if c == 0x2E then
      pure (if ← sees start "..." then "..." else ".")
    else match ← markAt? start (singleMarks ++ longMarks) with
      | some mark => pure mark
      | none => reject
  advance mark.length
  token start (.punctuator mark)

end ScriptTree.Scan
