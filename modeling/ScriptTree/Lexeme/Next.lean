import ScriptTree.Lexeme.Comment
import ScriptTree.Lexeme.Name
import ScriptTree.Lexeme.Numeral
import ScriptTree.Lexeme.Punctuator
import ScriptTree.Lexeme.RegexLiteral
import ScriptTree.Lexeme.Template

/-!
The next token at the cursor. A slash is always a punctuator here: whether it opens a regular expression
is not decided by the text alone.
-/

namespace ScriptTree.Scan

/-- The next token. A closing brace goes on with a template if the innermost open bracket is that of a
substitution. -/
def next : Scan Token := do
  if ← atEnd then return ← token (← index) .endOfInput
  let c ← here
  if Text.isIdentifierStart c then name
  else if c == 0x27 || c == 0x22 then string
  else if c == 0x2E then
    if Text.isDecimalDigit (← charAt ((← index) + 1)) then numeral else punctuator
  else if Text.isDecimalDigit c then numeral
  else if c == 0x60 || (c == 0x7D && (← get).openers.head? == some .substitution) then template
  else punctuator

end ScriptTree.Scan
