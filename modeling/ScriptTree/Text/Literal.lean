import ScriptTree.Json.Quoted
import ScriptTree.Text.Printable

/-!
Texts in quotes in which printable characters stand for themselves. Double quotes are taken only for
texts that have a single quote and no double one.
-/

namespace ScriptTree.Text

def literalQuote (t : Text) : Nat := if t.contains 0x27 && !t.contains 0x22 then 0x22 else 0x27

def literalOne (quote c : Nat) : Text :=
  if c == quote || c == 0x5C then [0x5C, c]
  else match c with
    | 0x09 => [0x5C, 0x74]
    | 0x0A => [0x5C, 0x6E]
    | 0x0D => [0x5C, 0x72]
    | _ =>
      if isPrintable c then [c]
      else if c < 0x100 then 0x5C :: 0x78 :: Json.hexDigits 2 c
      else if c < 0x10000 then 0x5C :: 0x75 :: Json.hexDigits 4 c
      else 0x5C :: 0x55 :: Json.hexDigits 8 c

def literal (t : Text) : Text :=
  let quote := literalQuote t
  quote :: (t.flatMap (literalOne quote) ++ [quote])

end ScriptTree.Text
