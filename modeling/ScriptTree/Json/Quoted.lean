import ScriptTree.Text.Basic

/-!
Quoted texts in ASCII. Everything outside the printable ASCII characters is written as an escape of four
hexadecimal digits, code points above `FFFF` as two of them.
-/

namespace ScriptTree.Json

def hexDigit (n : Nat) : Nat := if n < 10 then 0x30 + n else 0x57 + n

/-- Hexadecimal digits of a number, padded with zeros to a width. -/
def hexDigits (width : Nat) (n : Nat) : Text :=
  match width with
  | 0 => []
  | width + 1 => hexDigits width (n / 16) ++ [hexDigit (n % 16)]

def unitEscape (unit : Nat) : Text := 0x5C :: 0x75 :: hexDigits 4 unit

def quoteOne (c : Nat) : Text :=
  match c with
  | 0x22 => [0x5C, 0x22]
  | 0x5C => [0x5C, 0x5C]
  | 0x0A => [0x5C, 0x6E]
  | 0x0D => [0x5C, 0x72]
  | 0x09 => [0x5C, 0x74]
  | 0x0C => [0x5C, 0x66]
  | 0x08 => [0x5C, 0x62]
  | _ =>
    if 0x20 ≤ c && c ≤ 0x7E then [c]
    else if c ≤ 0xFFFF then unitEscape c
    else
      let v := c - 0x10000
      unitEscape (0xD800 + v / 0x400) ++ unitEscape (0xDC00 + v % 0x400)

def quote (t : Text) : Text := 0x22 :: (t.flatMap quoteOne ++ [0x22])

end ScriptTree.Json
