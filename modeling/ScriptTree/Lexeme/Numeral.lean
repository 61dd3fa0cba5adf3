import ScriptTree.Lexeme.Scan
import ScriptTree.Text.Identifier

/-!
Number literals. Those in a base other than ten have their exact value, decimal ones that of the nearest
double precision number.
-/

namespace ScriptTree.Scan

def endNumber : Scan Unit := do
  if Text.isIdentifierStart (← here) then reject

def hexNumber (start : Nat) : Scan Token := do
  let digits ← takeWhile Text.isHexDigit (← ahead)
  if digits.isEmpty then reject
  endNumber
  token start (.numeric (.integer (Text.positional 16 digits)) none)

def binaryNumber (start : Nat) : Scan Token := do
  let digits ← takeWhile (fun c => c == 0x30 || c == 0x31) (← ahead)
  if digits.isEmpty then reject
  unless ← atEnd do
    let c ← here
    if Text.isIdentifierStart c || Text.isDecimalDigit c then reject
  token start (.numeric (.integer (Text.positional 2 digits)) none)

/-- The rest of an octal number after its zero. The character at the cursor is a digit in the old
notation, and a letter in the new one. -/
def octalNumber (letter : Nat) (start : Nat) : Scan Token := do
  let old := Text.isOctalDigit letter
  let first ← if old then (do return [← here]) else pure []
  advance 1
  let digits := first ++ (← takeWhile Text.isOctalDigit (← ahead))
  if digits.isEmpty then reject
  let c ← here
  if Text.isIdentifierStart c || Text.isDecimalDigit c then reject
  token start (.numeric (.integer (Text.positional 8 digits)) (some old))

def isOldOctal : Scan Bool := do
  let digits := (← read).source.slice ((← index) + 1) (← read).source.length
  match digits.dropWhile Text.isOctalDigit |>.head? with
  | some c => return c != 0x38 && c != 0x39
  | none => return true

/-- The digits of an exponent with its sign, after its letter. -/
def exponent : Scan Int := do
  let sign ← here
  if sign == 0x2B || sign == 0x2D then advance 1
  let digits ← takeWhile Text.isDecimalDigit ((← ahead) + 1)
  if digits.isEmpty then reject
  let value : Int := Text.positional 10 digits
  return if sign == 0x2D then -value else value

def decimalNumber (start : Nat) (whole : Text) : Scan Token := do
  let fraction ←
    if (← here) == 0x2E then
      advance 1
      takeWhile Text.isDecimalDigit ((← ahead) + 1)
    else pure []
  let power ←
    if (← here) == 0x65 || (← here) == 0x45 then
      advance 1
      exponent
    else pure 0
  endNumber
  let digits := whole ++ fraction
  if digits.isEmpty then throw .noDigits
  let value := Binary64.ofDecimal false (Text.positional 10 digits) (power - fraction.length)
  token start (.numeric (.ofBinary64 value) none)

def numeral : Scan Token := do
  let start ← index
  let c ← here
  unless Text.isDecimalDigit c || c == 0x2E do
    throw (.broken "Numeric literal must start with a decimal digit or a decimal point")
  if c == 0x2E then decimalNumber start []
  else
    advance 1
    let d ← here
    if c == 0x30 && (d == 0x78 || d == 0x58) then
      advance 1
      hexNumber start
    else if c == 0x30 && (d == 0x62 || d == 0x42) then
      advance 1
      binaryNumber start
    else if c == 0x30 && (d == 0x6F || d == 0x4F) then octalNumber d start
    else if ← pure (c == 0x30 && Text.isOctalDigit d) <&&> isOldOctal then octalNumber d start
    else
      let more ← takeWhile Text.isDecimalDigit ((← ahead) + 1)
      decimalNumber start (c :: more)

end ScriptTree.Scan
