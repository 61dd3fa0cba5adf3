import ScriptTree.Text.Basic
import ScriptTree.Text.Blank
import ScriptTree.Text.Identifier

/-!
Names and numbers of groups in a regular expression.
-/

namespace ScriptTree.Regex

/-- Letters that no group name starts with, since their compatibility forms are not names. -/
def notNameStart : List Nat :=
  [0x37A, 0xE33, 0xEB3, 0x2E2F, 0xFC5E, 0xFC5F, 0xFC60, 0xFC61, 0xFC62, 0xFC63, 0xFDFA, 0xFDFB,
   0xFE70, 0xFE72, 0xFE74, 0xFE76, 0xFE78, 0xFE7A, 0xFE7C, 0xFE7E, 0xFF9E, 0xFF9F]

/-- Letters that stand nowhere in a group name, since their compatibility forms are not names. -/
def notNamePart : List Nat :=
  [0x37A, 0x2E2F, 0xFC5E, 0xFC5F, 0xFC60, 0xFC61, 0xFC62, 0xFC63, 0xFDFA, 0xFDFB, 0xFE70, 0xFE72,
   0xFE74, 0xFE76, 0xFE78, 0xFE7A, 0xFE7C, 0xFE7E]

def isNameStart (c : Nat) : Bool :=
  (Text.isLetter c && !notNameStart.contains c) || c == 0x5F || [0x1885, 0x1886, 0x2118, 0x212E].contains c

def isNamePart (c : Nat) : Bool :=
  Text.isIdentifierPart c && !notNamePart.contains c
    && !(List.contains [0x24, 0x5C, 0x200C, 0x200D, 0x309B, 0x309C] c)

def isGroupName : Text → Bool
  | [] => false
  | c :: rest => isNameStart c && rest.all isNamePart

/-- The value of a decimal digit of any script. The digits of a script follow each other in rows of
ten. -/
def anyDigitValue (c : Nat) : Nat :=
  match Text.decimalRanges.find? fun r => r.1 ≤ c && c ≤ r.2 with
  | some r => (c - r.1) % 10
  | none => 0

def groupedDigits? : Text → Option (List Nat)
  | [] => none
  | [c] => if Text.isAnyDigit c then some [anyDigitValue c] else none
  | c :: 0x5F :: rest =>
    if Text.isAnyDigit c then (groupedDigits? rest).map (anyDigitValue c :: ·) else none
  | c :: rest =>
    if Text.isAnyDigit c then (groupedDigits? rest).map (anyDigitValue c :: ·) else none

def trimBlanks (t : Text) : Text :=
  ((t.dropWhile Text.isBlank).reverse.dropWhile Text.isBlank).reverse

def groupNumber? (t : Text) : Option Nat :=
  let digits := match trimBlanks t with
    | 0x2B :: rest => rest
    | other => other
  (groupedDigits? digits).map fun ds => ds.foldl (fun n d => n * 10 + d) 0

end ScriptTree.Regex
