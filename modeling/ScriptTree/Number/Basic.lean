import ScriptTree.Number.Shortest
import ScriptTree.Text.Basic

/-!
Number values: integers of any size, and double precision numbers that are no integers. Their text has
the fewest digits that read back, positional from `10 ^ -4` up to `10 ^ 16`.
-/

namespace ScriptTree

inductive Number where
  | integer (value : Int)
  | real (value : Binary64)
deriving DecidableEq, Repr, Inhabited

namespace Number

/-- An integral double precision number is kept as the integer that it is equal to. -/
def ofBinary64 (x : Binary64) : Number :=
  match x.toInt? with
  | some n => .integer n
  | none => .real x

def maxDigits : Nat := 4300

/-- The exponents of ten, least and first excluded, between which numbers are written positionally. -/
def positionalFrom : Int := -4
def positionalBelow : Int := 16

/-- Digits with a point after the first `point` of them, zeros filled in on either side. -/
def positionalText (digits : Text) (point : Int) : Text :=
  let count : Int := digits.length
  if point ≤ 0 then Text.ofString "0." ++ List.replicate (-point).toNat 0x30 ++ digits
  else if point ≥ count then
    digits ++ List.replicate (point - count).toNat 0x30 ++ Text.ofString ".0"
  else digits.take point.toNat ++ 0x2E :: digits.drop point.toNat

/-- Digits with a point after the first of them, and an exponent of at least two digits. -/
def exponentText (digits : Text) (exponent : Int) : Text :=
  let mantissa := match digits with
    | [] => []
    | [d] => [d]
    | d :: rest => d :: 0x2E :: rest
  let magnitude := Text.ofNat exponent.natAbs
  let padded := if magnitude.length < 2 then 0x30 :: magnitude else magnitude
  mantissa ++ 0x65 :: (if exponent < 0 then 0x2D else 0x2B) :: padded

def realText : Binary64 → Text
  | .notANumber => Text.ofString "nan"
  | .infinity negative => Text.ofString (if negative then "-inf" else "inf")
  | .finite negative m e =>
    let magnitude :=
      if m == 0 then Text.ofString "0.0"
      else
        let d := Binary64.shortest m e
        let digits := Text.ofNat d.digits
        let exponent := d.exponent + digits.length - 1
        if positionalFrom ≤ exponent && exponent < positionalBelow then
          positionalText digits (exponent + 1)
        else exponentText digits exponent
    if negative then 0x2D :: magnitude else magnitude

/-- The text of a number, if it has one. -/
def text? : Number → Option Text
  | .integer n =>
    let t := Text.ofNat n.natAbs
    if t.length > maxDigits then none else some (if n < 0 then 0x2D :: t else t)
  | .real x => some (realText x)

end Number

end ScriptTree
