/-!
Double precision numbers as exact values: a significand of at most 53 bits times a power of two, an
infinity, or no number. Ratios round to the nearest value, halves to the even significand.
-/

namespace ScriptTree

/-- A double precision number. A finite one is `significand * 2 ^ exponent`, where the exponent is at
least `-1074` and the significand has 53 bits unless the exponent is the least one. -/
inductive Binary64 where
  | finite (negative : Bool) (significand : Nat) (exponent : Int)
  | infinity (negative : Bool)
  | notANumber
deriving DecidableEq, Repr, Inhabited

namespace Binary64

def minExponent : Int := -1074

def maxExponent : Int := 971

/-- A quotient rounded to the nearest natural number, halves to the even one. -/
def roundDiv (num den : Nat) : Nat :=
  let q := num / den
  let r := num % den
  if 2 * r > den || (2 * r == den && q % 2 == 1) then q + 1 else q

/-- `num / den * 2 ^ (-e)` as a quotient of natural numbers. -/
def scaled (num den : Nat) (e : Int) : Nat × Nat :=
  if e ≥ 0 then (num, den * Nat.pow 2 e.toNat) else (num * Nat.pow 2 (-e).toNat, den)

/-- The exponent at which the integral part of the quotient has 53 bits, or the least exponent. -/
def exponentFor (num den : Nat) : Int :=
  let guess : Int := (Nat.log2 num : Int) - Nat.log2 den - 52
  let (n, d) := scaled num den guess
  max (if n / d < Nat.pow 2 52 then guess - 1 else guess) minExponent

def ofRatio (negative : Bool) (num den : Nat) : Binary64 :=
  if num == 0 then .finite negative 0 minExponent
  else
    let e := exponentFor num den
    let (n, d) := scaled num den e
    let q := roundDiv n d
    let (m, e) := if q == Nat.pow 2 53 then (Nat.pow 2 52, e + 1) else (q, e)
    if e > maxExponent then .infinity negative else .finite negative m e

/-- The number nearest to `digits * 10 ^ exponent`. Exponents far outside the range of finite numbers
are decided without computing the power. -/
def ofDecimal (negative : Bool) (digits : Nat) (exponent : Int) : Binary64 :=
  if digits == 0 then .finite negative 0 minExponent
  else
    let magnitude : Int := (Nat.toDigits 10 digits).length + exponent
    if magnitude > 310 then .infinity negative
    else if magnitude < -330 then .finite negative 0 minExponent
    else if exponent ≥ 0 then ofRatio negative (digits * Nat.pow 10 exponent.toNat) 1
    else ofRatio negative digits (Nat.pow 10 (-exponent).toNat)

/-- The integer that the number is equal to, if there is one. -/
def toInt? : Binary64 → Option Int
  | .finite negative m e =>
    let magnitude? : Option Nat :=
      if e ≥ 0 then some (m * Nat.pow 2 e.toNat)
      else
        let unit := Nat.pow 2 (-e).toNat
        if m % unit == 0 then some (m / unit) else none
    magnitude?.map fun n => if negative then -(n : Int) else n
  | _ => none

/-- The interchange format: sign, biased exponent and fraction in 64 bits. -/
def toBits : Binary64 → Nat
  | .finite negative m e =>
    let sign := if negative then Nat.pow 2 63 else 0
    if m < Nat.pow 2 52 then sign + m else sign + ((e + 1075).toNat * Nat.pow 2 52) + (m - Nat.pow 2 52)
  | .infinity negative => (if negative then Nat.pow 2 63 else 0) + 0x7FF * Nat.pow 2 52
  | .notANumber => 0x7FF8 * Nat.pow 2 48

end Binary64

end ScriptTree
