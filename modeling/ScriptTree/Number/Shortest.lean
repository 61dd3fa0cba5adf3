import ScriptTree.Number.Binary64

/-!
The shortest decimal that rounds to a given double precision number, and of those the nearest.
-/

namespace ScriptTree.Binary64

/-- A decimal `digits * 10 ^ exponent`. -/
structure Decimal where
  digits : Nat
  exponent : Int
deriving DecidableEq, Repr, Inhabited

/-- The reals that round to `m * 2 ^ e`, as quotients of natural numbers over one denominator. The ends
belong to the interval if the significand is even. -/
structure Interval where
  low : Nat
  value : Nat
  high : Nat
  den : Nat
  closed : Bool

/-- The interval of `m * 2 ^ e`. Below a power of two the neighbour is half as far. -/
def interval (m : Nat) (e : Int) : Interval :=
  let narrow := m == Nat.pow 2 52 && e > minExponent
  let (unit, den) := if e ≥ 0 then (Nat.pow 2 e.toNat, 4) else (1, 4 * Nat.pow 2 (-e).toNat)
  { low := (4 * m - (if narrow then 1 else 2)) * unit
    value := 4 * m * unit
    high := (4 * m + 2) * unit
    den := den
    closed := m % 2 == 0 }

/-- Is `n * 10 ^ k` inside the interval? -/
def Interval.has (i : Interval) (n : Nat) (k : Int) : Bool :=
  let (p, q) := if k ≥ 0 then (n * Nat.pow 10 k.toNat * i.den, 1) else (n * i.den, Nat.pow 10 (-k).toNat)
  if i.closed then i.low * q ≤ p && p ≤ i.high * q else i.low * q < p && p < i.high * q

/-- The value of the interval in units of `10 ^ k`, rounded down. -/
def Interval.floorAt (i : Interval) (k : Int) : Nat :=
  if k ≥ 0 then i.value / (i.den * Nat.pow 10 k.toNat) else i.value * Nat.pow 10 (-k).toNat / i.den

/-- Is the value at least as near to `n` as to `n + 1` units of `10 ^ k`? A tie goes to the even one. -/
def Interval.prefersLower (i : Interval) (n : Nat) (k : Int) : Bool :=
  let (twice, unit) :=
    if k ≥ 0 then (2 * i.value, i.den * Nat.pow 10 k.toNat) else (2 * i.value * Nat.pow 10 (-k).toNat, i.den)
  let middle := (2 * n + 1) * unit
  twice < middle || (twice == middle && n % 2 == 0)

/-- The number of digits before the point of the interval's value, or minus the zeros after it. -/
def Interval.magnitude (i : Interval) : Int :=
  if i.value ≥ i.den then (Nat.toDigits 10 (i.value / i.den)).length
  else 1 - ((Nat.toDigits 10 ((i.den - 1) / i.value)).length : Int)

/-- A decimal on the grid of `count` digits that lies in the interval. -/
def Interval.onGrid? (i : Interval) (count : Nat) : Option Decimal :=
  let k := i.magnitude - count
  let n := i.floorAt k
  match i.has n k && n != 0, i.has (n + 1) k with
  | true, true => some ⟨if i.prefersLower n k then n else n + 1, k⟩
  | true, false => some ⟨n, k⟩
  | false, true => some ⟨n + 1, k⟩
  | false, false => none

def Decimal.trim (fuel : Nat) (d : Decimal) : Decimal :=
  match fuel with
  | 0 => d
  | fuel + 1 =>
    if d.digits != 0 && d.digits % 10 == 0 then trim fuel ⟨d.digits / 10, d.exponent + 1⟩ else d

/-- The shortest decimal in the interval of a positive number. Seventeen digits always suffice. -/
def shortest (m : Nat) (e : Int) : Decimal :=
  let i := interval m e
  let counts := (List.range 17).map (· + 1)
  match counts.findSome? i.onGrid? with
  | some d => d.trim 20
  | none => ⟨i.value / i.den, 0⟩

end ScriptTree.Binary64
