import ScriptTree.Failure
import ScriptTree.Json.Basic
import ScriptTree.Text.Digit

/-!
Reading JSON. A reader takes a value from the front of a text and returns it with the rest. Besides the
standard's grammar the names `NaN`, `Infinity` and `-Infinity` are numbers, escaped surrogate pairs are
joined, and of members with one name the last value counts.
-/

namespace ScriptTree.Json

def skipBlanks : Text → Text
  | [] => []
  | c :: rest => if c == 0x20 || c == 0x09 || c == 0x0A || c == 0x0D then skipBlanks rest else c :: rest

def readUnit : Text → Except Failure (Nat × Text)
  | a :: b :: c :: d :: rest =>
    if [a, b, c, d].all Text.isHexDigit then .ok (Text.positional 16 [a, b, c, d], rest)
    else .error .badJson
  | _ => .error .badJson

def simpleEscape? : Nat → Option Nat
  | 0x22 => some 0x22
  | 0x5C => some 0x5C
  | 0x2F => some 0x2F
  | 0x62 => some 0x08
  | 0x66 => some 0x0C
  | 0x6E => some 0x0A
  | 0x72 => some 0x0D
  | 0x74 => some 0x09
  | _ => none

/-- An escape of four hexadecimal digits, joined with a following one to a surrogate pair if the two are
its halves. -/
def readUnitEscape (t : Text) : Except Failure (Nat × Text) := do
  let (high, rest) ← readUnit t
  if 0xD800 ≤ high && high ≤ 0xDBFF then
    match rest with
    | 0x5C :: 0x75 :: rest' =>
      match readUnit rest' with
      | .ok (low, rest'') =>
        if 0xDC00 ≤ low && low ≤ 0xDFFF then
          return (0x10000 + (high - 0xD800) * 0x400 + (low - 0xDC00), rest'')
        else return (high, rest)
      | .error e => .error e
    | _ => return (high, rest)
  else return (high, rest)

def readString (fuel : Nat) (reversed : Text) (t : Text) : Except Failure (Text × Text) :=
  match fuel, t with
  | 0, _ => .error .exhausted
  | _, [] => .error .badJson
  | fuel + 1, c :: rest =>
    if c == 0x22 then .ok (reversed.reverse, rest)
    else if c == 0x5C then
      match rest with
      | [] => .error .badJson
      | 0x75 :: rest => do
        let (value, rest) ← readUnitEscape rest
        readString fuel (value :: reversed) rest
      | e :: rest =>
        match simpleEscape? e with
        | some value => readString fuel (value :: reversed) rest
        | none => .error .badJson
    else if c < 0x20 then .error .badJson
    else readString fuel (c :: reversed) rest

/-- A number: an optional sign, an integral part without superfluous zeros, and an optional fraction and
exponent, which make it a real number. -/
def readNumber (t : Text) : Except Failure (Number × Text) :=
  let (negative, digits) := match t with
    | 0x2D :: rest => (true, rest)
    | _ => (false, t)
  let whole := match digits with
    | 0x30 :: _ => [0x30]
    | _ => digits.takeWhile Text.isDecimalDigit
  let rest := digits.drop whole.length
  if whole.isEmpty then .error .badJson
  else
    let fraction := match rest with
      | 0x2E :: more => more.takeWhile Text.isDecimalDigit
      | _ => []
    let rest := if fraction.isEmpty then rest else rest.drop (fraction.length + 1)
    let (sign, power) := match rest with
      | e :: s :: more =>
        if e == 0x65 || e == 0x45 then
          if s == 0x2B || s == 0x2D then ([s], more.takeWhile Text.isDecimalDigit)
          else ([], (s :: more).takeWhile Text.isDecimalDigit)
        else ([], [])
      | _ => ([], [])
    let rest := if power.isEmpty then rest else rest.drop (1 + sign.length + power.length)
    if fraction.isEmpty && power.isEmpty then
      if whole.length > Number.maxDigits then .error .tooManyDigits
      else
        let value : Int := Text.positional 10 whole
        .ok (.integer (if negative then -value else value), rest)
    else
      let power' : Int := Text.positional 10 power
      let exponent := (if sign == [0x2D] then -power' else power') - fraction.length
      .ok (.real (.ofDecimal negative (Text.positional 10 (whole ++ fraction)) exponent), rest)

def afterWord? (word : String) (t : Text) : Option Text :=
  let w := Text.ofString word
  if w.isPrefixOf t then some (t.drop w.length) else none

def namedValues : List (String × Json) :=
  [("null", .null), ("true", .bool true), ("false", .bool false),
   ("NaN", .number (.real .notANumber)), ("Infinity", .number (.real (.infinity false))),
   ("-Infinity", .number (.real (.infinity true)))]

def readScalar (t : Text) : Except Failure (Json × Text) :=
  match namedValues.findSome? fun (word, value) => (afterWord? word t).map (value, ·) with
  | some found => .ok found
  | none => do
    let (n, rest) ← readNumber t
    return (.number n, rest)

mutual

def readValue (fuel : Nat) (t : Text) : Except Failure (Json × Text) :=
  match fuel with
  | 0 => .error .exhausted
  | fuel + 1 =>
    match t with
    | 0x22 :: rest => do
      let (value, rest) ← readString (rest.length + 1) [] rest
      return (.string value, rest)
    | 0x5B :: rest =>
      match skipBlanks rest with
      | 0x5D :: rest => .ok (.array [], rest)
      | rest => do
        let (items, rest) ← readItems fuel [] rest
        return (.array items, rest)
    | 0x7B :: rest =>
      match skipBlanks rest with
      | 0x7D :: rest => .ok (.object [], rest)
      | rest => do
        let (members, rest) ← readMembers fuel [] rest
        return (.object members, rest)
    | _ => readScalar t

def readItems (fuel : Nat) (reversed : List Json) (t : Text) : Except Failure (List Json × Text) :=
  match fuel with
  | 0 => .error .exhausted
  | fuel + 1 => do
    let (item, rest) ← readValue fuel t
    match skipBlanks rest with
    | 0x2C :: rest => readItems fuel (item :: reversed) (skipBlanks rest)
    | 0x5D :: rest => return ((item :: reversed).reverse, rest)
    | _ => .error .badJson

def readMembers (fuel : Nat) (known : List (Text × Json)) (t : Text) :
    Except Failure (List (Text × Json) × Text) :=
  match fuel with
  | 0 => .error .exhausted
  | fuel + 1 =>
    match t with
    | 0x22 :: rest => do
      let (name, rest) ← readString (rest.length + 1) [] rest
      match skipBlanks rest with
      | 0x3A :: rest => do
        let (value, rest) ← readValue fuel (skipBlanks rest)
        let known := Table.set name value known
        match skipBlanks rest with
        | 0x2C :: rest => readMembers fuel known (skipBlanks rest)
        | 0x7D :: rest => return (known, rest)
        | _ => .error .badJson
      | _ => .error .badJson
    | _ => .error .badJson

end

/-- The value that a whole text stands for. Each step takes a character, so twice the length and a bit
is enough for all of them. -/
def read (t : Text) : Except Failure Json := do
  let (value, rest) ← readValue (2 * t.length + 2) (skipBlanks t)
  if (skipBlanks rest).isEmpty then return value else .error .badJson

end ScriptTree.Json
