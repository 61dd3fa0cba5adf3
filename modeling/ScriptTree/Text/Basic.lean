/-!
Texts as sequences of code points. Program sources may hold lone surrogates, which no `String` can,
so texts are kept apart from `String` and offsets count code points.
-/

namespace ScriptTree

/-- A sequence of code points, surrogates included. -/
abbrev Text := List Nat

namespace Text

def ofString (s : String) : Text := s.toList.map Char.toNat

instance : Coe String Text := ⟨ofString⟩

def isSurrogate (c : Nat) : Bool := 0xD800 ≤ c && c ≤ 0xDFFF

/-- The string with these code points, if no surrogate is among them. -/
def toString? (t : Text) : Option String :=
  if t.any isSurrogate then none else some (String.ofList (t.map Char.ofNat))

@[inline] def is (t : Text) (s : String) : Bool := t == ofString s

def isOneOf (t : Text) (words : List String) : Bool := words.any fun w => t.is w

def ofNat (n : Nat) : Text := (Nat.toDigits 10 n).map Char.toNat

/-- The decimal digits of an integer, with a minus sign if it is negative. -/
def ofInt (n : Int) : Text := if n < 0 then 0x2D :: ofNat n.natAbs else ofNat n.natAbs

/-- The texts one after the other, with a separator between neighbours. -/
def join (separator : Text) (parts : List Text) : Text := separator.intercalate parts

def replaceFirst (piece replacement : Text) : Text → Text
  | [] => if piece.isEmpty then replacement else []
  | c :: rest =>
    if piece.isPrefixOf (c :: rest) then replacement ++ (c :: rest).drop piece.length
    else c :: replaceFirst piece replacement rest

def find? (c : Nat) (t : Text) : Option Nat := t.findIdx? (· == c)

def occursIn (piece : Text) : Text → Bool
  | [] => piece.isEmpty
  | c :: rest => piece.isPrefixOf (c :: rest) || occursIn piece rest

/-- The part of a text from one offset up to another, cut at its end. -/
def slice (t : Text) (start stop : Nat) : Text := (t.take stop).drop start

/-- The pieces read so far, last first, with what is read after the beginning of the next piece. -/
def splitAfter (mark : Nat) (pieces : List Text) (piece : Text) : Text → List Text
  | [] => (piece.reverse :: pieces).reverse
  | c :: rest =>
    if c == mark then splitAfter mark (piece.reverse :: pieces) [] rest
    else splitAfter mark pieces (c :: piece) rest

def split (mark : Nat) (t : Text) : List Text := splitAfter mark [] [] t

end Text

end ScriptTree
