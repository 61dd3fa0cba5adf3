import ScriptTree.Text.Basic

/-!
Program texts with access by offset. Behind its last character a text has an end mark, a null
character, so that one character can be looked at ahead everywhere.
-/

namespace ScriptTree

structure Source where
  chars : Array Nat
deriving Inhabited

namespace Source

def ofText (t : Text) : Source := ⟨t.toArray⟩

def length (s : Source) : Nat := s.chars.size

/-- The code point at an offset, the end mark included. -/
def at? (s : Source) (i : Nat) : Option Nat :=
  if i == s.length then some 0 else s.chars[i]?

def slice (s : Source) (start stop : Nat) : Text :=
  ((s.chars.extract start stop).toList) ++
    (if start ≤ s.length && s.length < stop then [0] else [])

def hasAt (s : Source) (i : Nat) (word : String) : Bool :=
  s.slice i (i + word.length) == Text.ofString word

end Source

end ScriptTree
