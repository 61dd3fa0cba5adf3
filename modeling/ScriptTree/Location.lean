/-!
Places in a program by line and column, and by offset.
-/

namespace ScriptTree

structure Position where
  line : Nat
  column : Int
deriving DecidableEq, Repr, Inhabited

structure Location where
  start : Position
  stop : Position
deriving DecidableEq, Repr, Inhabited

structure Range where
  start : Nat
  stop : Nat
deriving DecidableEq, Repr, Inhabited

end ScriptTree
