import ScriptTree.Lexeme.Basic
import ScriptTree.Location
import ScriptTree.Value.Basic

/-!
Tokens and comments as they are listed: with the name of their kind, their text and, on demand, their
place.
-/

namespace ScriptTree

namespace Position

def toValue (p : Position) : Value :=
  .object "Position" [("line", .ofNat p.line), ("column", .ofInt p.column), ("offset", .null)]

end Position

namespace Location

def toValue (l : Location) (source : Option Text := none) : Value :=
  .object "SourceLocation"
    [("start", l.start.toValue), ("end", l.stop.toValue), ("source", .ofOption .text source)]

end Location

namespace Range

def toValue (r : Range) : Value := .list [.ofNat r.start, .ofNat r.stop]

end Range

structure Entry where
  kind : String
  value : Text
  regex : Option (Text × Text) := none
  range : Option Range := none
  location : Option Location := none
deriving DecidableEq, Repr, Inhabited

namespace Entry

def regexValue (r : Text × Text) : Value :=
  .object "RegExp" [("pattern", .text r.1), ("flags", .text r.2)]

def toValue (e : Entry) : Value :=
  .object "TokenEntry"
    [("type", .ofString e.kind), ("value", .text e.value), ("regex", .ofOption regexValue e.regex),
     ("range", .ofOption Range.toValue e.range), ("loc", .ofOption Location.toValue e.location)]

end Entry

end ScriptTree
