import ScriptTree.Text.Basic

/-!
Ways in which an operation can end without a result.
-/

namespace ScriptTree

structure SyntaxError where
  index : Int
  line : Int
  column : Int
  description : Text
deriving DecidableEq, Repr, Inhabited

namespace SyntaxError

def message (e : SyntaxError) : Text :=
  Text.ofString "Line " ++ Text.ofInt e.line ++ Text.ofString ": " ++ e.description

def summary (e : SyntaxError) : Text := Text.ofString "Error: " ++ e.message

end SyntaxError

inductive Failure where
  /-- The program is rejected. -/
  | rejected (error : SyntaxError)
  /-- A promise of the caller is broken. -/
  | broken (promise : String)
  /-- The source was read after its end mark. -/
  | pastEnd
  /-- The tokens before a slash do not reach back far enough. -/
  | shortHistory
  /-- The lists of pending comments are out of step. -/
  | unevenComments
  /-- A list or a text has no such member. -/
  | noSuchMember
  /-- A character reference names no code point. -/
  | noSuchCodePoint
  /-- A character reference names a number that is no machine word. -/
  | hugeCodePoint
  /-- A number has more digits than are written or read. -/
  | tooManyDigits
  /-- A number has no digits. -/
  | noDigits
  /-- A table has no entry for a character. -/
  | noEntry
  /-- Values of these kinds do not go together. -/
  | mismatch
  /-- A value has no such part. -/
  | noSuchPart
  /-- The bytes of a file are no text. -/
  | badEncoding
  /-- A text is no JSON. -/
  | badJson
  /-- A path leads to nothing. -/
  | noSuchFile
  /-- A path leads to a directory in place of a file. -/
  | isDirectory
  /-- A path goes through a file. -/
  | notDirectory
  /-- A value contains itself. -/
  | cyclic
  /-- There is no standard input to read from. -/
  | noInput
  /-- The number of steps given in advance was too small. -/
  | exhausted
deriving DecidableEq, Repr, Inhabited

end ScriptTree
