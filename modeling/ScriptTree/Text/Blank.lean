import ScriptTree.Text.Ranges

/-!
Blank characters: the white space and line terminators of the language, and the wider class of blanks
that text searches skip.
-/

namespace ScriptTree.Text

/-- The white space characters of the language, line terminators excluded. -/
def isWhiteSpace (c : Nat) : Bool :=
  inRanges c
    [(0x9, 0x9), (0xB, 0xC), (0x20, 0x20), (0xA0, 0xA0), (0x1680, 0x1680), (0x180E, 0x180E),
     (0x2000, 0x200A), (0x202F, 0x202F), (0x205F, 0x205F), (0x3000, 0x3000), (0xFEFF, 0xFEFF)]

/-- Line feed, carriage return, line separator and paragraph separator. -/
def isLineTerminator (c : Nat) : Bool :=
  c == 0xA || c == 0xD || c == 0x2028 || c == 0x2029

/-- Blanks in the sense of text searches: separators and the controls that act as such. -/
def isBlank (c : Nat) : Bool :=
  inRanges c
    [(0x9, 0xD), (0x1C, 0x20), (0x85, 0x85), (0xA0, 0xA0), (0x1680, 0x1680), (0x2000, 0x200A),
     (0x2028, 0x2029), (0x202F, 0x202F), (0x205F, 0x205F), (0x3000, 0x3000)]

end ScriptTree.Text
