import ScriptTree.Text.Basic

/-!
Texts as bytes.
-/

namespace ScriptTree.Text

def ofUtf8? (bytes : ByteArray) : Option Text := (String.fromUTF8? bytes).map ofString

/-- The text in UTF-8, if no surrogate is in it. -/
def toUtf8? (t : Text) : Option ByteArray := t.toString?.map String.toUTF8

/-- The text read after `reversed`, with every line ended by a single line feed. -/
def unifyLineEndsAfter (reversed : Text) : Text → Text
  | 0xD :: 0xA :: rest => unifyLineEndsAfter (0xA :: reversed) rest
  | 0xD :: rest => unifyLineEndsAfter (0xA :: reversed) rest
  | c :: rest => unifyLineEndsAfter (c :: reversed) rest
  | [] => reversed.reverse

def unifyLineEnds (t : Text) : Text := unifyLineEndsAfter [] t

end ScriptTree.Text
