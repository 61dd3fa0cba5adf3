import ScriptTree.Regex.Basic
import ScriptTree.Text.Literal

/-!
The text of a regular expression: how it would be compiled. Of a long pattern only the start is shown.
-/

namespace ScriptTree.Regex

/-- The names of the flags that are set, in their fixed order. -/
def Flags.names (f : Flags) : List String :=
  [(f.template, "TEMPLATE"), (f.ignoreCase, "IGNORECASE"), (f.locale, "LOCALE"),
   (f.multiLine, "MULTILINE"), (f.dotAll, "DOTALL"), (f.verbose, "VERBOSE"), (f.ascii, "ASCII")].filterMap
    fun (isSet, name) => if isSet then some name else none

def shownLength : Nat := 200

def Pattern.text (p : Pattern) : Text :=
  let flags := p.flags.names.map fun name => Text.ofString ("re." ++ name)
  Text.ofString "re.compile(" ++ (Text.literal p.source).take shownLength
    ++ (if flags.isEmpty then [] else Text.ofString ", " ++ Text.join [0x7C] flags) ++ Text.ofString ")"

end ScriptTree.Regex
