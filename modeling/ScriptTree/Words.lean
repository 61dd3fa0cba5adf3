import ScriptTree.Text.Basic

/-!
Words with a meaning of their own.
-/

namespace ScriptTree.Words

def keywords : List String :=
  ["if", "in", "do", "var", "for", "new", "try", "let", "this", "else", "case", "void", "with",
   "enum", "while", "break", "catch", "throw", "const", "yield", "class", "super", "return",
   "typeof", "delete", "switch", "export", "import", "default", "finally", "extends", "function",
   "continue", "debugger", "instanceof"]

def future : List String := ["enum", "export", "import", "super"]

def strict : List String :=
  ["implements", "interface", "package", "private", "protected", "public", "static", "yield", "let"]

def restricted : List String := ["eval", "arguments"]

def find? (words : List String) (t : Text) : Option String := words.find? fun w => t.is w

def isKeyword (t : Text) : Bool := t.isOneOf keywords

def isFuture (t : Text) : Bool := t.isOneOf future

def isStrict (t : Text) : Bool := t.isOneOf strict

def isRestricted (t : Text) : Bool := t.isOneOf restricted

end ScriptTree.Words
