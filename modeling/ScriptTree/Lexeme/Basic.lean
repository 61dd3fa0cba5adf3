import ScriptTree.Number.Basic
import ScriptTree.Regex.Basic

/-!
Lexemes and tokens. A lexeme is what a piece of the program stands for, a token is a lexeme with its
place.
-/

namespace ScriptTree

inductive Lexeme where
  | boolean (value : Bool)
  | endOfInput
  | identifier (name : Text)
  | keyword (word : String)
  | null
  /-- A number. Of numbers in base eight it is known whether they are written in the old notation. -/
  | numeric (value : Number) (octal : Option Bool)
  | punctuator (mark : String)
  | string (value : Text) (octal : Bool)
  | regex (pattern flags : Text) (compiled : Option Regex.Pattern)
  | template (raw cooked : Text) (head tail : Bool)
  | jsxIdentifier (name : Text)
  | jsxText (text : Text)
deriving DecidableEq, Repr, Inhabited

namespace Lexeme

def kindName : Lexeme → String
  | .boolean _ => "Boolean"
  | .endOfInput => "<end>"
  | .identifier _ => "Identifier"
  | .keyword _ => "Keyword"
  | .null => "Null"
  | .numeric .. => "Numeric"
  | .punctuator _ => "Punctuator"
  | .string .. => "String"
  | .regex .. => "RegularExpression"
  | .template .. => "Template"
  | .jsxIdentifier _ => "JSXIdentifier"
  | .jsxText _ => "JSXText"

def kindNumber : Lexeme → Nat
  | .boolean _ => 1
  | .endOfInput => 2
  | .identifier _ => 3
  | .keyword _ => 4
  | .null => 5
  | .numeric .. => 6
  | .punctuator _ => 7
  | .string .. => 8
  | .regex .. => 9
  | .template .. => 10
  | .jsxIdentifier _ => 100
  | .jsxText _ => 101

/-- The value of a lexeme: a number or a text. Regular expressions and the end have no text of their
own. -/
def value : Lexeme → Number ⊕ Text
  | .boolean b => .inr (Text.ofString (if b then "true" else "false"))
  | .endOfInput => .inr []
  | .identifier name => .inr name
  | .keyword word => .inr (Text.ofString word)
  | .null => .inr (Text.ofString "null")
  | .numeric n _ => .inl n
  | .punctuator mark => .inr (Text.ofString mark)
  | .string t _ => .inr t
  | .regex .. => .inr []
  | .template raw .. => .inr raw
  | .jsxIdentifier name => .inr name
  | .jsxText t => .inr t

/-- Is the value, of whatever kind, the given text? -/
def valueIs (l : Lexeme) (s : String) : Bool :=
  match l.value with
  | .inr t => t.is s
  | .inl _ => false

/-- The text of the value, unless it is a number with too many digits. -/
def text? (l : Lexeme) : Option Text :=
  match l.value with
  | .inr t => some t
  | .inl n => n.text?

def isMark (l : Lexeme) (mark : String) : Bool :=
  match l with
  | .punctuator m => m == mark
  | _ => false

def isWord (l : Lexeme) (word : String) : Bool :=
  match l with
  | .keyword w => w == word
  | _ => false

def isName (l : Lexeme) (name : String) : Bool :=
  match l with
  | .identifier n => n.is name
  | _ => false

end Lexeme

/-- A lexeme with its place. The line and its start are those at the end of the lexeme. -/
structure Token where
  lexeme : Lexeme
  line : Nat
  lineStart : Nat
  start : Nat
  stop : Nat
deriving DecidableEq, Repr, Inhabited

end ScriptTree
