import ScriptTree.Parse.Step

/-!
The rules of the grammar that refer to each other. A rule is defined over a grammar, whose members it
calls for the parts of what it reads.
-/

namespace ScriptTree.Parse

structure Grammar where
  assignment : Parse Node
  /-- An operand of a binary operator, after the operators in front of it. -/
  unary : Parse Node
  power : Parse Node
  /-- An expression with the calls and members after it. -/
  call : Parse Node
  /-- What stands after the word for a new object: members, but no calls. -/
  callee : Parse Node
  /-- A name or a pattern in a declaration, and the tokens of the names that it binds. -/
  pattern : Option DeclarationKind → Parse (Node × List Token)
  statement : Parse Node
  item : Parse Node
  element : Parse Node

namespace Grammar

def empty : Grammar where
  assignment := throw .exhausted
  unary := throw .exhausted
  power := throw .exhausted
  call := throw .exhausted
  callee := throw .exhausted
  pattern _ := throw .exhausted
  statement := throw .exhausted
  item := throw .exhausted
  element := throw .exhausted

end Grammar

def expression (g : Grammar) : Parse Node := do
  let start ← lookahead
  let first ← isolate g.assignment
  if ← sees "," then
    let more ← loop [] fun found => do
      if !(← sees ",") then return .done found
      skip
      return .again ((← isolate g.assignment) :: found)
    finish (tokenMark start) (.sequenceExpression (first :: more.reverse))
  else return first

/-- Is the token a name, reserved or not? -/
def isNameToken : Lexeme → Bool
  | .identifier _ | .keyword _ | .boolean _ | .null => true
  | _ => false

/-- The text of a token that is a name, reserved or not. -/
def nameText (l : Lexeme) : Text :=
  match l.value with
  | .inr t => t
  | .inl _ => []

/-- A name, reserved or not. -/
def anyName : Parse Node := do
  let start ← startMark
  let t ← next
  unless isNameToken t.lexeme do rejectToken t
  finish start (.identifier (nameText t.lexeme))

/-- A name that is bound in a declaration of a kind, or used as one. -/
def bindingName (kind : Option DeclarationKind := none) : Parse Node := do
  let start ← startMark
  let t ← next
  let c ← context
  match t.lexeme with
  | .keyword "yield" =>
    if c.strict then complainToken t (some .strictReservedWord)
    else if !c.allowYield then rejectToken t
  | .identifier name =>
    if (c.isModule || c.allowAwait) && name.is "await" then complainToken t
  | l =>
    let isStrictWord := match l with
      | .keyword word => Words.isStrict word
      | _ => false
    if c.strict && isStrictWord then complainToken t (some .strictReservedWord)
    else if c.strict || !l.valueIs "let" || kind != some .var then rejectToken t
  finish start (.identifier (nameText t.lexeme))

def startsPropertyName : Lexeme → Bool
  | .identifier _ | .string .. | .boolean _ | .null | .numeric .. | .keyword _ => true
  | .punctuator mark => mark == "["
  | _ => false

def isOctal : Lexeme → Bool
  | .numeric _ octal => octal == some true
  | .string _ octal => octal
  | _ => false

def literalOf : Lexeme → Literal
  | .numeric n _ => .number n
  | .string t _ => .string t
  | .boolean b => .boolean b
  | _ => .null

def propertyKey (g : Grammar) : Parse Node := do
  let start ← startMark
  let t ← next
  match t.lexeme with
  | .string .. | .numeric .. =>
    if (← context).strict && isOctal t.lexeme then complainToken t (some .strictOctal)
    finish start (.literal (literalOf t.lexeme) (← rawText t))
  | .identifier _ | .boolean _ | .null | .keyword _ => finish start (.identifier (nameText t.lexeme))
  | .punctuator "[" =>
    let key ← isolate g.assignment
    expect "]"
    return key
  | _ => rejectToken t

def isKey (key : Node) (name : String) : Bool :=
  match key.shape with
  | .identifier t => t.is name
  | .literal (.string t) _ => t.is name
  | _ => false

def seesAsyncFunction : Parse Bool := do
  if !(← seesName "async") then return false
  let line := (← get).cursor.line
  let t ← peekNext
  return line == t.line && t.lexeme.isWord "function"

def seesImportCall : Parse Bool := do
  if !(← seesWord "import") then return false
  return (← peekNext).lexeme.isMark "("

end ScriptTree.Parse
