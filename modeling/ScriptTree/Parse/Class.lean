import ScriptTree.Parse.Function

/-!
Classes. All code in a class is strict.
-/

namespace ScriptTree.Parse

/-- What stands before the value of a member of a class. The token is the one that tells the kind of the
member. -/
structure MemberHead where
  key : Option Node := none
  token : Token
  computed : Bool := false
  isStatic : Bool := false
  isAsync : Bool := false

def staticHead (g : Grammar) (head : MemberHead) (key : Node) : Parse MemberHead := do
  if key.isNamed "static" && (startsPropertyName (← peek) || (← sees "*")) then
    let token ← lookahead
    let computed ← sees "["
    if ← sees "*" then
      skip
      return { head with key := some key, token, computed, isStatic := true }
    else return { head with key := some (← propertyKey g), token, computed, isStatic := true }
  else return { head with key := some key }

def asyncHead (g : Grammar) (head : MemberHead) : Parse MemberHead := do
  let l ← peek
  if head.token.lexeme.isName "async" && !(← get).afterNewLine
      && !(l.valueIs ":" || l.valueIs "(" || l.valueIs "*") then
    let token ← lookahead
    let key ← propertyKey g
    if token.lexeme.isName "constructor" then complainToken token (some .asyncConstructor)
    return { head with key := some key, token, isAsync := true }
  else return head

def memberHead (g : Grammar) : Parse MemberHead := do
  let token ← lookahead
  if ← sees "*" then
    skip
    return { token }
  else
    let computed ← sees "["
    let key ← propertyKey g
    asyncHead g (← staticHead g { token, computed } key)

/-- What a member of a class is, after its head. -/
inductive MemberValue where
  | method (kind : MethodKind) (value : Node)
  | field (value : Option Node)

/-- The value of a member of a class, with its key and whether that is computed. -/
def memberValue (g : Grammar) (start : Mark) (head : MemberHead) :
    Parse (Option (Node × Bool × MemberValue)) := do
  let keyAhead := startsPropertyName (← peek)
  let method : Parse (Option (Node × Bool × MemberValue)) := do
    match head.key with
    | some key =>
      if ← sees "(" then
        let value ← if head.isAsync then asyncMethod g else plainMethod g
        return some (key, head.computed, .method .method value)
      else return none
    | none => return none
  match head.token.lexeme with
  | .identifier name =>
    if keyAhead && name.is "get" then
      let computed ← sees "["
      let key ← propertyKey g
      setContext fun c => { c with allowYield := false }
      return some (key, computed, .method .get (← getter g))
    else if keyAhead && name.is "set" then
      let computed ← sees "["
      let key ← propertyKey g
      return some (key, computed, .method .set (← setter g))
    else if (← options).classProperties && !(← sees "(") then
      let _ ← finish start (.identifier name)
      let value ← if ← sees "=" then do
          skip
          some <$> g.assignment
        else pure none
      match head.key with
      | some key => return some (key, head.computed, .field value)
      | none => return none
    else method
  | .punctuator "*" =>
    if keyAhead then
      let computed ← sees "["
      let key ← propertyKey g
      return some (key, computed, .method .method (← generatorMethod g))
    else method
  | _ => method

def isGenerator (n : Node) : Bool :=
  match n.shape with
  | .functionExpression kind .. | .functionDeclaration kind .. => kind == .generator
  | _ => false

/-- A member of a class. Tells whether the class has a constructor. -/
def classMember (g : Grammar) (hasConstructor : Bool) : Parse (Node × Bool) := do
  let start ← startMark
  let head ← memberHead g
  match ← memberValue g start head with
  | none => rejectAhead
  | some (key, computed, value) =>
    if !computed && head.isStatic && isKey key "prototype" then
      rejectToken head.token (some .staticPrototype)
    let isConstructor := !computed && !head.isStatic && isKey key "constructor"
    match value with
    | .method kind value =>
      if isConstructor then
        if kind != .method || isGenerator value then
          rejectToken head.token (some .accessorConstructor)
        if hasConstructor then rejectToken head.token (some .duplicateConstructor)
      let kind := if isConstructor then .constructor else kind
      let n ← finish start (.methodDefinition key computed value kind head.isStatic)
      return (n, hasConstructor || isConstructor)
    | .field value =>
      if isConstructor then rejectToken head.token (some .accessorConstructor)
      return (← finish start (.fieldDefinition key computed value head.isStatic), hasConstructor)

def classBody (g : Grammar) : Parse Node := do
  let start ← startMark
  expect "\x7b"
  let members ← loop (([], false) : List Node × Bool) fun (found, hasConstructor) => do
    if ← sees "\x7d" then return .done found
    else if ← sees ";" then
      skip
      return .again (found, hasConstructor)
    else
      let (n, hasConstructor) ← classMember g hasConstructor
      return .again (n :: found, hasConstructor)
  expect "\x7d"
  finish start (.classBody members.reverse)

/-- The class that is extended, and the body. -/
def classTail (g : Grammar) : Parse (Option Node × Node) := do
  let superClass ←
    if ← seesWord "extends" then do
      skip
      some <$> isolate g.call
    else pure none
  return (superClass, ← classBody g)

def seesIdentifier : Parse Bool := return match ← peek with
  | .identifier _ => true
  | _ => false

def classDeclaration (g : Grammar) (nameIsOptional : Bool := false) : Parse Node := do
  let start ← startMark
  let before ← context
  setContext fun c => { c with strict := true }
  expectWord "class"
  let id ←
    if nameIsOptional && !(← seesIdentifier) then pure none
    else some <$> bindingName
  let (superClass, body) ← classTail g
  setContext fun c => { c with strict := before.strict }
  finish start (.classDeclaration id superClass body)

def classExpression (g : Grammar) : Parse Node := do
  let start ← startMark
  let before ← context
  setContext fun c => { c with strict := true }
  expectWord "class"
  let id ← if ← seesIdentifier then some <$> bindingName else pure none
  let (superClass, body) ← classTail g
  setContext fun c => { c with strict := before.strict }
  finish start (.classExpression id superClass body)

end ScriptTree.Parse
