import ScriptTree.Parse.Class

/-!
Statements and declarations of variables.
-/

namespace ScriptTree.Parse

def block (g : Grammar) : Parse Node := do
  let start ← startMark
  expect "\x7b"
  let items ← until' (sees "\x7d") g.item
  expect "\x7d"
  finish start (.blockStatement items)

/-! ## Variables -/

def checkVariableName (id : Node) : Parse Unit := do
  if (← context).strict then
    if let .identifier name := id.shape then
      if Words.isRestricted name then complain .strictVariableName

/-- A variable whose scope is a block. A constant needs a value, unless it runs over values. -/
def lexicalBinding (g : Grammar) (kind : DeclarationKind) (inFor : Bool) : Parse Node := do
  let start ← startMark
  let (id, _) ← g.pattern (some kind)
  checkVariableName id
  let init ←
    if kind == .const then
      if (← seesWord "in") || (← seesName "of") then pure none
      else if ← sees "=" then do
        skip
        some <$> isolate g.assignment
      else reject .missingInitializer ["const"]
    else if (!inFor && !id.isIdentifier) || (← sees "=") then do
      expect "="
      some <$> isolate g.assignment
    else pure none
  finish start (.variableDeclarator id init)

def separated (item : Parse Node) : Parse (List Node) := do
  let first ← item
  let more ← loop ([] : List Node) fun found => do
    if ← sees "," then
      skip
      return .again ((← item) :: found)
    else return .done found
  return first :: more.reverse

def seesLexicalDeclaration : Parse Bool := do
  match (← peekNext).lexeme with
  | .identifier _ => return true
  | .punctuator mark => return mark == "[" || mark == "\x7b"
  | .keyword word => return word == "let" || word == "yield"
  | _ => return false

def lexicalKind? : Lexeme → Option DeclarationKind
  | .keyword "let" => some .let'
  | .keyword "const" => some .const
  | _ => none

def lexicalDeclaration (g : Grammar) : Parse Node := do
  let start ← startMark
  match lexicalKind? (← next).lexeme with
  | some kind =>
    let declarations ← separated (lexicalBinding g kind false)
    semicolon
    finish start (.variableDeclaration declarations kind)
  | none => throw (.broken "Lexical declaration must be either or const")

def variableBinding (g : Grammar) (inFor : Bool) : Parse Node := do
  let start ← startMark
  let (id, _) ← g.pattern (some .var)
  checkVariableName id
  let init ←
    if ← sees "=" then do
      skip
      some <$> isolate g.assignment
    else do
      if !id.isIdentifier && !inFor then expect "="
      pure none
  finish start (.variableDeclarator id init)

def variableStatement (g : Grammar) : Parse Node := do
  let start ← startMark
  expectWord "var"
  let declarations ← separated (variableBinding g false)
  semicolon
  finish start (.variableDeclaration declarations .var)

/-! ## Simple statements -/

def emptyStatement : Parse Node := do
  let start ← startMark
  expect ";"
  finish start .emptyStatement

def expressionStatement (g : Grammar) : Parse Node := do
  let start ← startMark
  let e ← expression g
  semicolon
  finish start (.expressionStatement e)

/-- The end of the head of a statement. A tolerant parse goes on without it and without the body. -/
def withBody {α : Type} (missing : Parse α) (body : Parse α) : Parse α := do
  if !(← sees ")") && (← options).tolerant then
    complainToken (← next)
    missing
  else
    expect ")"
    body

def missingStatement : Parse Node := do finish (← startMark) .emptyStatement

def branch (g : Grammar) : Parse Node := do
  if (← context).strict && (← seesWord "function") then complain .strictFunction
  g.statement

def ifStatement (g : Grammar) : Parse Node := do
  let start ← startMark
  expectWord "if"
  expect "("
  let test ← expression g
  let (consequent, alternate) ← withBody (do return (← missingStatement, none)) do
    let consequent ← branch g
    if ← seesWord "else" then
      skip
      return (consequent, some (← branch g))
    else return (consequent, none)
  finish start (.ifStatement test consequent alternate)

/-! ## Loops -/

def loopBody (body : Parse Node) : Parse Node := do
  let before ← context
  setContext fun c => { c with inIteration := true }
  let n ← body
  setContext fun c => { c with inIteration := before.inIteration }
  return n

def doWhileStatement (g : Grammar) : Parse Node := do
  let start ← startMark
  expectWord "do"
  let body ← loopBody g.statement
  expectWord "while"
  expect "("
  let test ← expression g
  withBody (pure ()) do
    if ← sees ";" then skip
  finish start (.doWhileStatement body test)

def whileStatement (g : Grammar) : Parse Node := do
  let start ← startMark
  expectWord "while"
  expect "("
  let test ← expression g
  let body ← withBody missingStatement (loopBody g.statement)
  finish start (.whileStatement test body)

inductive LoopHead where
  | steps (init test update : Option Node)
  | over (isOf : Bool) (left right : Node)

def withoutIn {α : Type} (p : Parse α) : Parse α := do
  let before ← context
  setContext fun c => { c with allowIn := false }
  let result ← p
  setContext fun c => { c with allowIn := before.allowIn }
  return result

def loopSteps (g : Grammar) (init : Option Node) : Parse LoopHead := do
  let test ← if ← sees ";" then pure none else some <$> expression g
  expect ";"
  let update ← if ← sees ")" then pure none else some <$> expression g
  return .steps init test update

def loopIn (g : Grammar) (left : Node) : Parse LoopHead := do
  skip
  return .over false left (← expression g)

def loopOf (g : Grammar) (left : Node) : Parse LoopHead := do
  skip
  return .over true left (← g.assignment)

def isBareDeclaration : List Node → Bool
  | [n] => match n.shape with
    | .variableDeclarator _ init => init.isNone
    | _ => false
  | _ => false

/-- Does a declaration with an initial value stand where strict code, or its pattern, forbids it? -/
def hasForbiddenInitializer (strict : Bool) (n : Node) : Bool :=
  match n.shape with
  | .variableDeclarator id (some _) =>
    strict || match id.shape with
      | .arrayPattern _ | .objectPattern _ => true
      | _ => false
  | _ => false

def loopVar (g : Grammar) : Parse LoopHead := do
  let start ← startMark
  skip
  let declarations ← withoutIn (separated (variableBinding g true))
  if declarations.length == 1 && (← seesWord "in") then
    if declarations.any (hasForbiddenInitializer (← context).strict) then
      complain .loopInitializer ["for-in"]
    loopIn g (← finish start (.variableDeclaration declarations .var))
  else if isBareDeclaration declarations && (← seesName "of") then
    loopOf g (← finish start (.variableDeclaration declarations .var))
  else
    let init ← finish start (.variableDeclaration declarations .var)
    expect ";"
    loopSteps g (some init)

def loopLexical (g : Grammar) (kind : DeclarationKind) : Parse LoopHead := do
  let start ← startMark
  skip
  if !(← context).strict && (← peek).valueIs "in" then
    loopIn g (← finish start (.identifier kind.word))
  else
    let declarations ← withoutIn (separated (lexicalBinding g kind true))
    if isBareDeclaration declarations && (← seesWord "in") then
      loopIn g (← finish start (.variableDeclaration declarations kind))
    else if isBareDeclaration declarations && (← seesName "of") then
      loopOf g (← finish start (.variableDeclaration declarations kind))
    else
      semicolon
      let init ← finish start (.variableDeclaration declarations kind)
      loopSteps g (some init)

def isAssignment (n : Node) : Bool :=
  match n.shape with
  | .assignmentExpression .. => true
  | _ => false

def loopExpression (g : Grammar) : Parse LoopHead := do
  let start ← lookahead
  let init ← withoutIn (inherit g.assignment)
  let isLeft := (← context).isTarget && !isAssignment init
  if ← seesWord "in" then
    if !isLeft then complain .forInTarget
    loopIn g init.asPattern
  else if ← seesName "of" then
    if !isLeft then complain .forOfTarget
    loopOf g init.asPattern
  else
    let init ←
      if ← sees "," then do
        let more ← loop ([] : List Node) fun found => do
          if ← sees "," then
            skip
            return .again ((← isolate g.assignment) :: found)
          else return .done found
        finish (tokenMark start) (.sequenceExpression (init :: more.reverse))
      else pure init
    expect ";"
    loopSteps g (some init)

def loopHead (g : Grammar) : Parse LoopHead := do
  let l ← peek
  if l.isMark ";" then
    skip
    loopSteps g none
  else if l.isWord "var" then loopVar g
  else match lexicalKind? l with
    | some kind => loopLexical g kind
    | none => loopExpression g

def forStatement (g : Grammar) : Parse Node := do
  let start ← startMark
  expectWord "for"
  expect "("
  let head ← loopHead g
  let body ← withBody missingStatement (loopBody (isolate g.statement))
  finish start <| match head with
    | .steps init test update => .forStatement init test update body
    | .over false left right => .forInStatement left right body
    | .over true left right => .forOfStatement left right body

/-! ## Jumps -/

def jumpLabel : Parse (Option Node) := do
  if (← seesIdentifier) && !(← get).afterNewLine then
    let id ← bindingName
    let name := id.name?.getD []
    unless (← context).labels.contains name do reject .unknownLabel [name]
    return some id
  else return none

def continueStatement : Parse Node := do
  let start ← startMark
  expectWord "continue"
  let label ← jumpLabel
  semicolon
  if label.isNone && !(← context).inIteration then reject .strayContinue
  finish start (.continueStatement label)

def breakStatement : Parse Node := do
  let start ← startMark
  expectWord "break"
  let label ← jumpLabel
  semicolon
  let c ← context
  if label.isNone && !c.inIteration && !c.inSwitch then reject .strayBreak
  finish start (.breakStatement label)

def returnStatement (g : Grammar) : Parse Node := do
  if !(← context).inFunction then complain .strayReturn
  let start ← startMark
  expectWord "return"
  let isLiteral := match ← peek with
    | .string .. | .template .. => true
    | _ => false
  let isMissing := (← sees ";") || (← sees "\x7d") || (← get).afterNewLine || (← seesEnd)
  let argument ← if !isMissing || isLiteral then some <$> expression g else pure none
  semicolon
  finish start (.returnStatement argument)

def throwStatement (g : Grammar) : Parse Node := do
  let start ← startMark
  expectWord "throw"
  if (← get).afterNewLine then reject .newlineAfterThrow
  let argument ← expression g
  semicolon
  finish start (.throwStatement argument)

/-! ## Other statements with parts -/

def withStatement (g : Grammar) : Parse Node := do
  if (← context).strict then complain .strictWith
  let start ← startMark
  expectWord "with"
  expect "("
  let object ← expression g
  let body ← withBody missingStatement g.statement
  finish start (.withStatement object body)

/-- A case of a switch. Tells whether it is the one for all other values. -/
def switchCase (g : Grammar) : Parse (Node × Bool) := do
  let start ← startMark
  let test ←
    if ← seesWord "default" then do
      skip
      pure none
    else do
      expectWord "case"
      some <$> expression g
  expect ":"
  let consequent ← until' (do return (← sees "\x7d") || (← seesAnyWord ["default", "case"])) g.item
  return (← finish start (.switchCase test consequent), test.isNone)

def switchStatement (g : Grammar) : Parse Node := do
  let start ← startMark
  expectWord "switch"
  expect "("
  let discriminant ← expression g
  expect ")"
  let before ← context
  setContext fun c => { c with inSwitch := true }
  expect "\x7b"
  let cases ← loop (([], false) : List Node × Bool) fun (found, hasDefault) => do
    if ← sees "\x7d" then return .done found
    let (n, isDefault) ← switchCase g
    if isDefault && hasDefault then reject .secondDefault
    return .again (n :: found, hasDefault || isDefault)
  expect "\x7d"
  setContext fun c => { c with inSwitch := before.inSwitch }
  finish start (.switchStatement discriminant cases.reverse)

def labelledBody (g : Grammar) : Parse Node := do
  if ← seesWord "class" then
    complainToken (← lookahead)
    classDeclaration g
  else if ← seesWord "function" then
    let t ← lookahead
    let n ← functionDeclaration g
    if (← context).strict then complainToken t (some .strictFunction)
    else if isGenerator n then complainToken t (some .labelledGenerator)
    return n
  else g.statement

/-- A statement with a label, or an expression. -/
def labelledStatement (g : Grammar) : Parse Node := do
  let start ← startMark
  let e ← expression g
  match e.shape with
  | .identifier name =>
    if ← sees ":" then
      skip
      if (← context).labels.contains name then reject .redeclared ["Label", name]
      setContext fun c => { c with labels := name :: c.labels }
      let body ← labelledBody g
      setContext fun c => { c with labels := c.labels.erase name }
      finish start (.labeledStatement e body)
    else
      semicolon
      finish start (.expressionStatement e)
  | _ =>
    semicolon
    finish start (.expressionStatement e)

def checkDistinct : List Token → List Text → Parse Unit
  | [], _ => return ()
  | t :: rest, known => do
    let name := nameText t.lexeme
    if known.contains name then complain .duplicateBinding [name]
    checkDistinct rest (name :: known)

def catchClause (g : Grammar) : Parse Node := do
  let start ← startMark
  expectWord "catch"
  expect "("
  if ← sees ")" then rejectAhead
  let (param, names) ← g.pattern none
  checkDistinct names []
  if (← context).strict && param.name?.any Words.isRestricted then complain .strictCatchName
  expect ")"
  let body ← block g
  finish start (.catchClause param body)

/-- A block whose errors are handled, or which has a last part. -/
def tryStatement (g : Grammar) : Parse Node := do
  let start ← startMark
  expectWord "try"
  let body ← block g
  let handler ← if ← seesWord "catch" then some <$> catchClause g else pure none
  let finalizer ←
    if ← seesWord "finally" then do
      expectWord "finally"
      some <$> block g
    else pure none
  if handler.isNone && finalizer.isNone then reject .bareTry
  finish start (.tryStatement body handler finalizer)

def debuggerStatement : Parse Node := do
  let start ← startMark
  expectWord "debugger"
  semicolon
  finish start .debuggerStatement

def wordStatement (g : Grammar) (word : String) : Parse Node :=
  match word with
  | "break" => breakStatement
  | "continue" => continueStatement
  | "debugger" => debuggerStatement
  | "do" => doWhileStatement g
  | "for" => forStatement g
  | "function" => functionDeclaration g
  | "if" => ifStatement g
  | "return" => returnStatement g
  | "switch" => switchStatement g
  | "throw" => throwStatement g
  | "try" => tryStatement g
  | "var" => variableStatement g
  | "while" => whileStatement g
  | "with" => withStatement g
  | _ => expressionStatement g

def statement (g : Grammar) : Parse Node := do
  match ← peek with
  | .boolean _ | .null | .numeric .. | .string .. | .template .. | .regex .. => expressionStatement g
  | .punctuator "\x7b" => block g
  | .punctuator ";" => emptyStatement
  | .punctuator _ => expressionStatement g
  | .identifier _ => if ← seesAsyncFunction then functionDeclaration g else labelledStatement g
  | .keyword word => wordStatement g word
  | _ => rejectAhead

end ScriptTree.Parse
