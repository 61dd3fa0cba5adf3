import ScriptTree.Parse.Class
import ScriptTree.Parse.Markup
import ScriptTree.Parse.Object

/-!
Expressions, from the tightest binding to the loosest.
-/

namespace ScriptTree.Parse

/-! ## Templates -/

/-- A piece of a template, and whether it is the last. -/
def templatePiece : Parse (Node × Bool) := do
  let start ← startMark
  let t ← next
  match t.lexeme with
  | .template raw cooked _ tail => return (← finish start (.templateElement raw cooked tail), tail)
  | _ => throw (.broken "Template literal must start with a template head")

def templateHead : Parse (Node × Bool) := do
  match ← peek with
  | .template _ _ true _ => templatePiece
  | _ => throw (.broken "Template literal must start with a template head")

def templateMiddle : Parse (Node × Bool) := do
  match ← peek with
  | .template .. => templatePiece
  | _ => throw (.rejected (← complaintAt Message.illegalToken.wording))

def templateLiteral (g : Grammar) : Parse Node := do
  let start ← startMark
  let (head, isLast) ← templateHead
  let (quasis, expressions) ←
    loop (([head], [], isLast) : List Node × List Node × Bool) fun (quasis, expressions, isLast) => do
      if isLast then return .done (quasis, expressions)
      let e ← expression g
      let (quasi, isLast) ← templateMiddle
      return .again (quasi :: quasis, e :: expressions, isLast)
  finish start (.templateLiteral quasis.reverse expressions.reverse)

def seesTemplate : Parse Bool := return match ← peek with
  | .template _ _ head _ => head
  | _ => false

/-! ## Parentheses -/

/-- After a list that can only be one of parameters, an arrow has to come. -/
def expectArrow : Parse Unit := do
  unless ← sees "=>" do expect "=>"

def arrowParameters (isAsync : Bool) (params : List Node) : Node := .bare (.arrowParameters isAsync params)

/-- The expressions after a first one and a comma in parentheses: a sequence, or parameters if a comma or
the rest of the parameters ends the list. -/
def groupTail (g : Grammar) (first : Node) : Parse (List Node ⊕ Node) := do
  setContext fun c => { c with isTarget := false }
  loop [first] fun found => do
    if !(← sees ",") then return .done (.inl found.reverse)
    skip
    if ← sees ")" then
      skip
      return .done (.inr (arrowParameters false (found.reverse.map Node.asPattern)))
    else if ← sees "..." then
      if !(← context).isBinding then rejectAhead
      let (rest, _) ← restParameter g
      expect ")"
      expectArrow
      setContext fun c => { c with isBinding := false }
      return .done (.inr (arrowParameters false ((rest :: found).reverse.map Node.asPattern)))
    else return .again ((← inherit g.assignment) :: found)

/-- What an expression in parentheses is, after the closing one. -/
def groupEnd (e : Node) : Parse Node := do
  expect ")"
  if ← sees "=>" then
    if e.isNamed "yield" then
      setContext fun c => { c with isBinding := false }
      return arrowParameters false [e]
    else
      if !(← context).isBinding then rejectAhead
      setContext fun c => { c with isBinding := false }
      match e.shape with
      | .sequenceExpression expressions =>
        return arrowParameters false (expressions.map Node.asPattern)
      | _ => return arrowParameters false [e.asPattern]
  else
    setContext fun c => { c with isBinding := false }
    return e

/-- An expression in parentheses, or the parameters of an arrow function. -/
def group (g : Grammar) : Parse Node := do
  expect "("
  if ← sees ")" then
    skip
    expectArrow
    return arrowParameters false []
  else
    let start ← lookahead
    if ← sees "..." then
      let (rest, _) ← restParameter g
      expect ")"
      expectArrow
      return arrowParameters false [rest]
    else
      setContext fun c => { c with isBinding := true }
      let first ← inherit g.assignment
      if ← sees "," then
        match ← groupTail g first with
        | .inl expressions => groupEnd (← finish (tokenMark start) (.sequenceExpression expressions))
        | .inr params => return params
      else groupEnd first

/-! ## Operands -/

def literal : Parse Node := do
  let start ← startMark
  onlyValue
  let t ← next
  finish start (.literal (literalOf t.lexeme) (← rawText t))

def regexLiteral : Parse Node := do
  let start ← startMark
  onlyValue
  let t ← nextRegex
  match t.lexeme with
  | .regex pattern flags compiled =>
    finish start (.regexLiteral compiled (← rawText t) pattern flags)
  | _ => rejectToken t

def wordOperand (g : Grammar) (word : String) : Parse Node := do
  let start ← startMark
  let c ← context
  if word == "yield" && !c.strict && c.allowYield then anyName
  else if word == "let" && !c.strict then
    let t ← next
    finish start (.identifier (nameText t.lexeme))
  else
    onlyValue
    if word == "function" then functionExpression g
    else if word == "this" then
      skip
      finish start .thisExpression
    else if word == "class" then classExpression g
    else if ← seesImportCall then
      expectWord "import"
      finish start .importWord
    else rejectToken (← next)

def plainOperand (g : Grammar) : Parse Node := do
  let start ← startMark
  let t ← lookahead
  match t.lexeme with
  | .identifier name =>
    let c ← context
    if (c.isModule || c.allowAwait) && name.is "await" then complainToken t
    if ← seesAsyncFunction then functionExpression g
    else
      skip
      finish start (.identifier name)
  | .numeric .. | .string .. =>
    if (← context).strict && isOctal t.lexeme then complainToken t (some .strictOctal)
    literal
  | .boolean _ | .null => literal
  | .template .. => templateLiteral g
  | .punctuator "(" =>
    setContext fun c => { c with isBinding := false }
    inherit (group g)
  | .punctuator "[" => inherit (arrayLiteral g)
  | .punctuator "\x7b" => inherit (objectLiteral g)
  | .punctuator "/" | .punctuator "/=" => regexLiteral
  | .keyword word => wordOperand g word
  | _ => rejectToken (← next)

def operand (g : Grammar) : Parse Node := do
  if (← options).jsx && (← sees "<") then rootElement g else plainOperand g

/-! ## Calls and members -/

/-- Arguments in parentheses, each read by the given rule. -/
def argumentsBy (g : Grammar) (argument : Parse Node) : Parse (List Node) := do
  expect "("
  let found ←
    if ← sees ")" then pure []
    else loop ([] : List Node) fun found => do
      let n ← if ← sees "..." then spread g else isolate argument
      if ← sees ")" then return .done (n :: found)
      expectComma
      if ← sees ")" then return .done (n :: found)
      return .again (n :: found)
  expect ")"
  return found.reverse

def arguments (g : Grammar) : Parse (List Node) := argumentsBy g g.assignment

def asyncArguments (g : Grammar) : Parse (List Node) := argumentsBy g do
  let n ← g.assignment
  setContext fun c => { c with coverError := none }
  return n

/-- A new object, or the target of the construction that runs. -/
def newExpression (g : Grammar) : Parse Node := do
  let start ← startMark
  let word ← anyName
  unless word.isNamed "new" do throw (.broken "New expression must start with `new`")
  if ← sees "." then
    skip
    if (← seesName "target") && (← context).inFunction then
      let name ← anyName
      finish start (.metaProperty word name)
    else rejectAhead
  else if ← seesWord "import" then rejectAhead
  else
    let callee ← isolate g.callee
    let args ← if ← sees "(" then arguments g else pure []
    onlyValue
    finish start (.newExpression callee args)

def newOrOperand (g : Grammar) : Parse Node := do
  inherit (if ← seesWord "new" then newExpression g else operand g)

def namedMember (start : Mark) (object : Node) : Parse Node := do
  onlyTarget
  expect "."
  let name ← anyName
  finish start (.memberExpression false object name)

def computedMember (g : Grammar) (start : Mark) (object : Node) : Parse Node := do
  onlyTarget
  expect "["
  let key ← isolate (expression g)
  expect "]"
  finish start (.memberExpression true object key)

def taggedTemplate (g : Grammar) (start : Mark) (tag : Node) : Parse Node := do
  let quasi ← templateLiteral g
  finish start (.taggedTemplate tag quasi)

/-- A call, or the parameters of an asynchronous arrow function. -/
def callTail (g : Grammar) (start : Token) (maybeAsync : Bool) (callee : Node) : Parse Node := do
  let asyncArrow := maybeAsync && start.line == (← lookahead).line
  onlyValue
  let args ← if asyncArrow then asyncArguments g else arguments g
  if let .importWord := callee.shape then
    if args.length != 1 then complain .importCallArity
  let e ← finish (tokenMark start) (.callExpression callee args)
  if asyncArrow && (← sees "=>") then return arrowParameters true (args.map Node.asPattern)
  else return e

def callBase (g : Grammar) : Parse Node := do
  if (← seesWord "super") && (← context).inFunction then
    let start ← startMark
    skip
    let e ← finish start .superWord
    unless ← seesAny ["(", ".", "["] do rejectAhead
    return e
  else newOrOperand g

def call (g : Grammar) : Parse Node := do
  let start ← lookahead
  let maybeAsync ← seesName "async"
  let before ← context
  setContext fun c => { c with allowIn := true }
  let base ← callBase g
  let e ← loop base fun e => do
    if ← sees "." then return .again (← namedMember (tokenMark start) e)
    else if ← sees "(" then return .again (← callTail g start maybeAsync e)
    else if ← sees "[" then return .again (← computedMember g (tokenMark start) e)
    else if ← seesTemplate then return .again (← taggedTemplate g (tokenMark start) e)
    else return .done e
  setContext fun c => { c with allowIn := before.allowIn }
  return e

/-- What stands after the word for a new object: members, but no calls. -/
def callee (g : Grammar) : Parse Node := do
  unless (← context).allowIn do throw (.broken "callee of new expression always allow in keyword.")
  let start := tokenMark (← lookahead)
  let base ←
    if (← seesWord "super") && (← context).inFunction then do
      let start ← startMark
      expectWord "super"
      unless ← seesAny ["[", "."] do rejectAhead
      finish start .superWord
    else newOrOperand g
  loop base fun e => do
    if ← sees "[" then return .again (← computedMember g start e)
    else if ← sees "." then return .again (← namedMember start e)
    else if ← seesTemplate then return .again (← taggedTemplate g start e)
    else return .done e

/-! ## Operators -/

def isRestrictedName (n : Node) : Bool :=
  match n.shape with
  | .identifier name => Words.isRestricted name
  | _ => false

def operatorText : Lexeme → String
  | .punctuator mark => mark
  | .keyword word => word
  | _ => ""

def update (g : Grammar) : Parse Node := do
  let start ← lookahead
  if ← seesAny ["++", "--"] then
    let t ← next
    let e ← inherit g.unary
    if (← context).strict && isRestrictedName e then complain .strictPrefix
    if !(← context).isTarget then complain .assignmentTarget
    let e ← finish (tokenMark start) (.updateExpression (operatorText t.lexeme) e true)
    onlyValue
    return e
  else
    let e ← inherit g.call
    if !(← get).afterNewLine && (← seesAny ["++", "--"]) then
      if (← context).strict && isRestrictedName e then complain .strictPostfix
      if !(← context).isTarget then complain .assignmentTarget
      onlyValue
      let t ← next
      finish (tokenMark start) (.updateExpression (operatorText t.lexeme) e false)
    else return e

def unary (g : Grammar) : Parse Node := do
  if (← seesAny ["+", "-", "~", "!"]) || (← seesAnyWord ["delete", "void", "typeof"]) then
    let start := tokenMark (← lookahead)
    let t ← next
    let argument ← inherit g.unary
    let e ← finish start (.unaryExpression (operatorText t.lexeme) argument)
    if (← context).strict && t.lexeme.isWord "delete" && argument.isIdentifier then
      complain .strictDelete
    onlyValue
    return e
  else if (← context).allowAwait && (← seesName "await") then
    let start ← startMark
    skip
    let argument ← g.unary
    finish start (.awaitExpression argument)
  else update g

def isUnary (n : Node) : Bool :=
  match n.shape with
  | .unaryExpression .. => true
  | _ => false

/-- Operands of the power operator, which binds to the right. -/
def power (g : Grammar) : Parse Node := do
  let start ← lookahead
  let left ← inherit g.unary
  if !isUnary left && (← sees "**") then
    skip
    onlyValue
    let right ← isolate g.power
    finish (tokenMark start) (.binaryExpression "**" left right)
  else return left

/-- How tightly a binary operator binds. Zero is for what is no operator. -/
def markPrecedence (mark : String) : Nat :=
  match mark with
  | "||" => 1
  | "&&" => 2
  | "|" => 3
  | "^" => 4
  | "&" => 5
  | "==" | "!=" | "===" | "!==" => 6
  | "<" | ">" | "<=" | ">=" => 7
  | "<<" | ">>" | ">>>" => 8
  | "+" | "-" => 9
  | "*" | "/" | "%" => 11
  | _ => 0

def precedence (allowIn : Bool) : Lexeme → Nat
  | .punctuator mark => markPrecedence mark
  | .keyword "instanceof" => 7
  | .keyword "in" => if allowIn then 7 else 0
  | _ => 0

structure Operand where
  token : Token
  node : Node

structure Pending where
  left : Operand
  operator : String
  precedence : Nat

/-- Joins operands as long as the operators between them bind at least as tightly as the next one. -/
def reduce (least : Nat) (right : Operand) : List Pending → Parse (Operand × List Pending)
  | [] => return (right, [])
  | p :: rest => do
    if p.precedence ≥ least then
      let n ← finish (tokenMark p.left.token) (.binaryExpression p.operator p.left.node right.node)
      reduce least ⟨p.left.token, n⟩ rest
    else return (right, p :: rest)

def reduceAll (right : Operand) : List Pending → Parse Node
  | [] => return right.node
  | p :: rest => do
    let start := tokenMark p.left.token right.token.lineStart
    let n ← finish start (.binaryExpression p.operator p.left.node right.node)
    reduceAll ⟨p.left.token, n⟩ rest

def binary (g : Grammar) : Parse Node := do
  let start ← lookahead
  let first ← inherit g.power
  let least := precedence (← context).allowIn (← peek)
  if least == 0 then return first
  let t ← next
  onlyValue
  let token ← lookahead
  let second ← isolate g.power
  let pending : List Pending := [⟨⟨start, first⟩, operatorText t.lexeme, least⟩]
  loop ((⟨token, second⟩, pending) : Operand × List Pending) fun (right, pending) => do
    let least := precedence (← context).allowIn (← peek)
    if least == 0 then return .done (← reduceAll right pending)
    let (left, pending) ← reduce least right pending
    let t ← next
    let token ← lookahead
    let n ← isolate g.power
    return .again (⟨token, n⟩, ⟨left, operatorText t.lexeme, least⟩ :: pending)

/-- A choice between two expressions, or an expression with binary operators. -/
def conditional (g : Grammar) : Parse Node := do
  let start ← lookahead
  let test ← inherit (binary g)
  if ← sees "?" then
    skip
    let before ← context
    setContext fun c => { c with allowIn := true }
    let consequent ← isolate g.assignment
    setContext fun c => { c with allowIn := before.allowIn }
    expect ":"
    let alternate ← isolate g.assignment
    let e ← finish (tokenMark start) (.conditionalExpression test consequent alternate)
    onlyValue
    return e
  else return test

/-! ## Assignments, arrow functions and yields -/

def startsExpression : Parse Bool := do
  match ← peek with
  | .punctuator mark =>
    let marks := ["[", "(", "\x7b", "+", "-", "!", "~", "++", "--", "/", "/="]
    return marks.contains mark || ((← options).jsx && mark == "<")
  | .keyword word =>
    let words := ["class", "delete", "function", "let", "new", "super", "this", "typeof", "void", "yield"]
    return words.contains word
  | _ => return true

def yieldExpression (g : Grammar) : Parse Node := do
  let start ← startMark
  expectWord "yield"
  if (← get).afterNewLine then finish start (.yieldExpression none false)
  else
    let before ← context
    setContext fun c => { c with allowYield := false }
    let delegate ← sees "*"
    let argument ←
      if delegate then do
        skip
        some <$> g.assignment
      else if ← startsExpression then some <$> g.assignment
      else pure none
    setContext fun c => { c with allowYield := before.allowYield }
    finish start (.yieldExpression argument delegate)

/-- A parameter of an arrow function. In an initial value the word for yields may be a name. -/
def arrowParameter (isAsync : Bool) (n : Node) : Parse Node := do
  match n.shape with
  | .assignmentPattern left right =>
    match right.shape with
    | .yieldExpression argument _ =>
      if argument.isSome then rejectAhead
      return { n with shape := .assignmentPattern left right.yieldAsName }
    | _ => return n
  | .identifier name =>
    if isAsync && name.is "await" then rejectAhead
    return n
  | _ => return n

def isYield (n : Node) : Bool :=
  match n.shape with
  | .yieldExpression .. => true
  | _ => false

def coverParameters (e : Node) : Parse (Option Parameters) := do
  let check (isAsync : Bool) (nodes : List Node) : Parse (Option Parameters) := do
    let c ← context
    let mut p : Parameters := {}
    for n in nodes do
      let n ← arrowParameter isAsync n
      p := n.boundNames.foldl (fun p name => p.bind c.strict .node name) p
      p := p.push n
    if (c.strict || !c.allowYield) && p.params.any isYield then rejectAhead
    if p.message == some .strictDuplicateParameter then
      throw (.rejected (← complaintAt Message.strictDuplicateParameter.wording))
    return some p
  match e.shape with
  | .identifier _ => check false [e]
  | .arrowParameters isAsync nodes => check isAsync nodes
  | _ => return none

def arrowTail (g : Grammar) (start : Token) (isAsync : Bool) (p : Parameters) : Parse Node := do
  if (← get).afterNewLine then complainToken (← lookahead)
  let before ← context
  setContext fun c =>
    { c with
      coverError := none
      allowStrictDirective := p.simple
      allowYield := true
      allowAwait := isAsync }
  expect "=>"
  let body ←
    if ← sees "\x7b" then do
      setContext fun c => { c with allowIn := true }
      let body ← functionBody g
      setContext fun c => { c with allowIn := before.allowIn }
      pure body
    else isolate g.assignment
  let isExpression := match body.shape with
    | .blockStatement _ => false
    | _ => true
  if (← context).strict then
    if let some o := p.restricted then rejectOffender o p.message
    if let some o := p.stricted then complainOffender o p.message
  let e ← finish (tokenMark start) (.arrowFunction isAsync p.params body isExpression)
  setContext fun c =>
    { c with
      strict := before.strict
      allowStrictDirective := before.allowStrictDirective
      allowYield := before.allowYield
      allowAwait := before.allowAwait }
  return e

def assignmentTail (g : Grammar) (start : Token) (left : Node) : Parse Node := do
  if !(← context).isTarget then complain .assignmentTarget
  if (← context).strict then
    if let .identifier name := left.shape then
      if Words.isRestricted name then complainToken start (some .strictAssignment)
      if Words.isStrict name then complainToken start (some .strictReservedWord)
  let left ← if ← sees "=" then pure left.asPattern
    else do
      onlyValue
      pure left
  let t ← next
  let right ← isolate g.assignment
  let e ← finish (tokenMark start) (.assignmentExpression (operatorText t.lexeme) left right)
  setContext fun c => { c with coverError := none }
  return e

/-- The name of the parameter of an asynchronous arrow function after its first word. -/
def asyncParameter (g : Grammar) (start : Token) (e : Node) : Parse Node := do
  if start.lexeme.isName "async" && start.line == (← lookahead).line
      && ((← seesIdentifier) || (← seesWord "yield")) then
    return arrowParameters true [(← operand g).asPattern]
  else return e

/-- What kind of parameters an expression is: those of an asynchronous arrow function, or others. -/
def arrowKind? (n : Node) : Option Bool :=
  match n.shape with
  | .arrowParameters isAsync _ => some isAsync
  | _ => none

def assignment (g : Grammar) : Parse Node := do
  if !(← context).allowYield && (← seesWord "yield") then yieldExpression g
  else
    let start ← lookahead
    let e ← asyncParameter g start (← conditional g)
    if (arrowKind? e).isSome || (← sees "=>") then
      onlyValue
      match ← coverParameters e with
      | some p => arrowTail g start ((arrowKind? e).getD false) p
      | none => return e
    else if ← seesAny assignmentOperators then assignmentTail g start e
    else return e

end ScriptTree.Parse
