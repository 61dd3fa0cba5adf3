import ScriptTree.Node.Pattern
import ScriptTree.Parse.Binding

/-!
Functions: parameters, bodies with their directives, declarations, expressions and methods.
-/

namespace ScriptTree.Parse

/-! ## Parameters -/

structure Parameters where
  params : List Node := []
  simple : Bool := true
  names : List Text := []
  stricted : Option Offender := none
  /-- What is rejected if the code of the function turns out to be strict. -/
  restricted : Option Offender := none
  message : Option Message := none
deriving Inhabited

namespace Parameters

def bind (p : Parameters) (strict : Bool) (o : Offender) (name : Text) : Parameters :=
  let known := p.names.contains name
  let p := { p with names := name :: p.names }
  if strict then
    let p := if Words.isRestricted name then
        { p with stricted := some o, message := some .strictParameterName }
      else p
    if known then { p with stricted := some o, message := some .strictDuplicateParameter } else p
  else if p.restricted.isSome then p
  else if Words.isRestricted name then
    { p with restricted := some o, message := some .strictParameterName }
  else if Words.isStrict name then
    { p with restricted := some o, message := some .strictReservedWord }
  else if known then { p with stricted := some o, message := some .strictDuplicateParameter }
  else p

def push (p : Parameters) (n : Node) : Parameters :=
  { p with params := p.params ++ [n], simple := p.simple && n.isIdentifier && n.info.cover.isNone }

end Parameters

/-- The last parameter, which takes the rest of the arguments. -/
def restParameter (g : Grammar) : Parse (Node × List Token) := do
  let start ← startMark
  expect "..."
  let (argument, names) ← g.pattern none
  if ← sees "=" then reject .restParameterDefault
  unless ← sees ")" do reject .parameterAfterRest
  return (← finish start (.restElement argument), names)

def parameter (g : Grammar) (p : Parameters) : Parse Parameters := do
  let (n, names) ← if ← sees "..." then restParameter g else patternWithDefault g none
  let strict := (← context).strict
  let p := names.foldl (fun p t => p.bind strict (.token t) (nameText t.lexeme)) p
  return p.push n

def parameters (g : Grammar) (restricted : Option Offender := none) : Parse Parameters := do
  let none' : Parameters := { restricted }
  expect "("
  let p ←
    if ← sees ")" then pure none'
    else loop none' fun p => do
      if ← seesEnd then return .done p
      let p ← parameter g p
      if ← sees ")" then return .done p
      expect ","
      if ← sees ")" then return .done p
      return .again p
  expect ")"
  return p

/-! ## Bodies -/

/-- A statement that is a string, which may be a directive. -/
def directive (g : Grammar) : Parse Node := do
  let t ← lookahead
  let start ← startMark
  let e ← expression g
  let text ← match e.shape with
    | .literal .. | .regexLiteral .. => pure ((← rawText t).drop 1).dropLast
    | _ => pure []
  semicolon
  finish start (if text.isEmpty then .expressionStatement e else .directive e text)

/-- The directives at the start of a program or function body, and a first statement that looks like
one. -/
def prologue (g : Grammar) : Parse (List Node) := do
  let found ← loop (([], none) : List Node × Option Token) fun (found, octal) => do
    let t ← lookahead
    match t.lexeme with
    | .string .. =>
      let n ← directive g
      match n.shape with
      | .directive _ text =>
        if text.is "use strict" then
          setContext fun c => { c with strict := true }
          if let some t := octal then complainToken t (some .strictOctal)
          if !(← context).allowStrictDirective then complainToken t (some .lateStrictDirective)
          return .again (n :: found, octal)
        else
          return .again (n :: found, octal.or (if isOctal t.lexeme then some t else none))
      | _ => return .done (n :: found)
    | _ => return .done found
  return found.reverse

def functionBody (g : Grammar) : Parse Node := do
  let start ← startMark
  expect "\x7b"
  let directives ← prologue g
  let before ← context
  setContext fun c =>
    { c with labels := [], inIteration := false, inSwitch := false, inFunction := true }
  let items ← until' (do return (← seesEnd) || (← sees "\x7d")) g.item
  expect "\x7d"
  setContext fun c =>
    { c with
      labels := before.labels
      inIteration := before.inIteration
      inSwitch := before.inSwitch
      inFunction := before.inFunction }
  finish start (.blockStatement (directives ++ items))

/-! ## Functions -/

structure FunctionName where
  id : Option Node := none
  restricted : Option Offender := none
  message : Option Message := none

def checkFunctionName (id : Node) (t : Token) : Parse FunctionName := do
  let name := nameText t.lexeme
  if (← context).strict then
    if Words.isRestricted name then complainToken t (some .strictFunctionName)
    return { id := some id }
  else if Words.isRestricted name then
    return ⟨some id, some (.token t), some .strictFunctionName⟩
  else if Words.isStrict name then
    return ⟨some id, some (.token t), some .strictReservedWord⟩
  else return { id := some id }

def functionTail (g : Grammar) (name : FunctionName) : Parse (List Node × Node) := do
  let p ← parameters g name.restricted
  let message := p.message.or name.message
  let before ← context
  setContext fun c => { c with allowStrictDirective := p.simple }
  let body ← functionBody g
  if (← context).strict then
    if let some o := p.restricted then rejectOffender o message
    if let some o := p.stricted then complainOffender o message
  setContext fun c =>
    { c with strict := before.strict, allowStrictDirective := before.allowStrictDirective }
  return (p.params, body)

/-- The words before the name of a function, which tell its kind. -/
def functionHead : Parse FunctionKind := do
  let isAsync ← seesName "async"
  if isAsync then skip
  expectWord "function"
  if isAsync then return .async
  else if ← sees "*" then
    skip
    return .generator
  else return .plain

/-- In the parameters and the body of a function, its kind decides about two words. -/
def enterFunction (kind : FunctionKind) : Parse Unit :=
  setContext fun c => { c with allowAwait := kind == .async, allowYield := kind != .generator }

def leaveFunction (before : Context) : Parse Unit :=
  setContext fun c => { c with allowAwait := before.allowAwait, allowYield := before.allowYield }

def functionDeclaration (g : Grammar) (nameIsOptional : Bool := false) : Parse Node := do
  let start ← startMark
  let kind ← functionHead
  let name ←
    if nameIsOptional && (← sees "(") then pure {}
    else do
      let t ← lookahead
      checkFunctionName (← bindingName) t
  let before ← context
  enterFunction kind
  let (params, body) ← functionTail g name
  leaveFunction before
  finish start (.functionDeclaration kind name.id params body)

def functionExpression (g : Grammar) : Parse Node := do
  let start ← startMark
  let kind ← functionHead
  let before ← context
  enterFunction kind
  let name ←
    if ← sees "(" then pure {}
    else do
      let t ← lookahead
      let isYield := !(← context).strict && kind != .generator && t.lexeme.isWord "yield"
      checkFunctionName (← if isYield then anyName else bindingName) t
  let (params, body) ← functionTail g name
  leaveFunction before
  finish start (.functionExpression kind name.id params body)

/-! ## Methods -/

def methodBody (g : Grammar) (p : Parameters) : Parse Node := do
  onlyValue
  let before ← context
  setContext fun c => { c with allowStrictDirective := p.simple }
  let body ← isolate (functionBody g)
  if (← context).strict then
    if let some o := p.restricted then complainOffender o p.message
    if let some o := p.stricted then complainOffender o p.message
  setContext fun c =>
    { c with strict := before.strict, allowStrictDirective := before.allowStrictDirective }
  return body

def plainMethod (g : Grammar) : Parse Node := do
  let start ← startMark
  let before ← context
  setContext fun c => { c with allowYield := true }
  let p ← parameters g
  let body ← methodBody g p
  setContext fun c => { c with allowYield := before.allowYield }
  finish start (.functionExpression .plain none p.params body)

def asyncMethod (g : Grammar) : Parse Node := do
  let start ← startMark
  let before ← context
  setContext fun c => { c with allowYield := false, allowAwait := true }
  let p ← parameters g
  let body ← methodBody g p
  setContext fun c => { c with allowYield := before.allowYield, allowAwait := before.allowAwait }
  finish start (.functionExpression .async none p.params body)

def getter (g : Grammar) : Parse Node := do
  let start ← startMark
  let before ← context
  setContext fun c => { c with allowYield := true }
  let p ← parameters g
  unless p.params.isEmpty do complain .getterArity
  let body ← methodBody g p
  setContext fun c => { c with allowYield := before.allowYield }
  finish start (.functionExpression .plain none p.params body)

def isRest (n : Node) : Bool :=
  match n.shape with
  | .restElement _ => n.info.cover.isNone
  | _ => false

def setter (g : Grammar) : Parse Node := do
  let start ← startMark
  let before ← context
  setContext fun c => { c with allowYield := true }
  let p ← parameters g
  match p.params with
  | [n] => if isRest n then complain .setterRest
  | _ => complain .setterArity
  let body ← methodBody g p
  setContext fun c => { c with allowYield := before.allowYield }
  finish start (.functionExpression .plain none p.params body)

def generatorMethod (g : Grammar) : Parse Node := do
  let start ← startMark
  let before ← context
  setContext fun c => { c with allowYield := true }
  let p ← parameters g
  setContext fun c => { c with allowYield := false }
  let body ← methodBody g p
  setContext fun c => { c with allowYield := before.allowYield }
  finish start (.functionExpression .generator none p.params body)

end ScriptTree.Parse
