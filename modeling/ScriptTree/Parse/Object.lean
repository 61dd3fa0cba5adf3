import ScriptTree.Parse.Function

/-!
Arrays and objects as expressions, which may turn out to be patterns.
-/

namespace ScriptTree.Parse

/-- A spread argument, element or property. -/
def spread (g : Grammar) : Parse Node := do
  let start ← startMark
  expect "..."
  let argument ← inherit g.assignment
  finish start (.spreadElement argument)

def arrayLiteral (g : Grammar) : Parse Node := do
  let start ← startMark
  expect "["
  let elements ← until' (sees "]") do
    if ← sees "," then
      skip
      return none
    else if ← sees "..." then
      let n ← spread g
      unless ← sees "]" do
        onlyValue
        expect ","
      return some n
    else
      let n ← inherit g.assignment
      unless ← sees "]" do expect ","
      return some n
  expect "]"
  finish start (.arrayExpression elements)

structure PropertyHead where
  key : Option Node := none
  computed : Bool := false
  isAsync : Bool := false

/-- The start of a property: its key, or the word before it. -/
def propertyHead (g : Grammar) (start : Mark) (t : Token) : Parse PropertyHead := do
  match t.lexeme with
  | .identifier name =>
    skip
    let computed ← sees "["
    let isAsync := !(← get).afterNewLine && name.is "async" && !(← seesAny [":", "(", "*", ","])
    let key ← if isAsync then propertyKey g else finish start (.identifier name)
    return ⟨some key, computed, isAsync⟩
  | _ =>
    if ← sees "*" then
      skip
      return {}
    else
      let computed ← sees "["
      return ⟨some (← propertyKey g), computed, false⟩

/-- A property whose key is known. Tells whether the prototype has been set. -/
def propertyValue (g : Grammar) (hasProto : Bool) (start : Mark) (t : Token) (key : Node)
    (head : PropertyHead) : Parse (Node × Bool) := do
  if !head.isAsync && (← sees ":") then
    let isProto := !head.computed && isKey key "__proto__"
    if isProto && hasProto then complain .duplicateProto
    skip
    let value ← inherit g.assignment
    return (← finish start (.property .init key head.computed value false false), hasProto || isProto)
  else if ← sees "(" then
    let value ← if head.isAsync then asyncMethod g else plainMethod g
    return (← finish start (.property .init key head.computed value true false), hasProto)
  else
    match t.lexeme with
    | .identifier name =>
      let id ← finish start (.identifier name)
      if ← sees "=" then
        let equals ← lookahead
        setContext fun c => { c with coverError := some equals }
        skip
        let init ← isolate g.assignment
        let value ← finish start (.assignmentPattern id init)
        return (← finish start (.property .init key head.computed value false true), hasProto)
      else return (← finish start (.property .init key head.computed id false true), hasProto)
    | _ => rejectToken (← next)

/-- A property. Tells whether the prototype has been set. -/
def property (g : Grammar) (hasProto : Bool) : Parse (Node × Bool) := do
  let start ← startMark
  let t ← lookahead
  let head ← propertyHead g start t
  let keyAhead := startsPropertyName (← peek)
  if keyAhead && !head.isAsync && t.lexeme.isName "get" then
    let computed ← sees "["
    let key ← propertyKey g
    setContext fun c => { c with allowYield := false }
    let value ← getter g
    return (← finish start (.property .get key computed value false false), hasProto)
  else if keyAhead && !head.isAsync && t.lexeme.isName "set" then
    let computed ← sees "["
    let key ← propertyKey g
    let value ← setter g
    return (← finish start (.property .set key computed value false false), hasProto)
  else if keyAhead && t.lexeme.isMark "*" then
    let computed ← sees "["
    let key ← propertyKey g
    let value ← generatorMethod g
    return (← finish start (.property .init key computed value true false), hasProto)
  else
    match head.key with
    | some key => propertyValue g hasProto start t key head
    | none => rejectAhead

def objectLiteral (g : Grammar) : Parse Node := do
  let start ← startMark
  expect "\x7b"
  let properties ← loop (([], false) : List Node × Bool) fun (found, hasProto) => do
    if ← sees "\x7d" then return .done found
    let (n, hasProto) ← if ← sees "..." then do pure (← spread g, hasProto) else property g hasProto
    unless ← sees "\x7d" do expectComma
    return .again (n :: found, hasProto)
  expect "\x7d"
  finish start (.objectExpression properties.reverse)

end ScriptTree.Parse
