import ScriptTree.Parse.Grammar

/-!
Patterns in declarations and parameters. Each rule returns the tokens of the names that are bound.
-/

namespace ScriptTree.Parse

def patternWithDefault (g : Grammar) (kind : Option DeclarationKind) : Parse (Node × List Token) := do
  let start ← lookahead
  let (pattern, names) ← g.pattern kind
  if ← sees "=" then
    skip
    let before ← context
    setContext fun c => { c with allowYield := true }
    let right ← isolate g.assignment
    setContext fun c => { c with allowYield := before.allowYield }
    return (← finish (tokenMark start) (.assignmentPattern pattern right), names)
  else return (pattern, names)

def bindingRest (g : Grammar) (kind : Option DeclarationKind) : Parse (Node × List Token) := do
  let start ← startMark
  expect "..."
  let (argument, names) ← g.pattern kind
  return (← finish start (.restElement argument), names)

def arrayPattern (g : Grammar) (kind : Option DeclarationKind) : Parse (Node × List Token) := do
  let start ← startMark
  expect "["
  let (elements, names) ← loop (([], []) : List (Option Node) × List Token) fun (elements, names) => do
    if ← sees "]" then return .done (elements, names)
    else if ← sees "," then
      skip
      return .again (none :: elements, names)
    else if ← sees "..." then
      let (n, more) ← bindingRest g kind
      return .done (some n :: elements, names ++ more)
    else
      let (n, more) ← patternWithDefault g kind
      unless ← sees "]" do expect ","
      return .again (some n :: elements, names ++ more)
  expect "]"
  return (← finish start (.arrayPattern elements.reverse), names)

def propertyPattern (g : Grammar) (kind : Option DeclarationKind) : Parse (Node × List Token) := do
  let start ← startMark
  let t ← lookahead
  match t.lexeme with
  | .identifier name =>
    let key ← bindingName
    let init ← finish start (.identifier name)
    if ← sees "=" then
      skip
      let value ← g.assignment
      let value ← finish (tokenMark t) (.assignmentPattern init value)
      return (← finish start (.property .init key false value false true), [t])
    else if !(← sees ":") then
      return (← finish start (.property .init key false init false true), [t])
    else
      expect ":"
      let (value, names) ← patternWithDefault g kind
      return (← finish start (.property .init key false value false false), names)
  | _ =>
    let computed ← sees "["
    let key ← propertyKey g
    expect ":"
    let (value, names) ← patternWithDefault g kind
    return (← finish start (.property .init key computed value false false), names)

def restProperty (g : Grammar) : Parse (Node × List Token) := do
  let start ← startMark
  expect "..."
  let (argument, names) ← g.pattern none
  if ← sees "=" then reject .restPropertyDefault
  unless ← sees "\x7d" do reject .propertyAfterRest
  return (← finish start (.restElement argument), names)

def objectPattern (g : Grammar) (kind : Option DeclarationKind) : Parse (Node × List Token) := do
  let start ← startMark
  expect "\x7b"
  let found ← until' (sees "\x7d") do
    let found ← if ← sees "..." then restProperty g else propertyPattern g kind
    unless ← sees "\x7d" do expect ","
    return found
  expect "\x7d"
  return (← finish start (.objectPattern (found.map Prod.fst)), found.flatMap Prod.snd)

def pattern (g : Grammar) (kind : Option DeclarationKind) : Parse (Node × List Token) := do
  if ← sees "[" then arrayPattern g kind
  else if ← sees "\x7b" then objectPattern g kind
  else
    let t ← lookahead
    if t.lexeme.isWord "let" && (kind == some .const || kind == some .let') then
      complainToken t (some .letAsName)
    return (← bindingName kind, [t])

end ScriptTree.Parse
