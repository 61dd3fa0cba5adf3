import ScriptTree.Lexeme.Markup
import ScriptTree.Parse.Grammar

/-!
Markup inside programs. In a tag and between tags tokens are read in other ways than elsewhere, so the scan
goes back to the start of the token ahead when markup starts, and a new token is looked at when it ends.
-/

namespace ScriptTree.Parse

/-! ## Tokens -/

def enterMarkup : Parse Unit := modify fun s =>
  let start := s.startMark
  { s with cursor :=
    { s.cursor with
      index := start.index
      line := start.line
      lineStart := ((start.index : Int) - start.column).toNat } }

def nextMarkup : Parse Token := do
  takeComments
  let start ← scanMark
  modify fun s => { s with startMark := start }
  let t ← scan Scan.markup
  let stop ← scanMark
  modify fun s => { s with lastMark := stop }
  listToken t
  return t

def nextText : Parse Token := do
  let start ← scanMark
  modify fun s => { s with startMark := start }
  let t ← scan Scan.markupText
  let stop ← scanMark
  modify fun s => { s with lastMark := stop }
  if t.start < t.stop then listToken t
  return t

/-- The next token of a tag, which is not taken. -/
def peekMarkup : Parse Lexeme := scan do
  let place ← Scan.save
  let _ ← Scan.comments
  let t ← Scan.markup
  Scan.restore place
  return t.lexeme

def seesMarkup (mark : String) : Parse Bool := return (← peekMarkup).isMark mark

def expectMarkup (mark : String) : Parse Unit := do
  let t ← nextMarkup
  unless t.lexeme.isMark mark do rejectToken t

def leaveExpression : Parse Unit := do
  enterMarkup
  expectMarkup "\x7d"
  if (← options).tokens then unlistToken

def markupMark : Parse Mark := do
  takeComments
  scanMark

/-! ## Names -/

def markupName : Parse Node := do
  let start ← markupMark
  let t ← nextMarkup
  match t.lexeme with
  | .jsxIdentifier name => finish start (.jsxIdentifier name)
  | _ => rejectToken t

def elementName : Parse Node := do
  let start ← markupMark
  let first ← markupName
  if ← seesMarkup ":" then
    expectMarkup ":"
    let name ← markupName
    finish start (.jsxNamespacedName first name)
  else if ← seesMarkup "." then
    loop first fun object => do
      if ← seesMarkup "." then
        expectMarkup "."
        let name ← markupName
        return .again (← finish start (.jsxMemberExpression object name))
      else return .done object
  else return first

def attributeName : Parse Node := do
  let start ← markupMark
  let first ← markupName
  if ← seesMarkup ":" then
    expectMarkup ":"
    let name ← markupName
    finish start (.jsxNamespacedName first name)
  else return first

def qualifiedName : Node → Text
  | ⟨_, .jsxIdentifier name⟩ => name
  | ⟨_, .jsxNamespacedName space name⟩ => qualifiedName space ++ [0x3A] ++ qualifiedName name
  | ⟨_, .jsxMemberExpression object name⟩ => qualifiedName object ++ [0x2E] ++ qualifiedName name
  | _ => []

/-! ## Attributes -/

def stringAttribute : Parse Node := do
  let start ← markupMark
  let t ← nextMarkup
  match t.lexeme with
  | .string value _ => finish start (.literal (.string value) (← rawText t))
  | _ => rejectToken t

def expressionAttribute (g : Grammar) : Parse Node := do
  let start ← markupMark
  expectMarkup "\x7b"
  skip
  if ← sees "\x7d" then complain .jsxEmptyAttribute
  let e ← g.assignment
  leaveExpression
  finish start (.jsxExpressionContainer e)

def attributeValue (g : Grammar) : Parse Node := do
  if ← seesMarkup "\x7b" then expressionAttribute g
  else if ← seesMarkup "<" then g.element
  else stringAttribute

def namedAttribute (g : Grammar) : Parse Node := do
  let start ← markupMark
  let name ← attributeName
  let value ←
    if ← seesMarkup "=" then do
      expectMarkup "="
      some <$> attributeValue g
    else pure none
  finish start (.jsxAttribute name value)

def spreadAttribute (g : Grammar) : Parse Node := do
  let start ← markupMark
  expectMarkup "\x7b"
  expectMarkup "..."
  skip
  let argument ← g.assignment
  leaveExpression
  finish start (.jsxSpreadAttribute argument)

def attributes (g : Grammar) : Parse (List Node) :=
  until' (do
      let l ← peekMarkup
      return l.isMark "/" || l.isMark ">") do
    if ← seesMarkup "\x7b" then spreadAttribute g else namedAttribute g

/-! ## Elements -/

def openingTail (g : Grammar) (start : Mark) : Parse Node := do
  let name ← elementName
  let attributes ← attributes g
  let selfClosing ← seesMarkup "/"
  if selfClosing then expectMarkup "/"
  expectMarkup ">"
  finish start (.jsxOpeningElement name selfClosing attributes)

def openingElement (g : Grammar) : Parse Node := do
  let start ← markupMark
  expectMarkup "<"
  openingTail g start

def boundaryElement (g : Grammar) : Parse Node := do
  let start ← markupMark
  expectMarkup "<"
  if ← seesMarkup "/" then
    expectMarkup "/"
    let name ← elementName
    expectMarkup ">"
    finish start (.jsxClosingElement name)
  else openingTail g start

def emptyExpression : Parse Node := do
  let start ← scanMark
  takeComments
  let stop ← scanMark
  modify fun s => { s with lastMark := stop }
  finish start .jsxEmptyExpression

def expressionContainer (g : Grammar) : Parse Node := do
  let start ← markupMark
  expectMarkup "\x7b"
  if ← seesMarkup "\x7d" then
    let e ← emptyExpression
    expectMarkup "\x7d"
    finish start (.jsxExpressionContainer e)
  else
    skip
    let e ← g.assignment
    leaveExpression
    finish start (.jsxExpressionContainer e)

def textChildren (g : Grammar) : Parse (List Node) := do
  let reversed ← loop ([] : List Node) fun found => do
    if ← scan Scan.atEnd then return .done found
    let start ← scanMark
    let t ← nextText
    let found ← match t.lexeme with
      | .jsxText value =>
        if t.start < t.stop then do pure ((← finish start (.jsxText value (← rawText t))) :: found)
        else pure found
      | _ => pure found
    if (← scan Scan.here) == 0x7B then return .again ((← expressionContainer g) :: found)
    else return .done found
  return reversed.reverse

structure OpenElement where
  start : Mark
  opening : Node
  children : List Node := []

def isSelfClosing (n : Node) : Bool :=
  match n.shape with
  | .jsxOpeningElement _ selfClosing _ => selfClosing
  | _ => false

def tagName (n : Node) : Text :=
  match n.shape with
  | .jsxOpeningElement name _ _ => qualifiedName name
  | .jsxClosingElement name => qualifiedName name
  | _ => []

/-- The children of an element and its closing tag. Elements inside are kept on a stack while they are
open. If the program ends first, those of the innermost open element are returned. -/
def elementTail (g : Grammar) (outer : OpenElement) : Parse (List Node × Option Node) :=
  loop (outer, ([] : List OpenElement)) fun (e, stack) => do
    if ← scan Scan.atEnd then return .done (e.children, none)
    let e := { e with children := e.children ++ (← textChildren g) }
    let start ← scanMark
    let tag ← boundaryElement g
    match tag.shape with
    | .jsxClosingElement _ =>
      let name := tagName e.opening
      if name != tagName tag then complain .jsxClosingTag [name]
      match stack with
      | parent :: rest =>
        let child ← finish e.start (.jsxElement e.opening e.children (some tag))
        return .again ({ parent with children := parent.children ++ [child] }, rest)
      | [] => return .done (e.children, some tag)
    | _ =>
      if isSelfClosing tag then
        let child ← finish start (.jsxElement tag [] none)
        return .again ({ e with children := e.children ++ [child] }, stack)
      else return .again ({ start, opening := tag }, e :: stack)

def element (g : Grammar) : Parse Node := do
  let start ← markupMark
  let opening ← openingElement g
  if isSelfClosing opening then finish start (.jsxElement opening [] none)
  else
    let (children, closing) ← elementTail g { start, opening }
    finish start (.jsxElement opening children closing)

def rootElement (g : Grammar) : Parse Node := do
  if (← options).tokens then unlistToken
  enterMarkup
  let e ← element g
  skip
  return e

end ScriptTree.Parse
