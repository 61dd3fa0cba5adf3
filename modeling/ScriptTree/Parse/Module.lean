import ScriptTree.Parse.Object
import ScriptTree.Parse.Statement

/-!
Imports and exports, and the statements and declarations at the top of a program.
-/

namespace ScriptTree.Parse

def moduleSpecifier : Parse Node := do
  let start ← startMark
  match ← peek with
  | .string .. =>
    let t ← next
    finish start (.literal (literalOf t.lexeme) (← rawText t))
  | _ => reject .moduleSpecifier

def hasValue (l : Lexeme) : Bool :=
  match l.value with
  | .inr t => !t.isEmpty
  | .inl n => n != .integer 0

def rejectMissingFrom {α : Type} : Parse α := do
  let l ← peek
  if hasValue l then reject .unexpectedToken [← tokenText l] else reject .missingFrom

def fromClause : Parse Node := do
  unless ← seesName "from" do rejectMissingFrom
  skip
  moduleSpecifier

/-! ## Imports -/

def importSpecifier : Parse Node := do
  let start ← startMark
  let isFree ← seesIdentifier
  let imported ← if isFree then bindingName else anyName
  if ← seesName "as" then
    skip
    let name ← bindingName
    finish start (.importSpecifier name imported)
  else if isFree then finish start (.importSpecifier imported imported)
  else rejectToken (← next)

/-- Items in braces, separated by commas. -/
def inBraces {α : Type} (item : Parse α) : Parse (List α) := do
  expect "\x7b"
  let found ← until' (sees "\x7d") do
    let n ← item
    unless ← sees "\x7d" do expect ","
    return n
  expect "\x7d"
  return found

def importDefault : Parse Node := do
  let start ← startMark
  let name ← anyName
  finish start (.importDefaultSpecifier name)

def importNamespace : Parse Node := do
  let start ← startMark
  expect "*"
  unless ← seesName "as" do reject .missingAs
  skip
  let name ← anyName
  finish start (.importNamespaceSpecifier name)

def importSpecifiers : Parse (List Node) := do
  if ← sees "\x7b" then inBraces importSpecifier
  else if ← sees "*" then return [← importNamespace]
  else if isNameToken (← peek) && !(← seesWord "default") then
    let first ← importDefault
    if ← sees "," then
      skip
      if ← sees "*" then return [first, ← importNamespace]
      else if ← sees "\x7b" then return first :: (← inBraces importSpecifier)
      else rejectAhead
    else return [first]
  else rejectToken (← next)

def importDeclaration : Parse Node := do
  if (← context).inFunction then reject .strayImport
  let start ← startMark
  expectWord "import"
  let (specifiers, source) ← match ← peek with
    | .string .. => do pure ([], ← moduleSpecifier)
    | _ => do
      let specifiers ← importSpecifiers
      pure (specifiers, ← fromClause)
  semicolon
  finish start (.importDeclaration specifiers source)

/-! ## Exports -/

/-- One name among those that are exported. Tells whether it starts with the word for the default
export. -/
def exportSpecifier : Parse (Node × Bool) := do
  let start ← startMark
  let isDefault ← seesWord "default"
  let name ← anyName
  let exported ←
    if ← seesName "as" then do
      skip
      anyName
    else pure name
  return (← finish start (.exportSpecifier name exported), isDefault)

/-- A name that is exported from another module as what that exports by default. -/
def exportDefaultSpecifier : Parse Node := do
  let start ← startMark
  let name ← anyName
  finish start (.exportDefaultSpecifier name)

def exportDefault (g : Grammar) : Parse Node := do
  if ← seesWord "function" then functionDeclaration g true
  else if ← seesWord "class" then classDeclaration g true
  else if ← seesName "async" then
    if ← seesAsyncFunction then functionDeclaration g true else g.assignment
  else
    if ← seesName "from" then reject .unexpectedToken ["from"]
    let n ←
      if ← sees "\x7b" then objectLiteral g
      else if ← sees "[" then arrayLiteral g
      else g.assignment
    semicolon
    return n

/-- A declaration that is exported, by its word. -/
def exportedDeclaration (g : Grammar) (word : String) : Parse Node := do
  if word == "let" || word == "const" then lexicalDeclaration g
  else if word == "var" || word == "class" || word == "function" then g.item
  else rejectAhead

/-- Names that are exported, of this module or of another one. The name of the default export needs another
one. -/
def exportNames (start : Mark) : Parse Node := do
  let first ← if ← seesIdentifier then some <$> exportDefaultSpecifier else pure none
  let expectMore := first.isNone || (← sees ",")
  if first.isSome && expectMore then skip
  let more ← if expectMore then inBraces exportSpecifier else pure []
  let specifiers := first.toList ++ more.map Prod.fst
  if ← seesName "from" then
    let source ← fromClause
    semicolon
    finish start (.exportNamedDeclaration none specifiers (some source))
  else if more.any Prod.snd then rejectMissingFrom
  else
    semicolon
    finish start (.exportNamedDeclaration none specifiers none)

def exportDeclaration (g : Grammar) : Parse Node := do
  if (← context).inFunction then reject .strayExport
  let start ← startMark
  expectWord "export"
  match ← peek with
  | .keyword "default" =>
    skip
    finish start (.exportDefaultDeclaration (← exportDefault g))
  | .punctuator "*" =>
    skip
    let source ← fromClause
    semicolon
    finish start (.exportAllDeclaration source)
  | .keyword word => finish start (.exportNamedDeclaration (some (← exportedDeclaration g word)) [] none)
  | _ =>
    if ← seesAsyncFunction then
      finish start (.exportNamedDeclaration (some (← functionDeclaration g)) [] none)
    else exportNames start

/-! ## Items -/

def item (g : Grammar) : Parse Node := do
  setContext fun c => { c with isTarget := true, isBinding := true }
  let t ← lookahead
  match t.lexeme with
  | .keyword "export" =>
    if !(← context).isModule then complainToken t (some .strayExport)
    exportDeclaration g
  | .keyword "import" =>
    if ← seesImportCall then expressionStatement g
    else
      if !(← context).isModule then complainToken t (some .strayImport)
      importDeclaration
  | .keyword "const" => lexicalDeclaration g
  | .keyword "function" => functionDeclaration g
  | .keyword "class" => classDeclaration g
  | .keyword "let" => if ← seesLexicalDeclaration then lexicalDeclaration g else g.statement
  | _ => g.statement

end ScriptTree.Parse
