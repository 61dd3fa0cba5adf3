import ScriptTree.Lexeme.Entry
import ScriptTree.Node.Fold

/-!
Nodes as values: the class and the type of a node, and its fields in their order.
-/

namespace ScriptTree

namespace Literal

def toValue : Literal → Value
  | .null => .null
  | .boolean b => .bool b
  | .number n => .number n
  | .string t => .text t

end Literal

namespace DeclarationKind

def word : DeclarationKind → String
  | .var => "var"
  | .let' => "let"
  | .const => "const"

end DeclarationKind

namespace PropertyKind

def word : PropertyKind → String
  | .init => "init"
  | .get => "get"
  | .set => "set"

end PropertyKind

namespace MethodKind

def word : MethodKind → String
  | .constructor => "constructor"
  | .method => "method"
  | .get => "get"
  | .set => "set"

end MethodKind

namespace Remark

def toValue (r : Remark) : Value :=
  .object "Comment"
    [("type", .ofString (if r.isBlock then "Block" else "Line")), ("value", .text r.value),
     ("range", .ofOption Range.toValue r.range), ("loc", .ofOption Location.toValue r.location)]

end Remark

inductive Part (α : Type) where
  | value (v : Value)
  | one (node : α)
  | optional (node : Option α)
  | many (nodes : List α)
  | holes (nodes : List (Option α))

namespace Part

def toValue : Part Value → Value
  | .value v => v
  | .one v => v
  | .optional v => v.getD .null
  | .many vs => .list vs
  | .holes vs => .list (vs.map fun v => v.getD .null)

def nodes {α : Type} : Part α → List α
  | .value _ => []
  | .one n => [n]
  | .optional n => n.toList
  | .many ns => ns
  | .holes ns => ns.filterMap id

def flag {α : Type} (b : Bool) : Part α := .value (.bool b)

def word {α : Type} (s : String) : Part α := .value (.ofString s)

def text {α : Type} (t : Text) : Part α := .value (.text t)

end Part

namespace Shape

def className {α : Type} : Shape α → String
  | .arrayExpression .. => "ArrayExpression"
  | .arrayPattern .. => "ArrayPattern"
  | .arrowFunction isAsync .. =>
    if isAsync then "AsyncArrowFunctionExpression" else "ArrowFunctionExpression"
  | .assignmentExpression .. => "AssignmentExpression"
  | .assignmentPattern .. => "AssignmentPattern"
  | .awaitExpression .. => "AwaitExpression"
  | .binaryExpression .. => "BinaryExpression"
  | .blockStatement .. => "BlockStatement"
  | .breakStatement .. => "BreakStatement"
  | .callExpression .. => "CallExpression"
  | .catchClause .. => "CatchClause"
  | .classBody .. => "ClassBody"
  | .classDeclaration .. => "ClassDeclaration"
  | .classExpression .. => "ClassExpression"
  | .conditionalExpression .. => "ConditionalExpression"
  | .continueStatement .. => "ContinueStatement"
  | .debuggerStatement => "DebuggerStatement"
  | .directive .. => "Directive"
  | .doWhileStatement .. => "DoWhileStatement"
  | .emptyStatement => "EmptyStatement"
  | .exportAllDeclaration .. => "ExportAllDeclaration"
  | .exportDefaultDeclaration .. => "ExportDefaultDeclaration"
  | .exportNamedDeclaration .. => "ExportNamedDeclaration"
  | .exportSpecifier .. => "ExportSpecifier"
  | .exportDefaultSpecifier .. => "ExportDefaultSpecifier"
  | .expressionStatement .. => "ExpressionStatement"
  | .forInStatement .. => "ForInStatement"
  | .forOfStatement .. => "ForOfStatement"
  | .forStatement .. => "ForStatement"
  | .functionDeclaration kind .. =>
    if kind == .async then "AsyncFunctionDeclaration" else "FunctionDeclaration"
  | .functionExpression kind .. =>
    if kind == .async then "AsyncFunctionExpression" else "FunctionExpression"
  | .identifier .. => "Identifier"
  | .ifStatement .. => "IfStatement"
  | .importWord => "Import"
  | .importDeclaration .. => "ImportDeclaration"
  | .importDefaultSpecifier .. => "ImportDefaultSpecifier"
  | .importNamespaceSpecifier .. => "ImportNamespaceSpecifier"
  | .importSpecifier .. => "ImportSpecifier"
  | .labeledStatement .. => "LabeledStatement"
  | .literal .. => "Literal"
  | .metaProperty .. => "MetaProperty"
  | .methodDefinition .. => "MethodDefinition"
  | .fieldDefinition .. => "FieldDefinition"
  | .program isModule _ => if isModule then "Module" else "Script"
  | .newExpression .. => "NewExpression"
  | .objectExpression .. => "ObjectExpression"
  | .objectPattern .. => "ObjectPattern"
  | .property .. => "Property"
  | .regexLiteral .. => "RegexLiteral"
  | .restElement .. => "RestElement"
  | .returnStatement .. => "ReturnStatement"
  | .sequenceExpression .. => "SequenceExpression"
  | .spreadElement .. => "SpreadElement"
  | .memberExpression computed .. =>
    if computed then "ComputedMemberExpression" else "StaticMemberExpression"
  | .superWord => "Super"
  | .switchCase .. => "SwitchCase"
  | .switchStatement .. => "SwitchStatement"
  | .taggedTemplate .. => "TaggedTemplateExpression"
  | .templateElement .. => "TemplateElement"
  | .templateLiteral .. => "TemplateLiteral"
  | .thisExpression => "ThisExpression"
  | .throwStatement .. => "ThrowStatement"
  | .tryStatement .. => "TryStatement"
  | .unaryExpression .. => "UnaryExpression"
  | .updateExpression .. => "UpdateExpression"
  | .variableDeclaration .. => "VariableDeclaration"
  | .variableDeclarator .. => "VariableDeclarator"
  | .whileStatement .. => "WhileStatement"
  | .withStatement .. => "WithStatement"
  | .yieldExpression .. => "YieldExpression"
  | .arrowParameters isAsync _ =>
    if isAsync then "AsyncArrowParameterPlaceHolder" else "ArrowParameterPlaceHolder"
  | .jsxClosingElement .. => "JSXClosingElement"
  | .jsxElement .. => "JSXElement"
  | .jsxEmptyExpression => "JSXEmptyExpression"
  | .jsxExpressionContainer .. => "JSXExpressionContainer"
  | .jsxIdentifier .. => "JSXIdentifier"
  | .jsxMemberExpression .. => "JSXMemberExpression"
  | .jsxAttribute .. => "JSXAttribute"
  | .jsxNamespacedName .. => "JSXNamespacedName"
  | .jsxOpeningElement .. => "JSXOpeningElement"
  | .jsxSpreadAttribute .. => "JSXSpreadAttribute"
  | .jsxText .. => "JSXText"

/-- The type of a node with this shape. Some classes share a type. -/
def typeName {α : Type} : Shape α → String
  | .arrowFunction .. => "ArrowFunctionExpression"
  | .binaryExpression operator .. =>
    if operator == "||" || operator == "&&" then "LogicalExpression" else "BinaryExpression"
  | .directive .. => "ExpressionStatement"
  | .functionDeclaration .. => "FunctionDeclaration"
  | .functionExpression .. => "FunctionExpression"
  | .program .. => "Program"
  | .regexLiteral .. => "Literal"
  | .memberExpression .. => "MemberExpression"
  | .arrowParameters .. => "ArrowParameterPlaceHolder"
  | s => s.className

/-- The fields of a function. Their order depends on its kind. -/
def functionParts {α : Type} (kind : FunctionKind) (id : Option α) (params : List α) (body : α) :
    List (String × Part α) :=
  let head : List (String × Part α) :=
    [("expression", .flag false), ("isAsync", .flag (kind == .async)), ("id", .optional id),
     ("params", .many params), ("body", .one body)]
  let generator : String × Part α := ("generator", .flag (kind == .generator))
  if kind == .async then generator :: head else head ++ [generator]

def classParts {α : Type} (id superClass : Option α) (body : α) : List (String × Part α) :=
  [("id", .optional id), ("superClass", .optional superClass), ("body", .one body)]

def parts {α : Type} : Shape α → List (String × Part α)
  | .arrayExpression elements | .arrayPattern elements => [("elements", .holes elements)]
  | .arrowFunction isAsync params body isExpression =>
    [("generator", .flag false), ("isAsync", .flag isAsync), ("params", .many params), ("body", .one body),
     ("expression", .flag isExpression)]
  | .assignmentExpression operator left right | .binaryExpression operator left right =>
    [("operator", .word operator), ("left", .one left), ("right", .one right)]
  | .assignmentPattern left right => [("left", .one left), ("right", .one right)]
  | .awaitExpression argument | .restElement argument | .spreadElement argument | .throwStatement argument
  | .jsxSpreadAttribute argument => [("argument", .one argument)]
  | .blockStatement body | .classBody body => [("body", .many body)]
  | .breakStatement label | .continueStatement label => [("label", .optional label)]
  | .callExpression callee arguments | .newExpression callee arguments =>
    [("callee", .one callee), ("arguments", .many arguments)]
  | .catchClause param body => [("param", .one param), ("body", .one body)]
  | .classDeclaration id superClass body | .classExpression id superClass body =>
    classParts id superClass body
  | .conditionalExpression test consequent alternate =>
    [("test", .one test), ("consequent", .one consequent), ("alternate", .one alternate)]
  | .debuggerStatement | .emptyStatement | .importWord | .superWord | .thisExpression
  | .jsxEmptyExpression => []
  | .directive expression text => [("expression", .one expression), ("directive", .text text)]
  | .doWhileStatement body test => [("body", .one body), ("test", .one test)]
  | .exportAllDeclaration source => [("source", .one source)]
  | .exportDefaultDeclaration declaration => [("declaration", .one declaration)]
  | .exportNamedDeclaration declaration specifiers source =>
    [("declaration", .optional declaration), ("specifiers", .many specifiers), ("source", .optional source)]
  | .exportSpecifier localName exported => [("exported", .one exported), ("local", .one localName)]
  | .exportDefaultSpecifier localName | .importDefaultSpecifier localName
  | .importNamespaceSpecifier localName => [("local", .one localName)]
  | .expressionStatement expression | .jsxExpressionContainer expression => [("expression", .one expression)]
  | .forInStatement left right body =>
    [("each", .flag false), ("left", .one left), ("right", .one right), ("body", .one body)]
  | .forOfStatement left right body => [("left", .one left), ("right", .one right), ("body", .one body)]
  | .forStatement init test update body =>
    [("init", .optional init), ("test", .optional test), ("update", .optional update), ("body", .one body)]
  | .functionDeclaration kind id params body | .functionExpression kind id params body =>
    functionParts kind id params body
  | .identifier name | .jsxIdentifier name => [("name", .text name)]
  | .ifStatement test consequent alternate =>
    [("test", .one test), ("consequent", .one consequent), ("alternate", .optional alternate)]
  | .importDeclaration specifiers source => [("specifiers", .many specifiers), ("source", .one source)]
  | .importSpecifier localName imported => [("local", .one localName), ("imported", .one imported)]
  | .labeledStatement label body => [("label", .one label), ("body", .one body)]
  | .literal value raw => [("value", .value value.toValue), ("raw", .text raw)]
  | .metaProperty metaName name => [("meta", .one metaName), ("property", .one name)]
  | .methodDefinition key computed value kind isStatic =>
    [("key", .one key), ("computed", .flag computed), ("value", .one value), ("kind", .word kind.word),
     ("static", .flag isStatic)]
  | .fieldDefinition key computed value isStatic =>
    [("key", .one key), ("computed", .flag computed), ("value", .optional value), ("kind", .word "init"),
     ("static", .flag isStatic)]
  | .program isModule body =>
    [("sourceType", .word (if isModule then "module" else "script")), ("body", .many body)]
  | .objectExpression properties | .objectPattern properties => [("properties", .many properties)]
  | .property kind key computed value method shorthand =>
    [("key", .one key), ("computed", .flag computed), ("value", .one value), ("kind", .word kind.word),
     ("method", .flag method), ("shorthand", .flag shorthand)]
  | .regexLiteral value raw pattern flags =>
    [("value", .value (.ofOption .pattern value)), ("raw", .text raw),
     ("regex", .value (Entry.regexValue (pattern, flags)))]
  | .returnStatement argument => [("argument", .optional argument)]
  | .sequenceExpression expressions => [("expressions", .many expressions)]
  | .memberExpression computed object name =>
    [("computed", .flag computed), ("object", .one object), ("property", .one name)]
  | .switchCase test consequent => [("test", .optional test), ("consequent", .many consequent)]
  | .switchStatement discriminant cases => [("discriminant", .one discriminant), ("cases", .many cases)]
  | .taggedTemplate tag quasi => [("tag", .one tag), ("quasi", .one quasi)]
  | .templateElement raw cooked tail =>
    [("value", .value (.object "Value" [("raw", .text raw), ("cooked", .text cooked)])), ("tail", .flag tail)]
  | .templateLiteral quasis expressions => [("quasis", .many quasis), ("expressions", .many expressions)]
  | .tryStatement block handler finalizer =>
    [("block", .one block), ("handler", .optional handler), ("finalizer", .optional finalizer)]
  | .unaryExpression operator argument =>
    [("prefix", .flag true), ("operator", .word operator), ("argument", .one argument)]
  | .updateExpression operator argument isFront =>
    [("operator", .word operator), ("argument", .one argument), ("prefix", .flag isFront)]
  | .variableDeclaration declarations kind =>
    [("declarations", .many declarations), ("kind", .word kind.word)]
  | .variableDeclarator id init => [("id", .one id), ("init", .optional init)]
  | .whileStatement test body => [("test", .one test), ("body", .one body)]
  | .withStatement object body => [("object", .one object), ("body", .one body)]
  | .yieldExpression argument delegate => [("argument", .optional argument), ("delegate", .flag delegate)]
  | .arrowParameters isAsync params => [("params", .many params), ("isAsync", .flag isAsync)]
  | .jsxClosingElement name => [("name", .one name)]
  | .jsxElement opening children closing =>
    [("openingElement", .one opening), ("children", .many children), ("closingElement", .optional closing)]
  | .jsxMemberExpression object name => [("object", .one object), ("property", .one name)]
  | .jsxAttribute name value => [("name", .one name), ("value", .optional value)]
  | .jsxNamespacedName space name => [("namespace", .one space), ("name", .one name)]
  | .jsxOpeningElement name selfClosing attributes =>
    [("name", .one name), ("selfClosing", .flag selfClosing), ("attributes", .many attributes)]
  | .jsxText value raw => [("value", .text value), ("raw", .text raw)]

/-- The nodes right below one with this shape, in the order of its fields. -/
def children {α : Type} (s : Shape α) : List α := s.parts.flatMap fun p => p.2.nodes

end Shape

namespace Node

def Info.className {α : Type} (info : Info) (shape : Shape α) : String :=
  match info.cover with
  | some .array => "ArrayExpression"
  | some .object => "ObjectExpression"
  | some .assignment => "AssignmentExpression"
  | some .spread => "SpreadElement"
  | some .yield => "YieldExpression"
  | none => shape.className

/-- Comments as a field, if there are any. -/
def remarkField (name : String) (remarks : List Remark) : List (Text × Value) :=
  if remarks.isEmpty then [] else [(name, .list (remarks.map Remark.toValue))]

def Info.fields (source : Option Text) (info : Info) : List (Text × Value) :=
  (match info.range with
    | some r => [(Text.ofString "range", r.toValue)]
    | none => [])
  ++ (match info.location with
    | some l => [(Text.ofString "loc", l.toValue source)]
    | none => [])
  ++ remarkField "innerComments" info.remarks.inner
  ++ remarkField "leadingComments" info.remarks.leading
  ++ remarkField "trailingComments" info.remarks.trailing

/-- A node as a value, given those below it. What was first read as a yield expression has its name at
the end. -/
def shapeValue (source : Option Text) (info : Info) (shape : Shape Value) : Value :=
  let own := shape.parts.map fun p => (Text.ofString p.1, p.2.toValue)
  let rest := info.fields source
  .object (info.className shape) <|
    (Text.ofString "type", .ofString shape.typeName) ::
      if info.cover == some .yield then rest ++ own else own ++ rest

/-- A tree as a value. Locations carry the name of the source. -/
def toValue (source : Option Text) (n : Node) : Value := n.fold (shapeValue source)

end Node

end ScriptTree
