import ScriptTree.Location
import ScriptTree.Number.Basic
import ScriptTree.Regex.Basic

/-!
Nodes of a syntax tree. A node is a shape, which holds the nodes below it, with what is known about its
place.
-/

namespace ScriptTree

inductive Literal where
  | null
  | boolean (value : Bool)
  | number (value : Number)
  | string (value : Text)
deriving DecidableEq, Repr, Inhabited

inductive FunctionKind where
  | plain
  | generator
  | async
deriving DecidableEq, Repr, Inhabited

inductive DeclarationKind where
  | var
  | let'
  | const
deriving DecidableEq, Repr, Inhabited

inductive PropertyKind where
  | init
  | get
  | set
deriving DecidableEq, Repr, Inhabited

inductive MethodKind where
  | constructor
  | method
  | get
  | set
deriving DecidableEq, Repr, Inhabited

inductive Shape (α : Type) where
  | arrayExpression (elements : List (Option α))
  | arrayPattern (elements : List (Option α))
  | arrowFunction (isAsync : Bool) (params : List α) (body : α) (isExpression : Bool)
  | assignmentExpression (operator : String) (left right : α)
  | assignmentPattern (left right : α)
  | awaitExpression (argument : α)
  | binaryExpression (operator : String) (left right : α)
  | blockStatement (body : List α)
  | breakStatement (label : Option α)
  | callExpression (callee : α) (arguments : List α)
  | catchClause (param body : α)
  | classBody (body : List α)
  | classDeclaration (id superClass : Option α) (body : α)
  | classExpression (id superClass : Option α) (body : α)
  | conditionalExpression (test consequent alternate : α)
  | continueStatement (label : Option α)
  | debuggerStatement
  | directive (expression : α) (text : Text)
  | doWhileStatement (body test : α)
  | emptyStatement
  | exportAllDeclaration (source : α)
  | exportDefaultDeclaration (declaration : α)
  | exportNamedDeclaration (declaration : Option α) (specifiers : List α) (source : Option α)
  | exportSpecifier (localName exported : α)
  | exportDefaultSpecifier (localName : α)
  | expressionStatement (expression : α)
  | forInStatement (left right body : α)
  | forOfStatement (left right body : α)
  | forStatement (init test update : Option α) (body : α)
  | functionDeclaration (kind : FunctionKind) (id : Option α) (params : List α) (body : α)
  | functionExpression (kind : FunctionKind) (id : Option α) (params : List α) (body : α)
  | identifier (name : Text)
  | ifStatement (test consequent : α) (alternate : Option α)
  | importWord
  | importDeclaration (specifiers : List α) (source : α)
  | importDefaultSpecifier (localName : α)
  | importNamespaceSpecifier (localName : α)
  | importSpecifier (localName imported : α)
  | labeledStatement (label body : α)
  | literal (value : Literal) (raw : Text)
  | metaProperty (metaName property : α)
  | methodDefinition (key : α) (computed : Bool) (value : α) (kind : MethodKind) (isStatic : Bool)
  | fieldDefinition (key : α) (computed : Bool) (value : Option α) (isStatic : Bool)
  | program (isModule : Bool) (body : List α)
  | newExpression (callee : α) (arguments : List α)
  | objectExpression (properties : List α)
  | objectPattern (properties : List α)
  | property (kind : PropertyKind) (key : α) (computed : Bool) (value : α) (method shorthand : Bool)
  | regexLiteral (value : Option Regex.Pattern) (raw pattern flags : Text)
  | restElement (argument : α)
  | returnStatement (argument : Option α)
  | sequenceExpression (expressions : List α)
  | spreadElement (argument : α)
  | memberExpression (computed : Bool) (object property : α)
  | superWord
  | switchCase (test : Option α) (consequent : List α)
  | switchStatement (discriminant : α) (cases : List α)
  | taggedTemplate (tag quasi : α)
  | templateElement (raw cooked : Text) (tail : Bool)
  | templateLiteral (quasis expressions : List α)
  | thisExpression
  | throwStatement (argument : α)
  | tryStatement (block : α) (handler finalizer : Option α)
  | unaryExpression (operator : String) (argument : α)
  | updateExpression (operator : String) (argument : α) (isFront : Bool)
  | variableDeclaration (declarations : List α) (kind : DeclarationKind)
  | variableDeclarator (id : α) (init : Option α)
  | whileStatement (test body : α)
  | withStatement (object body : α)
  | yieldExpression (argument : Option α) (delegate : Bool)
  /-- Expressions in parentheses that can only be the parameters of an arrow function. -/
  | arrowParameters (isAsync : Bool) (params : List α)
  | jsxClosingElement (name : α)
  | jsxElement (opening : α) (children : List α) (closing : Option α)
  | jsxEmptyExpression
  | jsxExpressionContainer (expression : α)
  | jsxIdentifier (name : Text)
  | jsxMemberExpression (object property : α)
  | jsxAttribute (name : α) (value : Option α)
  | jsxNamespacedName (space name : α)
  | jsxOpeningElement (name : α) (selfClosing : Bool) (attributes : List α)
  | jsxSpreadAttribute (argument : α)
  | jsxText (value raw : Text)
deriving Inhabited

/-- A comment beside a node, or in the list of all comments. -/
structure Remark where
  isBlock : Bool
  value : Text
  range : Option Range := none
  location : Option Location := none
deriving DecidableEq, Repr, Inhabited

structure Remarks where
  inner : List Remark := []
  leading : List Remark := []
  trailing : List Remark := []
deriving DecidableEq, Repr, Inhabited

/-- Forms that are read as an expression and may turn out to be part of a pattern. -/
inductive Cover where
  | array
  | object
  | assignment
  | spread
  | yield
deriving DecidableEq, Repr, Inhabited

namespace Node

structure Info where
  /-- The number of the node, by which comments are attached to it. -/
  id : Nat := 0
  range : Option Range := none
  location : Option Location := none
  /-- The form that the node was read as, if it turned out to be another one. -/
  cover : Option Cover := none
  remarks : Remarks := {}
deriving DecidableEq, Repr, Inhabited

end Node

structure Node where
  info : Node.Info
  shape : Shape Node

instance : Inhabited Node := ⟨⟨{}, .emptyStatement⟩⟩

namespace Node

def bare (shape : Shape Node) : Node := ⟨{}, shape⟩

def name? (n : Node) : Option Text :=
  match n.shape with
  | .identifier name => some name
  | _ => none

def isNamed (n : Node) (name : String) : Bool :=
  match n.shape with
  | .identifier t => t.is name
  | _ => false

def isIdentifier (n : Node) : Bool := n.name?.isSome

end Node

end ScriptTree
