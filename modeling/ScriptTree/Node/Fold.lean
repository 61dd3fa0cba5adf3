import ScriptTree.Node.Basic

/-!
Folding a tree from its leaves up.
-/

namespace ScriptTree.Node

variable {β : Type} (f : Info → Shape β → β)

mutual

/-- The result of a function that makes a result for a node from those of the nodes below. -/
def fold : Node → β
  | ⟨info, shape⟩ => f info (foldShape shape)

def foldShape : Shape Node → Shape β
  | .arrayExpression xs => .arrayExpression (foldHoles xs)
  | .arrayPattern xs => .arrayPattern (foldHoles xs)
  | .arrowFunction u xs a v => .arrowFunction u (foldList xs) (fold a) v
  | .assignmentExpression u a b => .assignmentExpression u (fold a) (fold b)
  | .assignmentPattern a b => .assignmentPattern (fold a) (fold b)
  | .awaitExpression a => .awaitExpression (fold a)
  | .binaryExpression u a b => .binaryExpression u (fold a) (fold b)
  | .blockStatement xs => .blockStatement (foldList xs)
  | .breakStatement o => .breakStatement (foldOption o)
  | .callExpression a xs => .callExpression (fold a) (foldList xs)
  | .catchClause a b => .catchClause (fold a) (fold b)
  | .classBody xs => .classBody (foldList xs)
  | .classDeclaration o p a => .classDeclaration (foldOption o) (foldOption p) (fold a)
  | .classExpression o p a => .classExpression (foldOption o) (foldOption p) (fold a)
  | .conditionalExpression a b c => .conditionalExpression (fold a) (fold b) (fold c)
  | .continueStatement o => .continueStatement (foldOption o)
  | .debuggerStatement => .debuggerStatement
  | .directive a u => .directive (fold a) u
  | .doWhileStatement a b => .doWhileStatement (fold a) (fold b)
  | .emptyStatement => .emptyStatement
  | .exportAllDeclaration a => .exportAllDeclaration (fold a)
  | .exportDefaultDeclaration a => .exportDefaultDeclaration (fold a)
  | .exportNamedDeclaration o xs p => .exportNamedDeclaration (foldOption o) (foldList xs) (foldOption p)
  | .exportSpecifier a b => .exportSpecifier (fold a) (fold b)
  | .exportDefaultSpecifier a => .exportDefaultSpecifier (fold a)
  | .expressionStatement a => .expressionStatement (fold a)
  | .forInStatement a b c => .forInStatement (fold a) (fold b) (fold c)
  | .forOfStatement a b c => .forOfStatement (fold a) (fold b) (fold c)
  | .forStatement o p q a => .forStatement (foldOption o) (foldOption p) (foldOption q) (fold a)
  | .functionDeclaration u o xs a => .functionDeclaration u (foldOption o) (foldList xs) (fold a)
  | .functionExpression u o xs a => .functionExpression u (foldOption o) (foldList xs) (fold a)
  | .identifier u => .identifier u
  | .ifStatement a b o => .ifStatement (fold a) (fold b) (foldOption o)
  | .importWord => .importWord
  | .importDeclaration xs a => .importDeclaration (foldList xs) (fold a)
  | .importDefaultSpecifier a => .importDefaultSpecifier (fold a)
  | .importNamespaceSpecifier a => .importNamespaceSpecifier (fold a)
  | .importSpecifier a b => .importSpecifier (fold a) (fold b)
  | .labeledStatement a b => .labeledStatement (fold a) (fold b)
  | .literal u v => .literal u v
  | .metaProperty a b => .metaProperty (fold a) (fold b)
  | .methodDefinition a u b v w => .methodDefinition (fold a) u (fold b) v w
  | .fieldDefinition a u o v => .fieldDefinition (fold a) u (foldOption o) v
  | .program u xs => .program u (foldList xs)
  | .newExpression a xs => .newExpression (fold a) (foldList xs)
  | .objectExpression xs => .objectExpression (foldList xs)
  | .objectPattern xs => .objectPattern (foldList xs)
  | .property u a v b w t => .property u (fold a) v (fold b) w t
  | .regexLiteral u v w t => .regexLiteral u v w t
  | .restElement a => .restElement (fold a)
  | .returnStatement o => .returnStatement (foldOption o)
  | .sequenceExpression xs => .sequenceExpression (foldList xs)
  | .spreadElement a => .spreadElement (fold a)
  | .memberExpression u a b => .memberExpression u (fold a) (fold b)
  | .superWord => .superWord
  | .switchCase o xs => .switchCase (foldOption o) (foldList xs)
  | .switchStatement a xs => .switchStatement (fold a) (foldList xs)
  | .taggedTemplate a b => .taggedTemplate (fold a) (fold b)
  | .templateElement u v w => .templateElement u v w
  | .templateLiteral xs ys => .templateLiteral (foldList xs) (foldList ys)
  | .thisExpression => .thisExpression
  | .throwStatement a => .throwStatement (fold a)
  | .tryStatement a o p => .tryStatement (fold a) (foldOption o) (foldOption p)
  | .unaryExpression u a => .unaryExpression u (fold a)
  | .updateExpression u a v => .updateExpression u (fold a) v
  | .variableDeclaration xs u => .variableDeclaration (foldList xs) u
  | .variableDeclarator a o => .variableDeclarator (fold a) (foldOption o)
  | .whileStatement a b => .whileStatement (fold a) (fold b)
  | .withStatement a b => .withStatement (fold a) (fold b)
  | .yieldExpression o u => .yieldExpression (foldOption o) u
  | .arrowParameters u xs => .arrowParameters u (foldList xs)
  | .jsxClosingElement a => .jsxClosingElement (fold a)
  | .jsxElement a xs o => .jsxElement (fold a) (foldList xs) (foldOption o)
  | .jsxEmptyExpression => .jsxEmptyExpression
  | .jsxExpressionContainer a => .jsxExpressionContainer (fold a)
  | .jsxIdentifier u => .jsxIdentifier u
  | .jsxMemberExpression a b => .jsxMemberExpression (fold a) (fold b)
  | .jsxAttribute a o => .jsxAttribute (fold a) (foldOption o)
  | .jsxNamespacedName a b => .jsxNamespacedName (fold a) (fold b)
  | .jsxOpeningElement a u xs => .jsxOpeningElement (fold a) u (foldList xs)
  | .jsxSpreadAttribute a => .jsxSpreadAttribute (fold a)
  | .jsxText u v => .jsxText u v

def foldOption : Option Node → Option β
  | some n => some (fold n)
  | none => none

def foldList : List Node → List β
  | [] => []
  | n :: rest => fold n :: foldList rest

def foldHoles : List (Option Node) → List (Option β)
  | [] => []
  | n :: rest => foldOption n :: foldHoles rest

end

def annotate (remarks : Nat → Remarks) (n : Node) : Node :=
  n.fold fun info shape => ⟨{ info with remarks := remarks info.id }, shape⟩

end ScriptTree.Node
