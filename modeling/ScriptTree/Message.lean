import ScriptTree.Text.Basic
import ScriptTree.Text.Digit

/-!
The complaints about a program, each with its wording. A wording has places `%0`, `%1`, ... that are
filled in order.
-/

namespace ScriptTree

inductive Message where
  | importCallArity
  | getterArity
  | setterArity
  | setterRest
  | asyncConstructor
  | accessorConstructor
  | missingInitializer
  | restParameterDefault
  | restPropertyDefault
  | duplicateBinding
  | duplicateConstructor
  | duplicateProto
  | loopInitializer
  | labelledGenerator
  | strayBreak
  | strayContinue
  | strayExport
  | strayImport
  | lateStrictDirective
  | strayReturn
  | escapedKeyword
  | hexEscape
  | assignmentTarget
  | forInTarget
  | forOfTarget
  | moduleSpecifier
  | badRegex
  | letAsName
  | missingFrom
  | secondDefault
  | newlineAfterThrow
  | missingAs
  | bareTry
  | parameterAfterRest
  | propertyAfterRest
  | redeclared
  | staticPrototype
  | strictCatchName
  | strictDelete
  | strictFunction
  | strictFunctionName
  | strictAssignment
  | strictPostfix
  | strictPrefix
  | strictWith
  | strictOctal
  | strictDuplicateParameter
  | strictParameterName
  | strictReservedWord
  | strictVariableName
  | templateOctal
  | unexpectedEnd
  | unexpectedIdentifier
  | unexpectedNumber
  | unexpectedReservedWord
  | unexpectedString
  | unexpectedTemplate
  | unexpectedToken
  | illegalToken
  | unknownLabel
  | unterminatedRegex
  | jsxEmptyAttribute
  | jsxClosingTag
deriving DecidableEq, Repr, Inhabited

namespace Message

def wording : Message → String
  | .importCallArity => "Unexpected token"
  | .getterArity => "Getter must not have any formal parameters"
  | .setterArity => "Setter must have exactly one formal parameter"
  | .setterRest => "Setter function argument must not be a rest parameter"
  | .asyncConstructor => "Class constructor may not be an async method"
  | .accessorConstructor => "Class constructor may not be an accessor"
  | .missingInitializer => "Missing initializer in %0 declaration"
  | .restParameterDefault => "Unexpected token ="
  | .restPropertyDefault => "Unexpected token ="
  | .duplicateBinding => "Duplicate binding %0"
  | .duplicateConstructor => "A class may only have one constructor"
  | .duplicateProto => "Duplicate __proto__ fields are not allowed in object literals"
  | .loopInitializer => "%0 loop variable declaration may not have an initializer"
  | .labelledGenerator => "Generator declarations are not allowed in legacy contexts"
  | .strayBreak => "Illegal break statement"
  | .strayContinue => "Illegal continue statement"
  | .strayExport => "Unexpected token"
  | .strayImport => "Unexpected token"
  | .lateStrictDirective => "Illegal 'use strict' directive in function with non-simple parameter list"
  | .strayReturn => "Illegal return statement"
  | .escapedKeyword => "Keyword must not contain escaped characters"
  | .hexEscape => "Invalid hexadecimal escape sequence"
  | .assignmentTarget => "Invalid left-hand side in assignment"
  | .forInTarget => "Invalid left-hand side in for-in"
  | .forOfTarget => "Invalid left-hand side in for-loop"
  | .moduleSpecifier => "Unexpected token"
  | .badRegex => "Invalid regular expression"
  | .letAsName => "let is disallowed as a lexically bound name"
  | .missingFrom => "Unexpected token"
  | .secondDefault => "More than one default clause in switch statement"
  | .newlineAfterThrow => "Illegal newline after throw"
  | .missingAs => "Unexpected token"
  | .bareTry => "Missing catch or finally after try"
  | .parameterAfterRest => "Rest parameter must be last formal parameter"
  | .propertyAfterRest => "Unexpected token"
  | .redeclared => "%0 '%1' has already been declared"
  | .staticPrototype => "Classes may not have static property named prototype"
  | .strictCatchName => "Catch variable may not be eval or arguments in strict mode"
  | .strictDelete => "Delete of an unqualified identifier in strict mode."
  | .strictFunction =>
    "In strict mode code, functions can only be declared at top level or inside a block"
  | .strictFunctionName => "Function name may not be eval or arguments in strict mode"
  | .strictAssignment => "Assignment to eval or arguments is not allowed in strict mode"
  | .strictPostfix =>
    "Postfix increment/decrement may not have eval or arguments operand in strict mode"
  | .strictPrefix =>
    "Prefix increment/decrement may not have eval or arguments operand in strict mode"
  | .strictWith => "Strict mode code may not include a with statement"
  | .strictOctal => "Octal literals are not allowed in strict mode."
  | .strictDuplicateParameter => "Strict mode function may not have duplicate parameter names"
  | .strictParameterName => "Parameter name eval or arguments is not allowed in strict mode"
  | .strictReservedWord => "Use of future reserved word in strict mode"
  | .strictVariableName => "Variable name may not be eval or arguments in strict mode"
  | .templateOctal => "Octal literals are not allowed in template strings."
  | .unexpectedEnd => "Unexpected end of input"
  | .unexpectedIdentifier => "Unexpected identifier"
  | .unexpectedNumber => "Unexpected number"
  | .unexpectedReservedWord => "Unexpected reserved word"
  | .unexpectedString => "Unexpected string"
  | .unexpectedTemplate => "Unexpected quasi %0"
  | .unexpectedToken => "Unexpected token %0"
  | .illegalToken => "Unexpected token ILLEGAL"
  | .unknownLabel => "Undefined label '%0'"
  | .unterminatedRegex => "Invalid regular expression: missing /"
  | .jsxEmptyAttribute => "JSX attributes must only be assigned a non-empty expression"
  | .jsxClosingTag => "Expected corresponding JSX closing tag for %0"

/-- A wording with its places filled. The n-th place takes the n-th part, whatever its digit says; there
is no result if there are more places than parts. -/
def fill (parts : List Text) : Text → Option Text
  | [] => some []
  | [c] => some [c]
  | c :: d :: rest =>
    if c == 0x25 && Text.isAnyDigit d then
      match parts with
      | [] => none
      | part :: parts => (fill parts rest).map (part ++ ·)
    else (fill parts (d :: rest)).map (c :: ·)

end Message

end ScriptTree
