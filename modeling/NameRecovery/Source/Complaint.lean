/-!
# What can be wrong with a program text

A program text is refused with one `Complaint` at one place.  The wording of
each complaint is fixed in `Complaint.message`.
-/

namespace NameRecovery.Source

/-- What is wrong with a program text. -/
inductive Complaint where
  /-- A character or literal that is no token. -/
  | illegal
  /-- The text ends too early. -/
  | unexpectedEnd
  /-- A name where none can stand. -/
  | unexpectedIdentifier
  /-- A number where none can stand. -/
  | unexpectedNumber
  /-- A text literal where none can stand. -/
  | unexpectedString
  /-- A template where none can stand. -/
  | unexpectedTemplate (raw : String)
  /-- A word that is reserved for later editions of the language. -/
  | unexpectedReserved
  /-- A word that is reserved in strict code. -/
  | strictReserved
  /-- Any other token where it cannot stand. -/
  | unexpectedToken (spelling : String)
  /-- An import or export in a wrong place, or a clause that is missing. -/
  | misplacedClause
  /-- A hexadecimal escape without its digits. -/
  | badHexEscape
  /-- A keyword spelled with an escape. -/
  | escapedKeyword
  /-- An old octal escape in a template. -/
  | octalInTemplate
  /-- An old octal literal or escape in strict code. -/
  | octalInStrict
  /-- A regular expression that cannot be compiled. -/
  | badRegex
  /-- A regular expression without its closing slash. -/
  | unterminatedRegex
  /-- Assignment to something that holds no value. -/
  | badAssignmentTarget
  /-- A loop over properties with something that holds no value. -/
  | badForInTarget
  /-- A loop over values with something that holds no value. -/
  | badForOfTarget
  /-- A loop variable with an initial value. -/
  | loopInitializer (loop : String)
  /-- A constant without a value. -/
  | missingInitializer
  /-- A jump to a label that is not there. -/
  | unknownLabel (name : String)
  /-- A label inside a statement with the same label. -/
  | labelDeclared (name : String)
  /-- A `break` outside loops and switches. -/
  | illegalBreak
  /-- A `continue` outside loops. -/
  | illegalContinue
  /-- A `return` outside functions. -/
  | illegalReturn
  /-- A line end directly after `throw`. -/
  | newlineAfterThrow
  /-- A `try` alone. -/
  | tryAlone
  /-- A second `default` in a switch. -/
  | secondDefault
  /-- A name bound twice by a `catch`. -/
  | duplicateBinding (name : String)
  /-- A parameter after a rest parameter. -/
  | parameterAfterRest
  /-- A default for a rest element. -/
  | restDefault
  /-- A property after a rest property. -/
  | propertyAfterRest
  /-- A getter with parameters. -/
  | getterArity
  /-- A setter without exactly one parameter. -/
  | setterArity
  /-- A setter with a rest parameter. -/
  | setterRest
  /-- A second constructor. -/
  | secondConstructor
  /-- A constructor as getter, setter or generator. -/
  | specialConstructor
  /-- An asynchronous constructor. -/
  | asyncConstructor
  /-- A static member named `prototype`. -/
  | staticPrototype
  /-- Two prototypes in one object literal. -/
  | duplicatePrototype
  /-- The name `let` bound by `let` or `const`. -/
  | letAsName
  /-- A `with` statement in strict code. -/
  | strictWith
  /-- Deletion of a plain name in strict code. -/
  | strictDelete
  /-- Assignment to a restricted name in strict code. -/
  | strictAssignment
  /-- A postfix update of a restricted name in strict code. -/
  | strictPostfix
  /-- A prefixed update of a restricted name in strict code. -/
  | strictUpdate
  /-- A variable with a restricted name in strict code. -/
  | strictVariable
  /-- A caught value with a restricted name in strict code. -/
  | strictCatch
  /-- A function with a restricted name in strict code. -/
  | strictFunctionName
  /-- A parameter with a restricted name in strict code. -/
  | strictParameter
  /-- Two parameters with one name in strict code. -/
  | strictDuplicate
  /-- A function in a statement position in strict code. -/
  | strictFunction
  /-- A switch to strict code inside a function with more than plain parameters. -/
  | lateStrictDirective
  /-- A generator in a statement position. -/
  | legacyGenerator
  /-- A template that does not start with its head. -/
  | headlessTemplate
  /-- A number that is to be named and has too many digits. -/
  | unprintableNumber
  /-- More levels of nesting than the text can have. -/
  | tooDeep
  deriving Repr, DecidableEq

/-- The complaint in words. -/
def Complaint.message : Complaint → String
  | .illegal => "Unexpected token ILLEGAL"
  | .unexpectedEnd => "Unexpected end of input"
  | .unexpectedIdentifier => "Unexpected identifier"
  | .unexpectedNumber => "Unexpected number"
  | .unexpectedString => "Unexpected string"
  | .unexpectedTemplate raw => "Unexpected quasi " ++ raw
  | .unexpectedReserved => "Unexpected reserved word"
  | .strictReserved => "Use of future reserved word in strict mode"
  | .unexpectedToken spelling => "Unexpected token " ++ spelling
  | .misplacedClause => "Unexpected token"
  | .badHexEscape => "Invalid hexadecimal escape sequence"
  | .escapedKeyword => "Keyword must not contain escaped characters"
  | .octalInTemplate => "Octal literals are not allowed in template strings."
  | .octalInStrict => "Octal literals are not allowed in strict mode."
  | .badRegex => "Invalid regular expression"
  | .unterminatedRegex => "Invalid regular expression: missing /"
  | .badAssignmentTarget => "Invalid left-hand side in assignment"
  | .badForInTarget => "Invalid left-hand side in for-in"
  | .badForOfTarget => "Invalid left-hand side in for-loop"
  | .loopInitializer loop => loop ++ " loop variable declaration may not have an initializer"
  | .missingInitializer => "Missing initializer in const declaration"
  | .unknownLabel name => "Undefined label '" ++ name ++ "'"
  | .labelDeclared name => "Label '" ++ name ++ "' has already been declared"
  | .illegalBreak => "Illegal break statement"
  | .illegalContinue => "Illegal continue statement"
  | .illegalReturn => "Illegal return statement"
  | .newlineAfterThrow => "Illegal newline after throw"
  | .tryAlone => "Missing catch or finally after try"
  | .secondDefault => "More than one default clause in switch statement"
  | .duplicateBinding name => "Duplicate binding " ++ name
  | .parameterAfterRest => "Rest parameter must be last formal parameter"
  | .restDefault => "Unexpected token ="
  | .propertyAfterRest => "Unexpected token"
  | .getterArity => "Getter must not have any formal parameters"
  | .setterArity => "Setter must have exactly one formal parameter"
  | .setterRest => "Setter function argument must not be a rest parameter"
  | .secondConstructor => "A class may only have one constructor"
  | .specialConstructor => "Class constructor may not be an accessor"
  | .asyncConstructor => "Class constructor may not be an async method"
  | .staticPrototype => "Classes may not have static property named prototype"
  | .duplicatePrototype => "Duplicate __proto__ fields are not allowed in object literals"
  | .letAsName => "let is disallowed as a lexically bound name"
  | .strictWith => "Strict mode code may not include a with statement"
  | .strictDelete => "Delete of an unqualified identifier in strict mode."
  | .strictAssignment => "Assignment to eval or arguments is not allowed in strict mode"
  | .strictPostfix =>
    "Postfix increment/decrement may not have eval or arguments operand in strict mode"
  | .strictUpdate =>
    "Prefix increment/decrement may not have eval or arguments operand in strict mode"
  | .strictVariable => "Variable name may not be eval or arguments in strict mode"
  | .strictCatch => "Catch variable may not be eval or arguments in strict mode"
  | .strictFunctionName => "Function name may not be eval or arguments in strict mode"
  | .strictParameter => "Parameter name eval or arguments is not allowed in strict mode"
  | .strictDuplicate => "Strict mode function may not have duplicate parameter names"
  | .strictFunction =>
    "In strict mode code, functions can only be declared at top level or inside a block"
  | .lateStrictDirective =>
    "Illegal 'use strict' directive in function with non-simple parameter list"
  | .legacyGenerator => "Generator declarations are not allowed in legacy contexts"
  | .headlessTemplate => "Template literal must start with a template head"
  | .unprintableNumber =>
    "Exceeds the limit (4300 digits) for integer string conversion; " ++
      "use sys.set_int_max_str_digits() to increase the limit"
  | .tooDeep => "Nesting too deep"

/-- A complaint at a place of a text. -/
structure SourceError where
  /-- What is wrong. -/
  complaint : Complaint
  /-- The line, counted from one; an empty text has line zero. -/
  line : Nat
  /-- The column, counted from one. -/
  column : Int
  /-- The index of the character. -/
  index : Nat
  deriving Repr, DecidableEq

/-- The complaint with its line. -/
def SourceError.message (e : SourceError) : String :=
  "Line " ++ toString e.line ++ ": " ++ e.complaint.message

end NameRecovery.Source
