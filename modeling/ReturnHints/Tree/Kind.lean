/-!
# Kinds of syntax nodes

The part of TypeScript's syntax that stands around functions: punctuation, names, literals and
keywords (the *tokens*), containers, declarations, expressions, statements and types.  A kind's
code is its place in the list below, and kinds are ordered by it.
-/

namespace ReturnHints

inductive Kind
  | unknown
  | openBraceToken | closeBraceToken | openParenToken | closeParenToken | openBracketToken
  | closeBracketToken | dotToken | dotDotDotToken | semicolonToken | commaToken | lessThanToken
  | greaterThanToken | equalsToken | equalsGreaterThanToken | questionToken | colonToken
  | barToken | plusToken | asteriskToken
  | identifier | numericLiteral | stringLiteral
  | asyncKeyword | classKeyword | constKeyword | constructorKeyword | exportKeyword
  | functionKeyword | getKeyword | letKeyword | returnKeyword | setKeyword | staticKeyword
  | anyKeyword | booleanKeyword | numberKeyword | stringKeyword | voidKeyword
  | syntaxList | sourceFile | block
  | parameter | typeParameter | functionDeclaration | methodDeclaration | constructorMember
  | getAccessor | setAccessor | classDeclaration | propertyDeclaration | variableStatement
  | variableDeclarationList | variableDeclaration
  | arrowFunction | functionExpression | callExpression | objectLiteralExpression
  | propertyAssignment | binaryExpression | parenthesizedExpression
  | expressionStatement | returnStatement
  | typeReference | functionType | unionType | arrayType
deriving DecidableEq, Inhabited

namespace Kind

/-- The kinds in the order of their codes. -/
def all : List Kind :=
  [.unknown, .openBraceToken, .closeBraceToken, .openParenToken, .closeParenToken,
   .openBracketToken, .closeBracketToken, .dotToken, .dotDotDotToken, .semicolonToken,
   .commaToken, .lessThanToken, .greaterThanToken, .equalsToken, .equalsGreaterThanToken,
   .questionToken, .colonToken, .barToken, .plusToken, .asteriskToken, .identifier,
   .numericLiteral, .stringLiteral, .asyncKeyword, .classKeyword, .constKeyword,
   .constructorKeyword, .exportKeyword, .functionKeyword, .getKeyword, .letKeyword,
   .returnKeyword, .setKeyword, .staticKeyword, .anyKeyword, .booleanKeyword, .numberKeyword,
   .stringKeyword, .voidKeyword, .syntaxList, .sourceFile, .block, .parameter, .typeParameter,
   .functionDeclaration, .methodDeclaration, .constructorMember, .getAccessor, .setAccessor,
   .classDeclaration, .propertyDeclaration, .variableStatement, .variableDeclarationList,
   .variableDeclaration, .arrowFunction, .functionExpression, .callExpression,
   .objectLiteralExpression, .propertyAssignment, .binaryExpression, .parenthesizedExpression,
   .expressionStatement, .returnStatement, .typeReference, .functionType, .unionType,
   .arrayType]

/-- The name, as written in texts and on the wire. -/
def name : Kind → String
  | .unknown => "Unknown"
  | .openBraceToken => "OpenBraceToken"
  | .closeBraceToken => "CloseBraceToken"
  | .openParenToken => "OpenParenToken"
  | .closeParenToken => "CloseParenToken"
  | .openBracketToken => "OpenBracketToken"
  | .closeBracketToken => "CloseBracketToken"
  | .dotToken => "DotToken"
  | .dotDotDotToken => "DotDotDotToken"
  | .semicolonToken => "SemicolonToken"
  | .commaToken => "CommaToken"
  | .lessThanToken => "LessThanToken"
  | .greaterThanToken => "GreaterThanToken"
  | .equalsToken => "EqualsToken"
  | .equalsGreaterThanToken => "EqualsGreaterThanToken"
  | .questionToken => "QuestionToken"
  | .colonToken => "ColonToken"
  | .barToken => "BarToken"
  | .plusToken => "PlusToken"
  | .asteriskToken => "AsteriskToken"
  | .identifier => "Identifier"
  | .numericLiteral => "NumericLiteral"
  | .stringLiteral => "StringLiteral"
  | .asyncKeyword => "AsyncKeyword"
  | .classKeyword => "ClassKeyword"
  | .constKeyword => "ConstKeyword"
  | .constructorKeyword => "ConstructorKeyword"
  | .exportKeyword => "ExportKeyword"
  | .functionKeyword => "FunctionKeyword"
  | .getKeyword => "GetKeyword"
  | .letKeyword => "LetKeyword"
  | .returnKeyword => "ReturnKeyword"
  | .setKeyword => "SetKeyword"
  | .staticKeyword => "StaticKeyword"
  | .anyKeyword => "AnyKeyword"
  | .booleanKeyword => "BooleanKeyword"
  | .numberKeyword => "NumberKeyword"
  | .stringKeyword => "StringKeyword"
  | .voidKeyword => "VoidKeyword"
  | .syntaxList => "SyntaxList"
  | .sourceFile => "SourceFile"
  | .block => "Block"
  | .parameter => "Parameter"
  | .typeParameter => "TypeParameter"
  | .functionDeclaration => "FunctionDeclaration"
  | .methodDeclaration => "MethodDeclaration"
  | .constructorMember => "Constructor"
  | .getAccessor => "GetAccessor"
  | .setAccessor => "SetAccessor"
  | .classDeclaration => "ClassDeclaration"
  | .propertyDeclaration => "PropertyDeclaration"
  | .variableStatement => "VariableStatement"
  | .variableDeclarationList => "VariableDeclarationList"
  | .variableDeclaration => "VariableDeclaration"
  | .arrowFunction => "ArrowFunction"
  | .functionExpression => "FunctionExpression"
  | .callExpression => "CallExpression"
  | .objectLiteralExpression => "ObjectLiteralExpression"
  | .propertyAssignment => "PropertyAssignment"
  | .binaryExpression => "BinaryExpression"
  | .parenthesizedExpression => "ParenthesizedExpression"
  | .expressionStatement => "ExpressionStatement"
  | .returnStatement => "ReturnStatement"
  | .typeReference => "TypeReference"
  | .functionType => "FunctionType"
  | .unionType => "UnionType"
  | .arrayType => "ArrayType"

/-- The kind of a name. -/
def ofName? (s : String) : Option Kind :=
  all.find? (·.name == s)

/-- The place of the kind in `all`. -/
def code (k : Kind) : Nat := k.ctorIdx

/-- Punctuation, names, literals and keywords: the kinds from the opening brace to `void`. -/
def isToken (k : Kind) : Bool :=
  openBraceToken.code ≤ k.code && k.code ≤ voidKeyword.code

/-- The kinds of functions whose return type is of interest. -/
def isFunctionLike : Kind → Bool
  | functionDeclaration | methodDeclaration | arrowFunction | functionExpression
  | constructorMember | getAccessor | setAccessor => true
  | _ => false

/-- Sorts by code; kinds that occur twice stay together. -/
def sort (ks : List Kind) : List Kind :=
  ks.mergeSort fun a b => a.code ≤ b.code

end Kind

end ReturnHints
