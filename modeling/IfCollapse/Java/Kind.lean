import IfCollapse.Text.Quoted

/-!
Kinds of Java syntax elements. The kinds that decide something have a constructor; all others keep
their grammar name.
-/

namespace IfCollapse.Java

inductive Kind where
  | ifStatement
  | block
  | returnStatement
  | yieldStatement
  | throwStatement
  | breakStatement
  | continueStatement
  | expressionStatement
  | localVariableDeclaration
  | switchBlockStatementGroup
  | variableDeclarator
  | assignmentExpression
  | binaryExpression
  | ternaryExpression
  | parenthesizedExpression
  | unaryExpression
  | lambdaExpression
  | methodInvocation
  | argumentList
  | fieldAccess
  | arrayAccess
  | castExpression
  | objectCreationExpression
  | identifier
  | typeIdentifier
  | integerLiteral
  | floatingPointLiteral
  | characterLiteral
  | stringLiteral
  | stringFragment
  | escapeSequence
  | trueLiteral
  | falseLiteral
  | nullLiteral
  | thisReference
  | other (name : String)
  deriving DecidableEq, Repr

namespace Kind

/-- Number literals of every base, and both kinds of string fragments, fall together. -/
def ofName : String → Kind
  | "if_statement" => .ifStatement
  | "block" => .block
  | "return_statement" => .returnStatement
  | "yield_statement" => .yieldStatement
  | "throw_statement" => .throwStatement
  | "break_statement" => .breakStatement
  | "continue_statement" => .continueStatement
  | "expression_statement" => .expressionStatement
  | "local_variable_declaration" => .localVariableDeclaration
  | "switch_block_statement_group" => .switchBlockStatementGroup
  | "variable_declarator" => .variableDeclarator
  | "assignment_expression" => .assignmentExpression
  | "binary_expression" => .binaryExpression
  | "ternary_expression" => .ternaryExpression
  | "parenthesized_expression" => .parenthesizedExpression
  | "unary_expression" => .unaryExpression
  | "lambda_expression" => .lambdaExpression
  | "method_invocation" => .methodInvocation
  | "argument_list" => .argumentList
  | "field_access" => .fieldAccess
  | "array_access" => .arrayAccess
  | "cast_expression" => .castExpression
  | "object_creation_expression" => .objectCreationExpression
  | "identifier" => .identifier
  | "type_identifier" => .typeIdentifier
  | "decimal_integer_literal" => .integerLiteral
  | "hex_integer_literal" => .integerLiteral
  | "octal_integer_literal" => .integerLiteral
  | "binary_integer_literal" => .integerLiteral
  | "decimal_floating_point_literal" => .floatingPointLiteral
  | "hex_floating_point_literal" => .floatingPointLiteral
  | "character_literal" => .characterLiteral
  | "string_literal" => .stringLiteral
  | "string_fragment" => .stringFragment
  | "multiline_string_fragment" => .stringFragment
  | "escape_sequence" => .escapeSequence
  | "true" => .trueLiteral
  | "false" => .falseLiteral
  | "null_literal" => .nullLiteral
  | "this" => .thisReference
  | name => .other name

/-- The name under which a kind is shown; a kind without a constructor shows its grammar name in
quotes. -/
def display : Kind → String
  | .ifStatement => "IfStatement"
  | .block => "Block"
  | .returnStatement => "ReturnStatement"
  | .yieldStatement => "YieldStatement"
  | .throwStatement => "ThrowStatement"
  | .breakStatement => "BreakStatement"
  | .continueStatement => "ContinueStatement"
  | .expressionStatement => "ExpressionStatement"
  | .localVariableDeclaration => "LocalVariableDeclaration"
  | .switchBlockStatementGroup => "SwitchBlockStatementGroup"
  | .variableDeclarator => "VariableDeclarator"
  | .assignmentExpression => "AssignmentExpression"
  | .binaryExpression => "BinaryExpression"
  | .ternaryExpression => "TernaryExpression"
  | .parenthesizedExpression => "ParenthesizedExpression"
  | .unaryExpression => "UnaryExpression"
  | .lambdaExpression => "LambdaExpression"
  | .methodInvocation => "MethodInvocation"
  | .argumentList => "ArgumentList"
  | .fieldAccess => "FieldAccess"
  | .arrayAccess => "ArrayAccess"
  | .castExpression => "CastExpression"
  | .objectCreationExpression => "ObjectCreationExpression"
  | .identifier => "Identifier"
  | .typeIdentifier => "TypeIdentifier"
  | .integerLiteral => "IntegerLiteral"
  | .floatingPointLiteral => "FloatingPointLiteral"
  | .characterLiteral => "CharacterLiteral"
  | .stringLiteral => "StringLiteral"
  | .stringFragment => "StringFragment"
  | .escapeSequence => "EscapeSequence"
  | .trueLiteral => "True"
  | .falseLiteral => "False"
  | .nullLiteral => "NullLiteral"
  | .thisReference => "This"
  | .other name => "Other(" ++ String.ofList (quote name.toList) ++ ")"

/-- Tokens of these kinds are equal only if their texts are. -/
def carriesText : Kind → Bool
  | .identifier | .typeIdentifier | .integerLiteral | .floatingPointLiteral | .characterLiteral
  | .stringLiteral | .stringFragment | .escapeSequence => true
  | _ => false

/-- Statements that never pass control to the next statement. -/
def isJump : Kind → Bool
  | .returnStatement | .yieldStatement | .throwStatement | .breakStatement
  | .continueStatement => true
  | _ => false

def isSequence : Kind → Bool
  | .block | .switchBlockStatementGroup => true
  | _ => false

/-- Leaves that stay tokens although the grammar names them. -/
def isFragment : Kind → Bool
  | .stringFragment | .escapeSequence => true
  | _ => false

/-- Expressions that bind looser than the operands of a conditional expression. -/
def bindsLoosely : Kind → Bool
  | .ternaryExpression | .assignmentExpression | .lambdaExpression => true
  | _ => false

end Kind

end IfCollapse.Java
