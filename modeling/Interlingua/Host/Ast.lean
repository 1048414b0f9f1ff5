import Interlingua.Extent

namespace Interlingua.Host

/-- A declared parameter. Its name may have dollar signs in front. -/
structure ParamDecl where
  extent : Extent
  name : String
  typeName : Option String
deriving DecidableEq

mutual

structure Ast where
  extent : Extent
  kind : Kind

inductive Kind where
  | scriptBlock (paramBlock : Option (List ParamDecl)) (statements : List Ast)
  | statementBlock (statements : List Ast)
  | pipeline (elements : List Ast)
  | commandExpression (expression : Ast)
  | command (elements : List Ast)
  /-- `-Name` or `-Name:value`. -/
  | commandParameter (name : String) (argument : Option Ast)
  | assignment (left : Ast) (operator : String) (right : Ast)
  | binary (left : Ast) (operator : String) (right : Ast)
  | unary (token : String) (child : Ast)
  | constant (value : String)
  | stringConstant (value : String)
  /-- Text in double quotes: escapes are resolved, references are kept. -/
  | expandableString (value : String)
  | var (path : String)
  | convert (typeName : String) (child : Ast)
  | typeExpression (typeName : String)
  | ifStatement (clauses : List IfClause) (elseClause : Option Ast)
  | whileStatement (condition body : Ast)
  | forStatement (initializer condition step : Option Ast) (body : Ast)
  | forEachStatement (item condition body : Ast)
  | breakStatement
  | continueStatement
  | returnStatement (pipeline : Option Ast)
  | tryStatement (body : Ast) (catches : List CatchClause) (final : Option Ast)
  | function (name : String) (parameters : List ParamDecl) (body : Ast)
  /-- A parameter where a node stands. -/
  | parameter (name : String) (typeName : Option String)
  | index (target index : Ast)
  | invokeMember (expression : Ast) (member : String) (arguments : List Ast) (isStatic : Bool)
  | member (expression : Ast) (member : String) (isStatic : Bool)
  | paren (pipeline : Ast)
  | subExpression (statements : List Ast)
  | arrayLiteral (elements : List Ast)
  | arrayExpression (statements : List Ast)
  | doWhile (condition body : Ast)
  | doUntil (condition body : Ast)
  | switchStatement
  | throwStatement (pipeline : Option Ast)
  | hashtable
  | scriptBlockExpression
  /-- Any kind that has no name here. -/
  | unknown

structure IfClause where
  condition : Ast
  body : Ast

structure CatchClause where
  extent : Extent
  /-- The types of exceptions; none at all catches everything. -/
  types : List String
  body : Ast

end

instance : Inhabited Ast := ⟨⟨{}, .unknown⟩⟩

def Kind.name : Kind → String
  | scriptBlock .. => "ScriptBlock"
  | statementBlock .. => "StatementBlock"
  | pipeline .. => "Pipeline"
  | commandExpression .. => "CommandExpression"
  | command .. => "Command"
  | commandParameter .. => "CommandParameter"
  | assignment .. => "AssignmentStatement"
  | binary .. => "BinaryExpression"
  | unary .. => "UnaryExpression"
  | constant .. => "ConstantExpression"
  | stringConstant .. => "StringConstantExpression"
  | expandableString .. => "ExpandableStringExpression"
  | var .. => "VariableExpression"
  | convert .. => "ConvertExpression"
  | typeExpression .. => "TypeExpression"
  | ifStatement .. => "IfStatement"
  | whileStatement .. => "WhileStatement"
  | forStatement .. => "ForStatement"
  | forEachStatement .. => "ForEachStatement"
  | breakStatement => "BreakStatement"
  | continueStatement => "ContinueStatement"
  | returnStatement .. => "ReturnStatement"
  | tryStatement .. => "TryStatement"
  | function .. => "FunctionDefinition"
  | parameter .. => "Parameter"
  | index .. => "IndexExpression"
  | invokeMember .. => "InvokeMemberExpression"
  | member .. => "MemberExpression"
  | paren .. => "ParenExpression"
  | subExpression .. => "SubExpression"
  | arrayLiteral .. => "ArrayLiteral"
  | arrayExpression .. => "ArrayExpression"
  | doWhile .. => "DoWhileStatement"
  | doUntil .. => "DoUntilStatement"
  | switchStatement => "SwitchStatement"
  | throwStatement .. => "ThrowStatement"
  | hashtable => "Hashtable"
  | scriptBlockExpression => "ScriptBlockExpression"
  | unknown => "Unknown"

/-- The position that is written for a node. A parameter's position is not. -/
def Kind.printedExtent (extent : Extent) : Kind → Extent
  | parameter .. => {}
  | _ => extent

namespace Ast

def ofKind (kind : Kind) : Ast := ⟨{}, kind⟩

def script (statements : List Ast) : Ast := ofKind (.scriptBlock none statements)

def expressionStatement (expression : Ast) : Ast :=
  ofKind (.pipeline [ofKind (.commandExpression expression)])

def assign (left right : Ast) : Ast := ofKind (.assignment left "Equals" right)

end Ast

end Interlingua.Host
