import Interlingua.Host.Ast

namespace Interlingua.Host

def typeNameToJson : Option String → Json := .ofOption .string

def ParamDecl.toJson (p : ParamDecl) : Json :=
  .object [("extent", p.extent.toJson), ("name", .string p.name),
    ("static_type", typeNameToJson p.typeName)]

def paramBlockToJson (block : Option (List ParamDecl)) : Json :=
  .ofOption (fun ps => .object [("parameters", .array (ps.map (·.toJson)))]) block

mutual

def Ast.toJson : Ast → Json
  | ⟨extent, kind⟩ =>
    .object (("type", .string kind.name) :: ("extent", (kind.printedExtent extent).toJson) ::
      kind.fieldsToJson)
termination_by structural a => a

/-- The members that a node of this kind has besides `type` and `extent`. -/
def Kind.fieldsToJson : Kind → List (String × Json)
  | .scriptBlock block statements =>
    [("param_block", paramBlockToJson block), ("statements", .array (astsToJson statements))]
  | .statementBlock statements => [("statements", .array (astsToJson statements))]
  | .pipeline elements => [("elements", .array (astsToJson elements))]
  | .commandExpression expression => [("expression", expression.toJson)]
  | .command elements => [("elements", .array (astsToJson elements))]
  | .commandParameter name argument =>
    [("parameter_name", .string name), ("argument", optAstToJson argument)]
  | .assignment left operator right =>
    [("left", left.toJson), ("operator", .string operator), ("right", right.toJson)]
  | .binary left operator right =>
    [("left", left.toJson), ("operator", .string operator), ("right", right.toJson)]
  | .unary token child => [("token_kind", .string token), ("child", child.toJson)]
  | .constant value => [("value", .string value)]
  | .stringConstant value => [("value", .string value)]
  | .expandableString value => [("value", .string value)]
  | .var path => [("variable_path", .string path)]
  | .convert typeName child => [("type_name", .string typeName), ("child", child.toJson)]
  | .typeExpression typeName => [("type_name", .string typeName)]
  | .ifStatement clauses elseClause =>
    [("clauses", .array (clausesToJson clauses)), ("else_clause", optAstToJson elseClause)]
  | .whileStatement condition body => [("condition", condition.toJson), ("body", body.toJson)]
  | .forStatement initializer condition step body =>
    [("initializer", optAstToJson initializer), ("condition", optAstToJson condition),
      ("iterator", optAstToJson step), ("body", body.toJson)]
  | .forEachStatement item condition body =>
    [("variable", item.toJson), ("condition", condition.toJson), ("body", body.toJson)]
  | .returnStatement pipeline => [("pipeline", optAstToJson pipeline)]
  | .tryStatement body catches final =>
    [("body", body.toJson), ("catch_clauses", .array (catchesToJson catches)),
      ("finally", optAstToJson final)]
  | .function name parameters body =>
    [("name", .string name), ("parameters", .array (parameters.map (·.toJson))),
      ("body", body.toJson)]
  | .parameter name typeName =>
    [("name", .string name), ("static_type", typeNameToJson typeName)]
  | .index target index => [("target", target.toJson), ("index", index.toJson)]
  | .invokeMember expression member arguments isStatic =>
    [("expression", expression.toJson), ("member", .string member),
      ("arguments", .array (astsToJson arguments)), ("static", .bool isStatic)]
  | .member expression member isStatic =>
    [("expression", expression.toJson), ("member", .string member), ("static", .bool isStatic)]
  | .paren pipeline => [("pipeline", pipeline.toJson)]
  | .subExpression statements => [("statements", .array (astsToJson statements))]
  | .arrayLiteral elements => [("elements", .array (astsToJson elements))]
  | .arrayExpression statements => [("statements", .array (astsToJson statements))]
  | .doWhile condition body => [("condition", condition.toJson), ("body", body.toJson)]
  | .doUntil condition body => [("condition", condition.toJson), ("body", body.toJson)]
  | .throwStatement pipeline => [("pipeline", optAstToJson pipeline)]
  | .breakStatement | .continueStatement | .switchStatement | .hashtable
  | .scriptBlockExpression | .unknown => []
termination_by structural k => k

def IfClause.toJson : IfClause → Json
  | ⟨condition, body⟩ => .object [("condition", condition.toJson), ("body", body.toJson)]
termination_by structural c => c

def CatchClause.toJson : CatchClause → Json
  | ⟨extent, types, body⟩ =>
    .object [("extent", extent.toJson), ("catch_types", .array (types.map .string)),
      ("body", body.toJson)]
termination_by structural c => c

def astsToJson : List Ast → List Json
  | [] => []
  | a :: as => a.toJson :: astsToJson as
termination_by structural as => as

def optAstToJson : Option Ast → Json
  | none => .null
  | some a => a.toJson
termination_by structural a => a

def clausesToJson : List IfClause → List Json
  | [] => []
  | c :: cs => c.toJson :: clausesToJson cs
termination_by structural cs => cs

def catchesToJson : List CatchClause → List Json
  | [] => []
  | c :: cs => c.toJson :: catchesToJson cs
termination_by structural cs => cs

end

def ParamDecl.ofJson (v : Json) : Option ParamDecl := do
  let fields ← v.fields? ["extent", "name", "static_type"]
  return ⟨← fields.defaulted "extent" {} Extent.ofJson, ← fields.required "name" Json.string?,
    ← fields.optional "static_type" Json.string?⟩

def paramBlockOfJson (v : Json) : Option (List ParamDecl) := do
  let fields ← v.fields? ["parameters"]
  fields.defaulted "parameters" [] (Json.list? ParamDecl.ofJson)

def IfClause.read (ast : Json → Option Ast) (v : Json) : Option IfClause := do
  let fields ← v.fields? ["condition", "body"]
  return ⟨← fields.required "condition" ast, ← fields.required "body" ast⟩

def CatchClause.read (ast : Json → Option Ast) (v : Json) : Option CatchClause := do
  let fields ← v.fields? ["extent", "catch_types", "body"]
  return ⟨← fields.defaulted "extent" {} Extent.ofJson,
    ← fields.defaulted "catch_types" [] (Json.list? Json.string?),
    ← fields.required "body" ast⟩

/-- What the parser calls the kinds of nodes, in the order in which numbers may stand for them. -/
def Kind.names : List String :=
  ["ScriptBlock", "StatementBlock", "Pipeline", "CommandExpression", "Command", "CommandParameter",
    "AssignmentStatement", "BinaryExpression", "UnaryExpression", "ConstantExpression",
    "StringConstantExpression", "ExpandableStringExpression", "VariableExpression",
    "ConvertExpression", "TypeExpression", "IfStatement", "WhileStatement", "ForStatement",
    "ForEachStatement", "BreakStatement", "ContinueStatement", "ReturnStatement", "TryStatement",
    "FunctionDefinition", "Parameter", "IndexExpression", "InvokeMemberExpression",
    "MemberExpression", "ParenExpression", "SubExpression", "ArrayLiteral", "ArrayExpression",
    "DoWhileStatement", "DoUntilStatement", "SwitchStatement", "ThrowStatement", "Hashtable",
    "ScriptBlockExpression", "Unknown"]

/-- The kind that a tag names. A number names a kind by its place, any other of 64 bits none. -/
def Kind.nameOfJson : Json → Option String
  | .string name => some name
  | .natural n => if n < UInt64.size then some (names.getD n "Unknown") else none
  | _ => none

def Kind.read (ast : Json → Option Ast) (type : String) (v : Json) : Option Kind := do
  match type with
  | "ScriptBlock" =>
    let fields ← v.members? ["param_block", "statements"]
    return .scriptBlock (← fields.optional "param_block" paramBlockOfJson)
      (← fields.defaulted "statements" [] (Json.list? ast))
  | "StatementBlock" =>
    let fields ← v.members? ["statements"]
    return .statementBlock (← fields.defaulted "statements" [] (Json.list? ast))
  | "Pipeline" =>
    let fields ← v.members? ["elements"]
    return .pipeline (← fields.required "elements" (Json.list? ast))
  | "CommandExpression" =>
    let fields ← v.members? ["expression"]
    return .commandExpression (← fields.required "expression" ast)
  | "Command" =>
    let fields ← v.members? ["elements"]
    return .command (← fields.required "elements" (Json.list? ast))
  | "CommandParameter" =>
    let fields ← v.members? ["parameter_name", "argument"]
    return .commandParameter (← fields.required "parameter_name" Json.string?)
      (← fields.optional "argument" ast)
  | "AssignmentStatement" =>
    let fields ← v.members? ["left", "operator", "right"]
    return .assignment (← fields.required "left" ast)
      (← fields.defaulted "operator" "Equals" Json.string?) (← fields.required "right" ast)
  | "BinaryExpression" =>
    let fields ← v.members? ["left", "operator", "right"]
    return .binary (← fields.required "left" ast) (← fields.required "operator" Json.string?)
      (← fields.required "right" ast)
  | "UnaryExpression" =>
    let fields ← v.members? ["token_kind", "child"]
    return .unary (← fields.required "token_kind" Json.string?) (← fields.required "child" ast)
  | "ConstantExpression" =>
    let fields ← v.members? ["value"]
    return .constant (← fields.required "value" Json.string?)
  | "StringConstantExpression" =>
    let fields ← v.members? ["value"]
    return .stringConstant (← fields.required "value" Json.string?)
  | "ExpandableStringExpression" =>
    let fields ← v.members? ["value"]
    return .expandableString (← fields.required "value" Json.string?)
  | "VariableExpression" =>
    let fields ← v.members? ["variable_path"]
    return .var (← fields.required "variable_path" Json.string?)
  | "ConvertExpression" =>
    let fields ← v.members? ["type_name", "child"]
    return .convert (← fields.required "type_name" Json.string?) (← fields.required "child" ast)
  | "TypeExpression" =>
    let fields ← v.members? ["type_name"]
    return .typeExpression (← fields.required "type_name" Json.string?)
  | "IfStatement" =>
    let fields ← v.members? ["clauses", "else_clause"]
    return .ifStatement (← fields.required "clauses" (Json.list? (IfClause.read ast)))
      (← fields.optional "else_clause" ast)
  | "WhileStatement" =>
    let fields ← v.members? ["condition", "body"]
    return .whileStatement (← fields.required "condition" ast) (← fields.required "body" ast)
  | "ForStatement" =>
    let fields ← v.members? ["initializer", "condition", "iterator", "body"]
    return .forStatement (← fields.optional "initializer" ast) (← fields.optional "condition" ast)
      (← fields.optional "iterator" ast) (← fields.required "body" ast)
  | "ForEachStatement" =>
    let fields ← v.members? ["variable", "condition", "body"]
    return .forEachStatement (← fields.required "variable" ast)
      (← fields.required "condition" ast) (← fields.required "body" ast)
  | "BreakStatement" => return .breakStatement
  | "ContinueStatement" => return .continueStatement
  | "ReturnStatement" =>
    let fields ← v.members? ["pipeline"]
    return .returnStatement (← fields.optional "pipeline" ast)
  | "TryStatement" =>
    let fields ← v.members? ["body", "catch_clauses", "finally"]
    return .tryStatement (← fields.required "body" ast)
      (← fields.defaulted "catch_clauses" [] (Json.list? (CatchClause.read ast)))
      (← fields.optional "finally" ast)
  | "FunctionDefinition" =>
    let fields ← v.members? ["name", "parameters", "body"]
    return .function (← fields.required "name" Json.string?)
      (← fields.defaulted "parameters" [] (Json.list? ParamDecl.ofJson))
      (← fields.required "body" ast)
  | "Parameter" =>
    let fields ← v.members? ["name", "static_type"]
    return .parameter (← fields.required "name" Json.string?)
      (← fields.optional "static_type" Json.string?)
  | "IndexExpression" =>
    let fields ← v.members? ["target", "index"]
    return .index (← fields.required "target" ast) (← fields.required "index" ast)
  | "InvokeMemberExpression" =>
    let fields ← v.members? ["expression", "member", "arguments", "static"]
    return .invokeMember (← fields.required "expression" ast)
      (← fields.required "member" Json.string?)
      (← fields.defaulted "arguments" [] (Json.list? ast))
      (← fields.defaulted "static" false Json.bool?)
  | "MemberExpression" =>
    let fields ← v.members? ["expression", "member", "static"]
    return .member (← fields.required "expression" ast) (← fields.required "member" Json.string?)
      (← fields.defaulted "static" false Json.bool?)
  | "ParenExpression" =>
    let fields ← v.members? ["pipeline"]
    return .paren (← fields.required "pipeline" ast)
  | "SubExpression" =>
    let fields ← v.members? ["statements"]
    return .subExpression (← fields.defaulted "statements" [] (Json.list? ast))
  | "ArrayLiteral" =>
    let fields ← v.members? ["elements"]
    return .arrayLiteral (← fields.required "elements" (Json.list? ast))
  | "ArrayExpression" =>
    let fields ← v.members? ["statements"]
    return .arrayExpression (← fields.defaulted "statements" [] (Json.list? ast))
  | "DoWhileStatement" =>
    let fields ← v.members? ["condition", "body"]
    return .doWhile (← fields.required "condition" ast) (← fields.required "body" ast)
  | "DoUntilStatement" =>
    let fields ← v.members? ["condition", "body"]
    return .doUntil (← fields.required "condition" ast) (← fields.required "body" ast)
  | "SwitchStatement" => return .switchStatement
  | "ThrowStatement" =>
    let fields ← v.members? ["pipeline"]
    return .throwStatement (← fields.optional "pipeline" ast)
  | "Hashtable" => return .hashtable
  | "ScriptBlockExpression" => return .scriptBlockExpression
  | _ => return .unknown

def Ast.read (ast : Json → Option Ast) (v : Json) : Option Ast := do
  let fields ← v.members? ["type", "extent"]
  let extent ← fields.defaulted "extent" {} Extent.ofJson
  let type ← fields.required "type" Kind.nameOfJson
  return ⟨extent, ← Kind.read ast type v⟩

/-- Reads nodes that nest fewer than `depth` levels. -/
def Ast.readAt : (depth : Nat) → Json → Option Ast
  | 0, _ => none
  | depth + 1, v => Ast.read (readAt depth) v

def Ast.ofJson (v : Json) : Option Ast := Ast.readAt (v.depth + 1) v

end Interlingua.Host
