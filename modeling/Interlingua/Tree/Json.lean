import Interlingua.Json.Decode
import Interlingua.Tree.Stmt

namespace Interlingua

open Json (Fields)

def BinaryOperator.toJson (op : BinaryOperator) : Json := .string op.name

def UnaryOperator.toJson (op : UnaryOperator) : Json := .string op.name

def Json.tagged (tag : String) (content : Json) : Json := .object [(tag, content)]

mutual

/-- A case of a type is an object with one member, its name; a case without content is its name
alone. -/
def Expr.toJson : Expr → Json
  | .literal source => .tagged "Literal" (.string source)
  | .string value => .tagged "StringConstant" (.string value)
  | .template body => .tagged "TemplateStringConstant" (.string body)
  | .identifier name => .tagged "Identifier" (.string name)
  | .binary left op right =>
    .tagged "Binary"
      (.object [("left", left.toJson), ("op", op.toJson), ("right", right.toJson)])
  | .before op operand =>
    .tagged "PrefixUnary" (.object [("op", op.toJson), ("operand", operand.toJson)])
  | .after op operand =>
    .tagged "PostfixUnary" (.object [("op", op.toJson), ("operand", operand.toJson)])
  | .cast typeName operand =>
    .tagged "Cast" (.object [("type_name", .string typeName), ("operand", operand.toJson)])
  | .grouped inner => .tagged "Parenthesized" inner.toJson
  | .member target name isStatic =>
    .tagged "MemberAccess"
      (.object [("target", target.toJson), ("member", .string name),
        ("is_static", .bool isStatic)])
  | .element target index =>
    .tagged "ElementAccess"
      (.object [("target", target.toJson),
        ("index", .object
          [("arguments", .object [("arguments", .array (argumentsToJson index))])])])
  | .call callee arguments =>
    .tagged "Invocation"
      (.object [("callee", callee.toJson),
        ("arguments", .object [("arguments", .array (argumentsToJson arguments))])])
  | .create typeName arguments =>
    .tagged "ObjectCreation"
      (.object [("type_name", .string typeName),
        ("arguments", .object [("arguments", .array (argumentsToJson arguments))])])
  | .array elementType elements =>
    .tagged "ArrayCreation"
      (.object [("element_type", .ofOption .string elementType),
        ("elements", .array (exprsToJson elements))])
  | .assign target op value =>
    .tagged "Assignment"
      (.object [("target", target.toJson), ("op", .ofOption BinaryOperator.toJson op),
        ("value", value.toJson)])
termination_by structural e => e

def Argument.toJson : Argument → Json
  | ⟨name, value⟩ =>
    .object [("name", .ofOption .string name), ("expression", optExprToJson value)]
termination_by structural a => a

def optExprToJson : Option Expr → Json
  | none => .null
  | some e => e.toJson
termination_by structural e => e

def exprsToJson : List Expr → List Json
  | [] => []
  | e :: es => e.toJson :: exprsToJson es
termination_by structural es => es

def argumentsToJson : List Argument → List Json
  | [] => []
  | a :: as => a.toJson :: argumentsToJson as
termination_by structural as => as

end

def argumentListToJson (arguments : List Argument) : Json :=
  .object [("arguments", .array (argumentsToJson arguments))]

def Parameter.toJson (p : Parameter) : Json :=
  .object [("type_name", .ofOption .string p.typeName), ("name", .string p.name)]

def Attribute.toJson (a : Attribute) : Json :=
  .object [("name", .string a.name), ("arguments", argumentListToJson a.arguments)]

mutual

def Stmt.toJson : Stmt → Json
  | .expr value => .tagged "Expr" value.toJson
  | .block body => .tagged "Block" (.object [("statements", .array (stmtsToJson body))])
  | .declare typeName name initializer =>
    .tagged "VariableDeclaration"
      (.object [("type_name", .string typeName),
        ("declarator", .object [("name", .string name), ("initializer", initializer.toJson)])])
  | .method s body =>
    .tagged "MethodDeclaration"
      (.object [("name", .string s.name), ("parameters", .array (s.parameters.map (·.toJson))),
        ("body", .object [("statements", .array (stmtsToJson body))]),
        ("modifiers", .array (s.modifiers.map .string)),
        ("attributes", .array (s.attributes.map (·.toJson)))])
  | .conditional condition body rest =>
    .tagged "If"
      (.object [("condition", condition.toJson), ("body", body.toJson),
        ("else_clause", rest.toJson)])
  | .forLoop initializer condition step body =>
    .tagged "For"
      (.object [("initializer", optStmtToJson initializer),
        ("condition", optExprToJson condition), ("iterator", optExprToJson step),
        ("body", body.toJson)])
  | .forEach item iterable body =>
    .tagged "ForEach"
      (.object [("variable", .string item), ("iterable", iterable.toJson),
        ("body", body.toJson)])
  | .whileLoop condition body =>
    .tagged "While" (.object [("condition", condition.toJson), ("body", body.toJson)])
  | .breakLoop => .string "Break"
  | .continueLoop => .string "Continue"
  | .ret value => .tagged "Return" (optExprToJson value)
  | .guarded body catches final =>
    .tagged "Try"
      (.object [("body", .object [("statements", .array (stmtsToJson body))]),
        ("catches", .array (catchesToJson catches)), ("finally", finalToJson final)])
termination_by structural s => s

def Else.toJson : Else → Json
  | .absent => .null
  | .elseIf condition body rest =>
    .tagged "If"
      (.object [("condition", condition.toJson), ("body", body.toJson),
        ("else_clause", rest.toJson)])
  | .block body => .tagged "Block" (.object [("statements", .array (stmtsToJson body))])
termination_by structural r => r

def Catch.toJson : Catch → Json
  | ⟨typeName, body⟩ =>
    .object [
      ("declaration", .ofOption (fun name => .object [("type_name", .string name)]) typeName),
      ("body", .object [("statements", .array (stmtsToJson body))])]
termination_by structural c => c

def optStmtToJson : Option Stmt → Json
  | none => .null
  | some s => s.toJson
termination_by structural s => s

def stmtsToJson : List Stmt → List Json
  | [] => []
  | s :: ss => s.toJson :: stmtsToJson ss
termination_by structural ss => ss

def finalToJson : Option (List Stmt) → Json
  | none => .null
  | some body => .object [("body", .object [("statements", .array (stmtsToJson body))])]
termination_by structural f => f

def catchesToJson : List Catch → List Json
  | [] => []
  | c :: cs => c.toJson :: catchesToJson cs
termination_by structural cs => cs

end

def blockToJson (body : List Stmt) : Json := .object [("statements", .array (stmtsToJson body))]

def Node.toJson : Node → Json
  | .stmt s => .tagged "Stmt" s.toJson
  | .expr e => .tagged "Expr" e.toJson

def conditionalToJson (condition : Expr) (body : Stmt) (rest : Else) : Json :=
  .object [("condition", condition.toJson), ("body", body.toJson), ("else_clause", rest.toJson)]

def BinaryOperator.ofJson (v : Json) : Option BinaryOperator := v.name?.bind ofName?

def UnaryOperator.ofJson (v : Json) : Option UnaryOperator := v.name?.bind ofName?

def Argument.read (expr : Json → Option Expr) (v : Json) : Option Argument := do
  let fields ← v.allFields? ["name", "expression"]
  return ⟨← fields.optional "name" Json.string?, ← fields.optional "expression" expr⟩

def readArguments (expr : Json → Option Expr) (v : Json) : Option (List Argument) := do
  let fields ← v.allFields? ["arguments"]
  fields.required "arguments" (Json.list? (Argument.read expr))

/-- The arguments in brackets, which are an argument list in an object. -/
def readIndex (expr : Json → Option Expr) (v : Json) : Option (List Argument) := do
  let fields ← v.allFields? ["arguments"]
  fields.required "arguments" (readArguments expr)

def Invocation.read (expr : Json → Option Expr) (v : Json) : Option Invocation := do
  let fields ← v.allFields? ["callee", "arguments"]
  return ⟨← fields.required "callee" expr, ← fields.required "arguments" (readArguments expr)⟩

def Expr.read (expr : Json → Option Expr) (v : Json) : Option Expr := do
  let (tag, content) ← v.variant?
  let content ← content
  match tag with
  | "Literal" => return .literal (← content.string?)
  | "StringConstant" => return .string (← content.string?)
  | "TemplateStringConstant" => return .template (← content.string?)
  | "Identifier" => return .identifier (← content.string?)
  | "Binary" =>
    let fields ← content.allFields? ["left", "op", "right"]
    return .binary (← fields.required "left" expr)
      (← fields.required "op" BinaryOperator.ofJson) (← fields.required "right" expr)
  | "PrefixUnary" =>
    let fields ← content.allFields? ["op", "operand"]
    return .before (← fields.required "op" UnaryOperator.ofJson)
      (← fields.required "operand" expr)
  | "PostfixUnary" =>
    let fields ← content.allFields? ["op", "operand"]
    return .after (← fields.required "op" UnaryOperator.ofJson)
      (← fields.required "operand" expr)
  | "Cast" =>
    let fields ← content.allFields? ["type_name", "operand"]
    return .cast (← fields.required "type_name" Json.string?) (← fields.required "operand" expr)
  | "Parenthesized" => return .grouped (← expr content)
  | "MemberAccess" =>
    let fields ← content.allFields? ["target", "member", "is_static"]
    return .member (← fields.required "target" expr) (← fields.required "member" Json.string?)
      (← fields.required "is_static" Json.bool?)
  | "ElementAccess" =>
    let fields ← content.allFields? ["target", "index"]
    return .element (← fields.required "target" expr) (← fields.required "index" (readIndex expr))
  | "Invocation" => return (← Invocation.read expr content).toExpr
  | "ObjectCreation" =>
    let fields ← content.allFields? ["type_name", "arguments"]
    return .create (← fields.required "type_name" Json.string?)
      (← fields.required "arguments" (readArguments expr))
  | "ArrayCreation" =>
    let fields ← content.allFields? ["element_type", "elements"]
    return .array (← fields.optional "element_type" Json.string?)
      (← fields.required "elements" (Json.list? expr))
  | "Assignment" =>
    let fields ← content.allFields? ["target", "op", "value"]
    return .assign (← fields.required "target" expr)
      (← fields.optional "op" BinaryOperator.ofJson) (← fields.required "value" expr)
  | _ => none

/-- Reads expressions that nest fewer than `depth` levels. -/
def Expr.readAt : (depth : Nat) → Json → Option Expr
  | 0, _ => none
  | depth + 1, v => Expr.read (readAt depth) v

def Expr.ofJson (v : Json) : Option Expr := Expr.readAt (v.depth + 1) v

def Invocation.ofJson (v : Json) : Option Invocation := Invocation.read Expr.ofJson v

def argumentsOfJson (v : Json) : Option (List Argument) := readArguments Expr.ofJson v

def Parameter.ofJson (v : Json) : Option Parameter := do
  let fields ← v.allFields? ["type_name", "name"]
  return ⟨← fields.optional "type_name" Json.string?, ← fields.required "name" Json.string?⟩

def Attribute.ofJson (v : Json) : Option Attribute := do
  let fields ← v.allFields? ["name", "arguments"]
  return ⟨← fields.required "name" Json.string?, ← fields.required "arguments" argumentsOfJson⟩

def readBlock (stmt : Json → Option Stmt) (v : Json) : Option (List Stmt) := do
  let fields ← v.allFields? ["statements"]
  fields.required "statements" (Json.list? stmt)

/-- What may follow a conditional has the form of a statement: a conditional or a block. -/
def Else.ofStmt : Stmt → Option Else
  | .conditional condition body rest => some (.elseIf condition body rest)
  | .block body => some (.block body)
  | _ => none

def Conditional.read (stmt : Json → Option Stmt) (v : Json) : Option Stmt := do
  let fields ← v.allFields? ["condition", "body", "else_clause"]
  let rest ← fields.optional "else_clause" fun w => (stmt w).bind Else.ofStmt
  return .conditional (← fields.required "condition" Expr.ofJson)
    (← fields.required "body" stmt) (rest.getD .absent)

def readDeclarator (v : Json) : Option (String × Expr) := do
  let fields ← v.allFields? ["name", "initializer"]
  return (← fields.required "name" Json.string?, ← fields.required "initializer" Expr.ofJson)

def readCatchType (v : Json) : Option String := do
  let fields ← v.allFields? ["type_name"]
  fields.required "type_name" Json.string?

def Catch.read (stmt : Json → Option Stmt) (v : Json) : Option Catch := do
  let fields ← v.allFields? ["declaration", "body"]
  return ⟨← fields.optional "declaration" readCatchType,
    ← fields.required "body" (readBlock stmt)⟩

def readFinal (stmt : Json → Option Stmt) (v : Json) : Option (List Stmt) := do
  let fields ← v.allFields? ["body"]
  fields.required "body" (readBlock stmt)

def Stmt.readCase (stmt : Json → Option Stmt) (tag : String) (content : Json) : Option Stmt := do
  match tag with
  | "Expr" => return .expr (← Expr.ofJson content)
  | "Block" => return .block (← readBlock stmt content)
  | "VariableDeclaration" =>
    let fields ← content.allFields? ["type_name", "declarator"]
    let (name, initializer) ← fields.required "declarator" readDeclarator
    return .declare (← fields.required "type_name" Json.string?) name initializer
  | "MethodDeclaration" =>
    let fields ← content.allFields? ["name", "parameters", "body", "modifiers", "attributes"]
    return .method
      ⟨← fields.required "name" Json.string?,
        ← fields.required "parameters" (Json.list? Parameter.ofJson),
        ← fields.required "modifiers" (Json.list? Json.string?),
        ← fields.required "attributes" (Json.list? Attribute.ofJson)⟩
      (← fields.required "body" (readBlock stmt))
  | "If" => Conditional.read stmt content
  | "For" =>
    let fields ← content.allFields? ["initializer", "condition", "iterator", "body"]
    return .forLoop (← fields.optional "initializer" stmt)
      (← fields.optional "condition" Expr.ofJson) (← fields.optional "iterator" Expr.ofJson)
      (← fields.required "body" stmt)
  | "ForEach" =>
    let fields ← content.allFields? ["variable", "iterable", "body"]
    return .forEach (← fields.required "variable" Json.string?)
      (← fields.required "iterable" Expr.ofJson) (← fields.required "body" stmt)
  | "While" =>
    let fields ← content.allFields? ["condition", "body"]
    return .whileLoop (← fields.required "condition" Expr.ofJson) (← fields.required "body" stmt)
  | "Break" => if content matches .null then return .breakLoop else none
  | "Continue" => if content matches .null then return .continueLoop else none
  | "Return" => return .ret (← Json.optional? Expr.ofJson content)
  | "Try" =>
    let fields ← content.allFields? ["body", "catches", "finally"]
    return .guarded (← fields.required "body" (readBlock stmt))
      (← fields.required "catches" (Json.list? (Catch.read stmt)))
      (← fields.optional "finally" (readFinal stmt))
  | _ => none

def Stmt.read (stmt : Json → Option Stmt) (v : Json) : Option Stmt :=
  match v.variant? with
  | some ("Break", none) => some .breakLoop
  | some ("Continue", none) => some .continueLoop
  | some (tag, some content) => Stmt.readCase stmt tag content
  | _ => none

def Stmt.readAt : (depth : Nat) → Json → Option Stmt
  | 0, _ => none
  | depth + 1, v => Stmt.read (readAt depth) v

def Stmt.ofJson (v : Json) : Option Stmt := Stmt.readAt (v.depth + 1) v

def Node.ofJson (v : Json) : Option Node :=
  match v.variant? with
  | some ("Stmt", some content) => (Stmt.ofJson content).map .stmt
  | some ("Expr", some content) => (Expr.ofJson content).map .expr
  | _ => none

end Interlingua
