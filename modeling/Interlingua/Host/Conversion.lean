import Interlingua.Diagnostic
import Interlingua.Host.Ast
import Interlingua.Host.Idiom
import Interlingua.Host.Token
import Interlingua.Tree.Chain
import Interlingua.Tree.Attach

namespace Interlingua.Host

open Recorded (record unsupported)

def Ast.typedName? : Ast → Option (String × String)
  | ⟨_, .convert typeName ⟨_, .var path⟩⟩ => some (typeName, path)
  | _ => none

/-- What an assignment declares: a plain one to a typed variable declares it. -/
def Ast.declaration? (left : Ast) (operator : String) : Option (String × String) :=
  if operator = "Equals" then left.typedName? else none

theorem Ast.eq_of_declaration? {left : Ast} {operator : String} {declared : String × String}
    (h : left.declaration? operator = some declared) :
    operator = "Equals" ∧
      ∃ place inner, left = ⟨place, .convert declared.1 ⟨inner, .var declared.2⟩⟩ := by
  unfold declaration? typedName? at h
  split at h
  · next hop =>
    split at h
    · cases h
      exact ⟨hop, _, _, rfl⟩
    · cases h
  · cases h

def ParamDecl.toParameter (p : ParamDecl) : Parameter :=
  ⟨p.typeName, String.ofList (p.name.toList.dropWhile (· = '$'))⟩

def Ast.bodyParameters : Ast → List ParamDecl
  | ⟨_, .scriptBlock (some parameters) _⟩ => parameters
  | _ => []

/-- Adds a declaration in the place of an earlier one of the same name. -/
def redeclare (kept : List Parameter) (p : Parameter) : List Parameter :=
  kept.eraseP (Text.sameName ·.name p.name) ++ [p]

def settleDuplicates (policy : ReadPolicy) (parameters : List Parameter) : List Parameter :=
  match policy.onDuplicate with
  | .keepAll => parameters
  | .keepLast => parameters.foldl redeclare []

def noteOperator (known : Bool) (token : String) (extent : Extent) : Recorded Unit :=
  if known then pure () else record (.unknownOperator token extent)

/-- A statement block that holds one statement is that statement. -/
def collapse : List Stmt → Stmt
  | [s] => s
  | ss => .block ss

/-- `@(1, 2)` holds one array, whose elements are its own. -/
def flatten : List Expr → List Expr
  | [.array none inner] => inner
  | es => es

theorem flatten_cases (es : List Expr) : es = [.array none (flatten es)] ∨ flatten es = es := by
  fun_cases flatten es with
  | case1 inner => exact .inl rfl
  | case2 => exact .inr rfl

theorem flatMap_flatten {α : Type} {f : Expr → List α}
    (hf : ∀ es, f (.array none es) = es.flatMap f) (es : List Expr) :
    (flatten es).flatMap f = es.flatMap f := by
  obtain h | h := flatten_cases es
  · have hes := congrArg (List.flatMap f) h
    rw [List.flatMap_singleton, hf] at hes
    exact hes.symm
  · rw [h]

/-- One clause for each type, all with the same body; without types, a clause for everything. -/
def catchesOf (types : List String) (body : List Stmt) : List Catch :=
  match types with
  | [] => [⟨none, body⟩]
  | types => types.map fun name => ⟨some name, body⟩

/-- A script's parameters have no place in the program tree. -/
def noteParamBlock (policy : ReadPolicy) (extent : Extent) :
    Option (List ParamDecl) → Recorded (List Stmt)
  | some (_ :: _) => do return [.expr (← unsupported policy "ParamBlock" extent)]
  | _ => pure []

mutual

def Ast.toExpr (policy : ReadPolicy) : Ast → Recorded Expr
  | ⟨extent, kind⟩ => kind.toExpr policy extent
termination_by structural a => a

def Kind.toExpr (policy : ReadPolicy) (extent : Extent) : Kind → Recorded Expr
  | .pipeline [element] => element.toExpr policy
  | .commandExpression expression => expression.toExpr policy
  | .command (head :: rest) => do
    let callee ← head.toCallee policy
    let arguments ← argumentsOf policy rest
    return commandExpr ⟨callee, attachValues arguments⟩
  | .assignment left operator right => do
    let target ← left.toExpr policy
    if operator = "Equals" then
      return .assign target none (← right.toExpr policy)
    else
      let op := Token.compound operator
      noteOperator (op != .unknown) operator extent
      return .assign target (some op) (← right.toExpr policy)
  | .binary left operator right => do
    let l ← left.toExpr policy
    let op := Token.binary operator
    noteOperator (op != .unknown) operator extent
    return .binary l op (← right.toExpr policy)
  | .unary token child => do
    let (op, fixity) := Token.unary token
    noteOperator (op != .unknown) token extent
    let operand ← child.toExpr policy
    match fixity with
    | .before => return .before op operand
    | .after => return .after op operand
  | .constant value => return .literal value
  | .stringConstant value => return .string value
  | .expandableString value => return .template value
  | .var path => return .identifier path
  | .typeExpression typeName => return .identifier typeName
  | .convert typeName child => return .cast typeName (← child.toExpr policy)
  | .index target index => do
    let target ← target.toExpr policy
    return .indexed target (← index.toExpr policy)
  | .invokeMember expression member arguments isStatic => do
    let target ← expression.toExpr policy
    let values ← exprsOf policy arguments
    return .call (.member target member isStatic) (values.map .positional)
  | .member expression member isStatic =>
    return .member (← expression.toExpr policy) member isStatic
  | .paren pipeline => return .grouped (← pipeline.toExpr policy)
  | .subExpression [statement] => return .grouped (← statement.toExpr policy)
  | .arrayLiteral elements => return .array none (← exprsOf policy elements)
  | .arrayExpression statements => return .array none (flatten (← exprsOf policy statements))
  | kind => unsupported policy kind.name extent
termination_by structural k => k

def exprsOf (policy : ReadPolicy) : List Ast → Recorded (List Expr)
  | [] => pure []
  | a :: as => do
    let e ← a.toExpr policy
    return e :: (← exprsOf policy as)
termination_by structural as => as

def optExprOf (policy : ReadPolicy) : Option Ast → Recorded (Option Expr)
  | none => pure none
  | some a => return some (← a.toExpr policy)
termination_by structural a => a

/-- What a command runs: a bare word is a name. -/
def Ast.toCallee (policy : ReadPolicy) : Ast → Recorded Expr
  | ⟨_, .stringConstant name⟩ => pure (.identifier name)
  | ⟨extent, kind⟩ => kind.toExpr policy extent
termination_by structural a => a

def Ast.toArgument (policy : ReadPolicy) : Ast → Recorded Argument
  | ⟨_, .commandParameter name argument⟩ => return ⟨some name, ← optExprOf policy argument⟩
  | ⟨extent, kind⟩ => return .positional (← kind.toExpr policy extent)
termination_by structural a => a

def argumentsOf (policy : ReadPolicy) : List Ast → Recorded (List Argument)
  | [] => pure []
  | a :: as => do
    let argument ← a.toArgument policy
    return argument :: (← argumentsOf policy as)
termination_by structural as => as

end

mutual

def Ast.toStmt (policy : ReadPolicy) : Ast → Recorded Stmt
  | ⟨extent, kind⟩ => kind.toStmt policy extent
termination_by structural a => a

/-- A node that is no statement of its own is an expression for its effect. -/
def Kind.toStmt (policy : ReadPolicy) (extent : Extent) : Kind → Recorded Stmt
  | .scriptBlock block statements => do
    let noted ← noteParamBlock policy extent block
    return .block (noted ++ (← stmtsOf policy statements))
  | .statementBlock statements => return collapse (← stmtsOf policy statements)
  | .assignment left operator right =>
    match left.declaration? operator with
    | some (typeName, name) => return .declare typeName name (← right.toExpr policy)
    | none => return .expr (← (Kind.assignment left operator right).toExpr policy extent)
  | .ifStatement (first :: rest) elseClause => do
    let first ← first.toLink policy
    let links ← linksOf policy rest
    let final ← optBlockOf policy elseClause
    return (Clauses.link ⟨first, links, final⟩).toStmt
  | .whileStatement condition body => do
    let condition ← condition.toExpr policy
    return .whileLoop condition (← body.toStmt policy)
  | .forStatement initializer condition step body => do
    let initializer ← optStmtOf policy initializer
    let condition ← optExprOf policy condition
    let step ← optExprOf policy step
    return .forLoop initializer condition step (← body.toStmt policy)
  | .forEachStatement ⟨_, .var item⟩ condition body => do
    let iterable ← condition.toExpr policy
    return .forEach item iterable (← body.toStmt policy)
  | .forEachStatement item _ _ =>
    return .expr (← unsupported policy item.kind.name item.extent)
  | .breakStatement => return .breakLoop
  | .continueStatement => return .continueLoop
  | .returnStatement pipeline => return .ret (← optExprOf policy pipeline)
  | .tryStatement body catches final => do
    let body ← body.toBlock policy
    let catches ← catchesOfClauses policy catches
    return .guarded body catches (← optBlockOf policy final)
  | .function name parameters body => do
    let declared := (parameters ++ body.bodyParameters).map (·.toParameter)
    return .publicMethod name (settleDuplicates policy declared) (← body.toBlock policy)
  | kind => return .expr (← kind.toExpr policy extent)
termination_by structural k => k

def stmtsOf (policy : ReadPolicy) : List Ast → Recorded (List Stmt)
  | [] => pure []
  | a :: as => do
    let s ← a.toStmt policy
    return s :: (← stmtsOf policy as)
termination_by structural as => as

def optStmtOf (policy : ReadPolicy) : Option Ast → Recorded (Option Stmt)
  | none => pure none
  | some a => return some (← a.toStmt policy)
termination_by structural a => a

def Ast.toBlock (policy : ReadPolicy) : Ast → Recorded (List Stmt)
  | ⟨_, .statementBlock statements⟩ => stmtsOf policy statements
  | ⟨_, .scriptBlock _ statements⟩ => stmtsOf policy statements
  | ⟨extent, kind⟩ => return (← kind.toStmt policy extent).statements
termination_by structural a => a

def optBlockOf (policy : ReadPolicy) : Option Ast → Recorded (Option (List Stmt))
  | none => pure none
  | some a => return some (← a.toBlock policy)
termination_by structural a => a

def IfClause.toLink (policy : ReadPolicy) : IfClause → Recorded Link
  | ⟨condition, body⟩ => do
    let condition ← condition.toExpr policy
    return ⟨condition, ← body.toStmt policy⟩
termination_by structural c => c

def linksOf (policy : ReadPolicy) : List IfClause → Recorded (List Link)
  | [] => pure []
  | c :: cs => do
    let link ← c.toLink policy
    return link :: (← linksOf policy cs)
termination_by structural cs => cs

def CatchClause.toCatches (policy : ReadPolicy) : CatchClause → Recorded (List Catch)
  | ⟨_, types, body⟩ => return catchesOf types (← body.toBlock policy)
termination_by structural c => c

def catchesOfClauses (policy : ReadPolicy) : List CatchClause → Recorded (List Catch)
  | [] => pure []
  | c :: cs => do
    let catches ← c.toCatches policy
    return catches ++ (← catchesOfClauses policy cs)
termination_by structural cs => cs

end

def Ast.toReading (policy : ReadPolicy) (root : Ast) : Except Unsupported Reading :=
  match root.toStmt policy with
  | .ok (s, diagnostics) => .ok ⟨.stmt s, diagnostics⟩
  | .error u => .error u

end Interlingua.Host
