import Interlingua.Host.Ast

namespace Interlingua.Host

structure Relabeling where
  node : Kind → Extent → Extent := fun _ extent => extent
  part : Extent → Extent := id
  binary : String → String := id
  unary : String → String := id

section

variable (f : Relabeling)

def ParamDecl.relabel (p : ParamDecl) : ParamDecl := { p with extent := f.part p.extent }

mutual

def Ast.relabel : Ast → Ast
  | ⟨extent, kind⟩ => ⟨f.node kind extent, kind.relabel⟩
termination_by structural a => a

def Kind.relabel : Kind → Kind
  | .scriptBlock block statements =>
    .scriptBlock (block.map (List.map (ParamDecl.relabel f))) (Ast.allRelabel statements)
  | .statementBlock statements => .statementBlock (Ast.allRelabel statements)
  | .pipeline elements => .pipeline (Ast.allRelabel elements)
  | .commandExpression expression => .commandExpression expression.relabel
  | .command elements => .command (Ast.allRelabel elements)
  | .commandParameter name argument => .commandParameter name (Ast.optRelabel argument)
  | .assignment left operator right => .assignment left.relabel operator right.relabel
  | .binary left operator right => .binary left.relabel (f.binary operator) right.relabel
  | .unary token child => .unary (f.unary token) child.relabel
  | .constant value => .constant value
  | .stringConstant value => .stringConstant value
  | .expandableString value => .expandableString value
  | .var path => .var path
  | .convert typeName child => .convert typeName child.relabel
  | .typeExpression typeName => .typeExpression typeName
  | .ifStatement clauses elseClause =>
    .ifStatement (IfClause.allRelabel clauses) (Ast.optRelabel elseClause)
  | .whileStatement condition body => .whileStatement condition.relabel body.relabel
  | .forStatement initializer condition step body =>
    .forStatement (Ast.optRelabel initializer) (Ast.optRelabel condition) (Ast.optRelabel step)
      body.relabel
  | .forEachStatement item condition body =>
    .forEachStatement item.relabel condition.relabel body.relabel
  | .breakStatement => .breakStatement
  | .continueStatement => .continueStatement
  | .returnStatement pipeline => .returnStatement (Ast.optRelabel pipeline)
  | .tryStatement body catches final =>
    .tryStatement body.relabel (CatchClause.allRelabel catches) (Ast.optRelabel final)
  | .function name parameters body =>
    .function name (parameters.map (ParamDecl.relabel f)) body.relabel
  | .parameter name typeName => .parameter name typeName
  | .index target index => .index target.relabel index.relabel
  | .invokeMember expression member arguments isStatic =>
    .invokeMember expression.relabel member (Ast.allRelabel arguments) isStatic
  | .member expression member isStatic => .member expression.relabel member isStatic
  | .paren pipeline => .paren pipeline.relabel
  | .subExpression statements => .subExpression (Ast.allRelabel statements)
  | .arrayLiteral elements => .arrayLiteral (Ast.allRelabel elements)
  | .arrayExpression statements => .arrayExpression (Ast.allRelabel statements)
  | .doWhile condition body => .doWhile condition.relabel body.relabel
  | .doUntil condition body => .doUntil condition.relabel body.relabel
  | .switchStatement => .switchStatement
  | .throwStatement pipeline => .throwStatement (Ast.optRelabel pipeline)
  | .hashtable => .hashtable
  | .scriptBlockExpression => .scriptBlockExpression
  | .unknown => .unknown
termination_by structural k => k

def IfClause.relabel : IfClause → IfClause
  | ⟨condition, body⟩ => ⟨condition.relabel, body.relabel⟩
termination_by structural c => c

def CatchClause.relabel : CatchClause → CatchClause
  | ⟨extent, types, body⟩ => ⟨f.part extent, types, body.relabel⟩
termination_by structural c => c

def Ast.allRelabel : List Ast → List Ast
  | [] => []
  | a :: as => a.relabel :: Ast.allRelabel as
termination_by structural as => as

def Ast.optRelabel : Option Ast → Option Ast
  | none => none
  | some a => some a.relabel
termination_by structural a => a

def IfClause.allRelabel : List IfClause → List IfClause
  | [] => []
  | c :: cs => c.relabel :: IfClause.allRelabel cs
termination_by structural cs => cs

def CatchClause.allRelabel : List CatchClause → List CatchClause
  | [] => []
  | c :: cs => c.relabel :: CatchClause.allRelabel cs
termination_by structural cs => cs

end

end

end Interlingua.Host
