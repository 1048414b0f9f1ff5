import Interlingua.Proofs.Recording
import Interlingua.Proofs.Supported

namespace Interlingua.Host

/-- The blocks to put around the statements of a tree: for each position their extents, from the
outermost block to the innermost. A position is the way down from the root and lists the numbers of
its nodes among their siblings; a clause of a conditional counts as a node. -/
def Wrapping := List Nat → List Extent

def Wrapping.below (w : Wrapping) (i : Nat) : Wrapping := fun position => w (i :: position)

def Ast.inBlocks (blocks : List Extent) (a : Ast) : Ast :=
  blocks.foldr (fun extent inner => ⟨extent, .statementBlock [inner]⟩) a

mutual

/-- The tree with blocks around its statements, from itself on if it stands as a statement. -/
def Ast.wrapped (place : Place) (w : Wrapping) : Ast → Ast
  | ⟨extent, kind⟩ =>
    match place with
    | .statement => Ast.inBlocks (w []) ⟨extent, kind.wrapped w⟩
    | _ => ⟨extent, kind.wrapped w⟩
termination_by structural a => a

def Kind.wrapped (w : Wrapping) : Kind → Kind
  | .scriptBlock block statements =>
    .scriptBlock block (Ast.allWrapped .statement w 0 statements)
  | .statementBlock statements => .statementBlock (Ast.allWrapped .statement w 0 statements)
  | .pipeline elements => .pipeline (Ast.allWrapped .value w 0 elements)
  | .commandExpression expression => .commandExpression (expression.wrapped .value (w.below 0))
  | .command elements => .command (Ast.allWrapped .element w 0 elements)
  | .commandParameter name argument =>
    .commandParameter name (Ast.optWrapped .value (w.below 0) argument)
  | .assignment left operator right =>
    .assignment (left.wrapped .value (w.below 0)) operator (right.wrapped .value (w.below 1))
  | .binary left operator right =>
    .binary (left.wrapped .value (w.below 0)) operator (right.wrapped .value (w.below 1))
  | .unary token child => .unary token (child.wrapped .value (w.below 0))
  | .constant value => .constant value
  | .stringConstant value => .stringConstant value
  | .expandableString value => .expandableString value
  | .var path => .var path
  | .convert typeName child => .convert typeName (child.wrapped .value (w.below 0))
  | .typeExpression typeName => .typeExpression typeName
  | .ifStatement clauses elseClause =>
    .ifStatement (IfClause.allWrapped w 1 clauses) (Ast.optWrapped .block (w.below 0) elseClause)
  | .whileStatement condition body =>
    .whileStatement (condition.wrapped .value (w.below 0)) (body.wrapped .statement (w.below 1))
  | .forStatement initializer condition step body =>
    .forStatement (Ast.optWrapped .statement (w.below 0) initializer)
      (Ast.optWrapped .value (w.below 1) condition) (Ast.optWrapped .value (w.below 2) step)
      (body.wrapped .statement (w.below 3))
  | .forEachStatement item condition body =>
    .forEachStatement (item.wrapped .value (w.below 0)) (condition.wrapped .value (w.below 1))
      (body.wrapped .statement (w.below 2))
  | .breakStatement => .breakStatement
  | .continueStatement => .continueStatement
  | .returnStatement pipeline => .returnStatement (Ast.optWrapped .value (w.below 0) pipeline)
  | .tryStatement body catches final =>
    .tryStatement (body.wrapped .block (w.below 0)) (CatchClause.allWrapped w 2 catches)
      (Ast.optWrapped .block (w.below 1) final)
  | .function name parameters body =>
    .function name parameters (body.wrapped .block (w.below 0))
  | .parameter name typeName => .parameter name typeName
  | .index target index =>
    .index (target.wrapped .value (w.below 0)) (index.wrapped .value (w.below 1))
  | .invokeMember expression member arguments isStatic =>
    .invokeMember (expression.wrapped .value (w.below 0)) member
      (Ast.allWrapped .value w 1 arguments) isStatic
  | .member expression member isStatic =>
    .member (expression.wrapped .value (w.below 0)) member isStatic
  | .paren pipeline => .paren (pipeline.wrapped .value (w.below 0))
  | .subExpression statements => .subExpression (Ast.allWrapped .value w 0 statements)
  | .arrayLiteral elements => .arrayLiteral (Ast.allWrapped .value w 0 elements)
  | .arrayExpression statements => .arrayExpression (Ast.allWrapped .value w 0 statements)
  | .doWhile condition body =>
    .doWhile (condition.wrapped .value (w.below 0)) (body.wrapped .statement (w.below 1))
  | .doUntil condition body =>
    .doUntil (condition.wrapped .value (w.below 0)) (body.wrapped .statement (w.below 1))
  | .switchStatement => .switchStatement
  | .throwStatement pipeline => .throwStatement (Ast.optWrapped .value (w.below 0) pipeline)
  | .hashtable => .hashtable
  | .scriptBlockExpression => .scriptBlockExpression
  | .unknown => .unknown
termination_by structural k => k

/-- The nodes are numbered from `i` on. -/
def Ast.allWrapped (place : Place) (w : Wrapping) (i : Nat) : List Ast → List Ast
  | [] => []
  | a :: as => a.wrapped place (w.below i) :: Ast.allWrapped place w (i + 1) as
termination_by structural as => as

def Ast.optWrapped (place : Place) (w : Wrapping) : Option Ast → Option Ast
  | none => none
  | some a => some (a.wrapped place w)
termination_by structural a => a

def IfClause.wrapped (w : Wrapping) : IfClause → IfClause
  | ⟨condition, body⟩ =>
    ⟨condition.wrapped .value (w.below 0), body.wrapped .statement (w.below 1)⟩
termination_by structural c => c

def IfClause.allWrapped (w : Wrapping) (i : Nat) : List IfClause → List IfClause
  | [] => []
  | c :: cs => c.wrapped (w.below i) :: IfClause.allWrapped w (i + 1) cs
termination_by structural cs => cs

def CatchClause.wrapped (w : Wrapping) : CatchClause → CatchClause
  | ⟨extent, types, body⟩ => ⟨extent, types, body.wrapped .block w⟩
termination_by structural c => c

def CatchClause.allWrapped (w : Wrapping) (i : Nat) : List CatchClause → List CatchClause
  | [] => []
  | c :: cs => c.wrapped (w.below i) :: CatchClause.allWrapped w (i + 1) cs
termination_by structural cs => cs

end

variable {policy : ReadPolicy}

theorem Ast.toStmt_statementBlock (extent : Extent) (a : Ast) :
    (Ast.mk extent (.statementBlock [a])).toStmt policy = a.toStmt policy := by
  simp only [Ast.toStmt, Kind.toStmt, stmtsOf, pure_bind, bind_assoc, collapse, bind_pure]

theorem Ast.toStmt_inBlocks (blocks : List Extent) (a : Ast) :
    (Ast.inBlocks blocks a).toStmt policy = a.toStmt policy := by
  induction blocks with
  | nil => rfl
  | cons extent blocks ih => exact (Ast.toStmt_statementBlock extent _).trans ih

mutual

theorem Ast.toExpr_wrapped (w : Wrapping) (a : Ast) :
    (a.wrapped .value w).toExpr policy = a.toExpr policy := by
  obtain ⟨extent, kind⟩ := a
  exact kind.toExpr_wrapped w extent
termination_by structural a

theorem Kind.toExpr_wrapped (w : Wrapping) (extent : Extent) (k : Kind) :
    (k.wrapped w).toExpr policy extent = k.toExpr policy extent := by
  cases k with
  | pipeline elements =>
    match elements with
    | [element] => exact element.toExpr_wrapped (w.below 0)
    | [] | _ :: _ :: _ => rfl
  | commandExpression expression => exact expression.toExpr_wrapped (w.below 0)
  | command elements =>
    match elements with
    | [] => rfl
    | head :: rest =>
      simp only [Kind.wrapped, Ast.allWrapped, Kind.toExpr, head.toCallee_wrapped,
        argumentsOf_wrapped w 1 rest]
  | subExpression statements =>
    match statements with
    | [statement] =>
      simp only [Kind.wrapped, Ast.allWrapped, Kind.toExpr, statement.toExpr_wrapped]
    | [] | _ :: _ :: _ => rfl
  | assignment left operator right | binary left operator right =>
    simp only [Kind.wrapped, Kind.toExpr, left.toExpr_wrapped, right.toExpr_wrapped]
  | unary _ child | convert _ child | member child _ _ | paren child =>
    simp only [Kind.wrapped, Kind.toExpr, child.toExpr_wrapped]
  | index target index =>
    simp only [Kind.wrapped, Kind.toExpr, target.toExpr_wrapped, index.toExpr_wrapped]
  | invokeMember expression member arguments isStatic =>
    simp only [Kind.wrapped, Kind.toExpr, expression.toExpr_wrapped, exprsOf_wrapped w 1 arguments]
  | arrayLiteral elements | arrayExpression elements =>
    simp only [Kind.wrapped, Kind.toExpr, exprsOf_wrapped w 0 elements]
  | _ => rfl
termination_by structural k

theorem exprsOf_wrapped (w : Wrapping) (i : Nat) (as : List Ast) :
    exprsOf policy (Ast.allWrapped .value w i as) = exprsOf policy as := by
  cases as with
  | nil => rfl
  | cons a as =>
    simp only [Ast.allWrapped, exprsOf, a.toExpr_wrapped, exprsOf_wrapped w (i + 1) as]
termination_by structural as

theorem optExprOf_wrapped (w : Wrapping) (a : Option Ast) :
    optExprOf policy (Ast.optWrapped .value w a) = optExprOf policy a := by
  cases a with
  | none => rfl
  | some a => simp only [Ast.optWrapped, optExprOf, a.toExpr_wrapped]
termination_by structural a

theorem Ast.toCallee_wrapped (w : Wrapping) (a : Ast) :
    (a.wrapped .element w).toCallee policy = a.toCallee policy := by
  obtain ⟨extent, kind⟩ := a
  have h := kind.toExpr_wrapped w extent
  cases kind with
  | stringConstant name => rfl
  | _ => exact h
termination_by structural a

theorem Ast.toArgument_wrapped (w : Wrapping) (a : Ast) :
    (a.wrapped .element w).toArgument policy = a.toArgument policy := by
  obtain ⟨extent, kind⟩ := a
  have h := kind.toExpr_wrapped w extent
  cases kind with
  | commandParameter name argument =>
    simp only [Ast.wrapped, Kind.wrapped, Ast.toArgument, optExprOf_wrapped (w.below 0) argument]
  | _ => exact congrArg (· >>= fun e => pure (Argument.positional e)) h
termination_by structural a

theorem argumentsOf_wrapped (w : Wrapping) (i : Nat) (as : List Ast) :
    argumentsOf policy (Ast.allWrapped .element w i as) = argumentsOf policy as := by
  cases as with
  | nil => rfl
  | cons a as =>
    simp only [Ast.allWrapped, argumentsOf, a.toArgument_wrapped, argumentsOf_wrapped w (i + 1) as]
termination_by structural as

end

theorem Ast.declaration?_wrapped (w : Wrapping) (a : Ast) (operator : String) :
    (a.wrapped .value w).declaration? operator = a.declaration? operator := by
  obtain ⟨extent, kind⟩ := a
  cases kind with
  | convert typeName child =>
    obtain ⟨extent, kind⟩ := child
    cases kind <;> rfl
  | _ => rfl

theorem Ast.bodyParameters_wrapped (w : Wrapping) (a : Ast) :
    (a.wrapped .block w).bodyParameters = a.bodyParameters := by
  obtain ⟨extent, kind⟩ := a
  cases kind with
  | scriptBlock block statements => cases block <;> rfl
  | _ => rfl

mutual

theorem Ast.toStmt_wrapped (w : Wrapping) (a : Ast) :
    (a.wrapped .statement w).toStmt policy = a.toStmt policy := by
  obtain ⟨extent, kind⟩ := a
  exact (Ast.toStmt_inBlocks (w []) _).trans (kind.toStmt_wrapped w extent)
termination_by structural a

theorem Kind.toStmt_wrapped (w : Wrapping) (extent : Extent) (k : Kind) :
    (k.wrapped w).toStmt policy extent = k.toStmt policy extent := by
  have alone : ((k.wrapped w).toExpr policy extent >>= fun e => pure (Stmt.expr e)) =
      k.toExpr policy extent >>= fun e => pure (Stmt.expr e) := by
    rw [k.toExpr_wrapped w extent]
  cases k with
  | scriptBlock block statements | statementBlock statements =>
    simp only [Kind.wrapped, Kind.toStmt, stmtsOf_wrapped w 0 statements]
  | assignment left operator right =>
    simp only [Kind.wrapped, Kind.toStmt, left.declaration?_wrapped]
    cases left.declaration? operator with
    | none => exact alone
    | some declared => simp only [Ast.toExpr_wrapped]
  | ifStatement clauses elseClause =>
    match clauses with
    | [] => rfl
    | first :: rest =>
      simp only [Kind.wrapped, IfClause.allWrapped, Kind.toStmt, first.toLink_wrapped,
        linksOf_wrapped w 2 rest, optBlockOf_wrapped _ elseClause]
  | whileStatement condition body =>
    simp only [Kind.wrapped, Kind.toStmt, condition.toExpr_wrapped, body.toStmt_wrapped]
  | forStatement initializer condition step body =>
    simp only [Kind.wrapped, Kind.toStmt, optStmtOf_wrapped _ initializer, optExprOf_wrapped,
      body.toStmt_wrapped]
  | forEachStatement item condition body =>
    obtain ⟨place, item⟩ := item
    cases item with
    | var path =>
      simp only [Kind.wrapped, Ast.wrapped, Kind.toStmt, condition.toExpr_wrapped,
        body.toStmt_wrapped]
    | _ => rfl
  | breakStatement | continueStatement => rfl
  | returnStatement pipeline => simp only [Kind.wrapped, Kind.toStmt, optExprOf_wrapped]
  | tryStatement body catches final =>
    simp only [Kind.wrapped, Kind.toStmt, body.toBlock_wrapped,
      catchesOfClauses_wrapped w 2 catches, optBlockOf_wrapped _ final]
  | function name parameters body =>
    simp only [Kind.wrapped, Kind.toStmt, body.bodyParameters_wrapped, body.toBlock_wrapped]
  | _ => exact alone
termination_by structural k

theorem stmtsOf_wrapped (w : Wrapping) (i : Nat) (as : List Ast) :
    stmtsOf policy (Ast.allWrapped .statement w i as) = stmtsOf policy as := by
  cases as with
  | nil => rfl
  | cons a as =>
    simp only [Ast.allWrapped, stmtsOf, a.toStmt_wrapped, stmtsOf_wrapped w (i + 1) as]
termination_by structural as

theorem optStmtOf_wrapped (w : Wrapping) (a : Option Ast) :
    optStmtOf policy (Ast.optWrapped .statement w a) = optStmtOf policy a := by
  cases a with
  | none => rfl
  | some a => simp only [Ast.optWrapped, optStmtOf, a.toStmt_wrapped]
termination_by structural a

theorem Ast.toBlock_wrapped (w : Wrapping) (a : Ast) :
    (a.wrapped .block w).toBlock policy = a.toBlock policy := by
  obtain ⟨extent, kind⟩ := a
  have alone := congrArg (· >>= fun s => pure s.statements) (kind.toStmt_wrapped w extent)
  cases kind with
  | statementBlock statements => exact stmtsOf_wrapped w 0 statements
  | scriptBlock block statements => exact stmtsOf_wrapped w 0 statements
  | _ => exact alone
termination_by structural a

theorem optBlockOf_wrapped (w : Wrapping) (a : Option Ast) :
    optBlockOf policy (Ast.optWrapped .block w a) = optBlockOf policy a := by
  cases a with
  | none => rfl
  | some a => simp only [Ast.optWrapped, optBlockOf, a.toBlock_wrapped]
termination_by structural a

theorem IfClause.toLink_wrapped (w : Wrapping) (c : IfClause) :
    (c.wrapped w).toLink policy = c.toLink policy := by
  obtain ⟨condition, body⟩ := c
  simp only [IfClause.wrapped, IfClause.toLink, condition.toExpr_wrapped, body.toStmt_wrapped]
termination_by structural c

theorem linksOf_wrapped (w : Wrapping) (i : Nat) (cs : List IfClause) :
    linksOf policy (IfClause.allWrapped w i cs) = linksOf policy cs := by
  cases cs with
  | nil => rfl
  | cons c cs =>
    simp only [IfClause.allWrapped, linksOf, c.toLink_wrapped, linksOf_wrapped w (i + 1) cs]
termination_by structural cs

theorem CatchClause.toCatches_wrapped (w : Wrapping) (c : CatchClause) :
    (c.wrapped w).toCatches policy = c.toCatches policy := by
  obtain ⟨extent, types, body⟩ := c
  simp only [CatchClause.wrapped, CatchClause.toCatches, body.toBlock_wrapped]
termination_by structural c

theorem catchesOfClauses_wrapped (w : Wrapping) (i : Nat) (cs : List CatchClause) :
    catchesOfClauses policy (CatchClause.allWrapped w i cs) = catchesOfClauses policy cs := by
  cases cs with
  | nil => rfl
  | cons c cs =>
    simp only [CatchClause.allWrapped, catchesOfClauses, c.toCatches_wrapped,
      catchesOfClauses_wrapped w (i + 1) cs]
termination_by structural cs

end

/-- With blocks put around any of its statements a tree is read as before, or not read for the
same reason. -/
theorem Ast.toReading_wrapped (policy : ReadPolicy) (w : Wrapping) (root : Ast) :
    (root.wrapped .statement w).toReading policy = root.toReading policy := by
  simp only [toReading, root.toStmt_wrapped w]

example :
    (Ast.script [.ofKind (.whileStatement (.ofKind (.var "c")) (.ofKind .breakStatement))]).wrapped
        .statement (fun position => if position = [0, 1] then [{}, {}] else []) =
      .script [.ofKind (.whileStatement (.ofKind (.var "c"))
        (.ofKind (.statementBlock [.ofKind (.statementBlock [.ofKind .breakStatement])])))] := rfl

end Interlingua.Host
