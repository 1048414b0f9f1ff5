import Interlingua.Proofs.Recording
import Interlingua.Proofs.Shapes

namespace Interlingua.Host

open Recorded

variable (policy : ReadPolicy)

theorem unsupported_regular (kind : String) (extent : Extent) :
    Yields (unsupported policy kind extent) fun e _ => e.Everywhere Expr.Regular := by
  intro e ds h
  unfold unsupported at h
  split at h
  · cases h
  · cases h
    trivial

theorem noteParamBlock_regular (extent : Extent) (block : Option (List ParamDecl)) :
    Yields (noteParamBlock policy extent block) fun noted _ =>
      Stmt.AllEverywhere Expr.Regular (Signature.Regular policy) noted := by
  match block with
  | none | some [] => exact .pure trivial
  | some (_ :: _) =>
    exact .bind (unsupported_regular policy _ extent) fun e _ he => .pure ⟨he, trivial⟩

mutual

theorem Ast.toExpr_regular (a : Ast) :
    Yields (a.toExpr policy) fun e _ => e.Everywhere Expr.Regular := by
  obtain ⟨extent, kind⟩ := a
  exact kind.toExpr_regular extent
termination_by structural a

theorem Kind.toExpr_regular (extent : Extent) (k : Kind) :
    Yields (k.toExpr policy extent) fun e _ => e.Everywhere Expr.Regular := by
  cases k with
  | pipeline elements =>
    match elements with
    | [element] => exact element.toExpr_regular
    | [] | _ :: _ :: _ => exact unsupported_regular policy _ extent
  | commandExpression expression => exact expression.toExpr_regular
  | command elements =>
    match elements with
    | [] => exact unsupported_regular policy _ extent
    | head :: rest =>
      refine .bind head.toCallee_regular fun callee _ hc => ?_
      refine .bind (argumentsOf_regular rest) fun arguments _ ha => .pure ?_
      exact everywhere_commandExpr (allSettled_attachValues ha.1) hc
        (Argument.allEverywhere_attachValues ha.2)
  | assignment left operator right =>
    refine .bind left.toExpr_regular fun target _ ht => ?_
    by_cases ho : operator = "Equals"
    · simp only [ho, if_true]
      exact .bind right.toExpr_regular fun value _ hv => .pure ⟨nofun, ht, hv⟩
    · simp only [ho, if_false]
      refine .of_bind fun _ => .bind right.toExpr_regular fun value _ hv => .pure ⟨?_, ht, hv⟩
      intro op hop
      rw [← Option.some.inj hop]
      exact Token.isCompound_compound operator
  | binary left operator right =>
    refine .bind left.toExpr_regular fun l _ hl => .of_bind fun _ => ?_
    exact .bind right.toExpr_regular fun r _ hr => .pure ⟨trivial, hl, hr⟩
  | unary token child =>
    simp only [Kind.toExpr]
    refine .of_bind fun _ => .bind child.toExpr_regular fun operand _ ho => ?_
    cases (Token.unary token).2 with
    | before | after => exact .pure ⟨trivial, ho⟩
  | constant | stringConstant | expandableString | var | typeExpression => exact .pure trivial
  | convert typeName child =>
    exact .bind child.toExpr_regular fun e _ he => .pure ⟨trivial, he⟩
  | index target index =>
    refine .bind target.toExpr_regular fun t _ ht => ?_
    exact .bind index.toExpr_regular fun i _ hi => .pure (Expr.everywhere_indexed ht hi)
  | invokeMember expression member arguments isStatic =>
    refine .bind expression.toExpr_regular fun target _ ht => ?_
    refine .bind (exprsOf_regular arguments) fun values _ hv => .pure ⟨?_, ⟨trivial, ht⟩, ?_⟩
    · exact Argument.allSettled_of_positional Argument.isPositional_of_mem_map
    · exact Argument.allEverywhere_positional hv
  | member expression member isStatic =>
    exact .bind expression.toExpr_regular fun e _ he => .pure ⟨trivial, he⟩
  | paren pipeline => exact .bind pipeline.toExpr_regular fun e _ he => .pure ⟨trivial, he⟩
  | subExpression statements =>
    match statements with
    | [statement] => exact .bind statement.toExpr_regular fun e _ he => .pure ⟨trivial, he⟩
    | [] | _ :: _ :: _ => exact unsupported_regular policy _ extent
  | arrayLiteral elements =>
    exact .bind (exprsOf_regular elements) fun es _ hes => .pure ⟨rfl, hes⟩
  | arrayExpression statements =>
    refine .bind (exprsOf_regular statements) fun es _ hes => .pure ?_
    exact ⟨rfl, allEverywhere_flatten hes⟩
  | _ => exact unsupported_regular policy _ extent
termination_by structural k

theorem exprsOf_regular (as : List Ast) :
    Yields (exprsOf policy as) fun es _ => Expr.AllEverywhere Expr.Regular es := by
  cases as with
  | nil => exact .pure trivial
  | cons a as =>
    refine .bind a.toExpr_regular fun e _ he => ?_
    exact .bind (exprsOf_regular as) fun es _ hes => .pure ⟨he, hes⟩
termination_by structural as

theorem optExprOf_regular (a : Option Ast) :
    Yields (optExprOf policy a) fun e _ => Expr.OptEverywhere Expr.Regular e := by
  cases a with
  | none => exact .pure trivial
  | some a => exact .bind a.toExpr_regular fun e _ he => .pure he
termination_by structural a

theorem Ast.toCallee_regular (a : Ast) :
    Yields (a.toCallee policy) fun e _ => e.Everywhere Expr.Regular := by
  obtain ⟨extent, kind⟩ := a
  have hk := kind.toExpr_regular extent
  cases kind with
  | stringConstant name => exact .pure trivial
  | _ => exact hk
termination_by structural a

theorem Ast.toArgument_regular (a : Ast) :
    Yields (a.toArgument policy) fun a _ => a.IsGiven ∧ a.Everywhere Expr.Regular := by
  obtain ⟨extent, kind⟩ := a
  have hk := kind.toExpr_regular extent
  cases kind with
  | commandParameter name argument =>
    exact .bind (optExprOf_regular argument) fun value _ hv => .pure ⟨.inl rfl, hv⟩
  | _ => exact .bind hk fun e _ he => .pure ⟨.inr rfl, he⟩
termination_by structural a

theorem argumentsOf_regular (as : List Ast) :
    Yields (argumentsOf policy as) fun as _ =>
      (∀ a ∈ as, a.IsGiven) ∧ Argument.AllEverywhere Expr.Regular as := by
  cases as with
  | nil => exact .pure ⟨nofun, trivial⟩
  | cons a as =>
    refine .bind a.toArgument_regular fun argument _ ha => ?_
    refine .bind (argumentsOf_regular as) fun arguments _ has => .pure ?_
    exact ⟨List.forall_mem_cons.mpr ⟨ha.1, has.1⟩, ha.2, has.2⟩
termination_by structural as

end

mutual

theorem Ast.toStmt_regular (a : Ast) :
    Yields (a.toStmt policy) fun s _ => s.Everywhere Expr.Regular (Signature.Regular policy) := by
  obtain ⟨extent, kind⟩ := a
  exact kind.toStmt_regular extent
termination_by structural a

theorem Kind.toStmt_regular (extent : Extent) (k : Kind) :
    Yields (k.toStmt policy extent) fun s _ =>
      s.Everywhere Expr.Regular (Signature.Regular policy) := by
  cases k with
  | scriptBlock block statements =>
    refine .bind (noteParamBlock_regular policy extent block) fun noted _ hn => ?_
    refine .bind (stmtsOf_regular statements) fun ss _ hs => .pure ?_
    exact Stmt.allEverywhere_append.mpr ⟨hn, hs⟩
  | statementBlock statements =>
    exact .bind (stmtsOf_regular statements) fun ss _ hs => .pure (everywhere_collapse hs)
  | assignment left operator right =>
    have ha := (Kind.assignment left operator right).toExpr_regular policy extent
    simp only [Kind.toStmt]
    cases left.declaration? operator with
    | none => exact .bind ha fun e _ he => .pure he
    | some declared => exact .bind (right.toExpr_regular policy) fun e _ he => .pure he
  | ifStatement clauses elseClause =>
    match clauses with
    | [] => exact .bind (unsupported_regular policy _ extent) fun e _ he => .pure he
    | first :: rest =>
      refine .bind first.toLink_regular fun first _ hfirst => ?_
      refine .bind (linksOf_regular rest) fun links _ hlinks => ?_
      refine .bind (optBlockOf_regular elseClause) fun final _ hfinal => .pure ?_
      exact ⟨hfirst.1, hfirst.2, Else.everywhere_ofLinks hlinks hfinal⟩
  | whileStatement condition body =>
    refine .bind (condition.toExpr_regular policy) fun condition _ hc => ?_
    exact .bind body.toStmt_regular fun body _ hb => .pure ⟨hc, hb⟩
  | forStatement initializer condition step body =>
    refine .bind (optStmtOf_regular initializer) fun initializer _ hi => ?_
    refine .bind (optExprOf_regular policy condition) fun condition _ hc => ?_
    refine .bind (optExprOf_regular policy step) fun step _ hs => ?_
    exact .bind body.toStmt_regular fun body _ hb => .pure ⟨hi, hc, hs, hb⟩
  | forEachStatement item condition body =>
    obtain ⟨place, item⟩ := item
    cases item with
    | var path =>
      refine .bind (condition.toExpr_regular policy) fun iterable _ hi => ?_
      exact .bind body.toStmt_regular fun body _ hb => .pure ⟨hi, hb⟩
    | _ => exact .bind (unsupported_regular policy _ place) fun e _ he => .pure he
  | breakStatement | continueStatement => exact .pure trivial
  | returnStatement pipeline =>
    exact .bind (optExprOf_regular policy pipeline) fun e _ he => .pure he
  | tryStatement body catches final =>
    refine .bind body.toBlock_regular fun body _ hb => ?_
    refine .bind (catchesOfClauses_regular catches) fun catches _ hc => ?_
    exact .bind (optBlockOf_regular final) fun final _ hf => .pure ⟨hb, hc, hf⟩
  | function name parameters body =>
    refine .bind body.toBlock_regular fun converted _ hb => .pure ⟨⟨?_, nofun⟩, hb⟩
    exact regular_signature policy name (parameters ++ body.bodyParameters)
  | _ => exact .bind (Kind.toExpr_regular policy extent _) fun e _ he => .pure he
termination_by structural k

theorem stmtsOf_regular (as : List Ast) :
    Yields (stmtsOf policy as) fun ss _ =>
      Stmt.AllEverywhere Expr.Regular (Signature.Regular policy) ss := by
  cases as with
  | nil => exact .pure trivial
  | cons a as =>
    refine .bind a.toStmt_regular fun s _ hs => ?_
    exact .bind (stmtsOf_regular as) fun ss _ hss => .pure ⟨hs, hss⟩
termination_by structural as

theorem optStmtOf_regular (a : Option Ast) :
    Yields (optStmtOf policy a) fun s _ =>
      Stmt.OptEverywhere Expr.Regular (Signature.Regular policy) s := by
  cases a with
  | none => exact .pure trivial
  | some a => exact .bind a.toStmt_regular fun s _ hs => .pure hs
termination_by structural a

theorem Ast.toBlock_regular (a : Ast) :
    Yields (a.toBlock policy) fun ss _ =>
      Stmt.AllEverywhere Expr.Regular (Signature.Regular policy) ss := by
  obtain ⟨extent, kind⟩ := a
  have hk := kind.toStmt_regular extent
  cases kind with
  | statementBlock statements => exact stmtsOf_regular statements
  | scriptBlock block statements => exact stmtsOf_regular statements
  | _ => exact .bind hk fun s _ hs => .pure (Stmt.allEverywhere_statements hs)
termination_by structural a

theorem optBlockOf_regular (a : Option Ast) :
    Yields (optBlockOf policy a) fun b _ =>
      Stmt.OptAllEverywhere Expr.Regular (Signature.Regular policy) b := by
  cases a with
  | none => exact .pure trivial
  | some a => exact .bind a.toBlock_regular fun b _ hb => .pure hb
termination_by structural a

theorem IfClause.toLink_regular (c : IfClause) :
    Yields (c.toLink policy) fun l _ =>
      l.Everywhere Expr.Regular (Signature.Regular policy) := by
  obtain ⟨condition, body⟩ := c
  refine .bind (condition.toExpr_regular policy) fun condition _ hc => ?_
  exact .bind body.toStmt_regular fun body _ hb => .pure ⟨hc, hb⟩
termination_by structural c

theorem linksOf_regular (cs : List IfClause) :
    Yields (linksOf policy cs) fun ls _ =>
      ∀ l ∈ ls, l.Everywhere Expr.Regular (Signature.Regular policy) := by
  cases cs with
  | nil => exact .pure nofun
  | cons c cs =>
    refine .bind c.toLink_regular fun link _ hl => ?_
    exact .bind (linksOf_regular cs) fun links _ hls => .pure (List.forall_mem_cons.mpr ⟨hl, hls⟩)
termination_by structural cs

theorem CatchClause.toCatches_regular (c : CatchClause) :
    Yields (c.toCatches policy) fun cs _ =>
      Catch.AllEverywhere Expr.Regular (Signature.Regular policy) cs := by
  obtain ⟨extent, types, body⟩ := c
  exact .bind body.toBlock_regular fun body _ hb => .pure (allEverywhere_catchesOf hb)
termination_by structural c

theorem catchesOfClauses_regular (cs : List CatchClause) :
    Yields (catchesOfClauses policy cs) fun ds _ =>
      Catch.AllEverywhere Expr.Regular (Signature.Regular policy) ds := by
  cases cs with
  | nil => exact .pure trivial
  | cons c cs =>
    refine .bind c.toCatches_regular fun first _ hf => ?_
    refine .bind (catchesOfClauses_regular cs) fun rest _ hr => .pure ?_
    exact Catch.allEverywhere_append.mpr ⟨hf, hr⟩
termination_by structural cs

end

/-- What is read has the regular shape in every part. -/
theorem Ast.regular_of_toReading {policy : ReadPolicy} {root : Ast} {r : Reading}
    (h : root.toReading policy = .ok r) :
    r.node.Everywhere Expr.Regular (Signature.Regular policy) := by
  unfold toReading at h
  split at h
  · next s ds hs =>
    cases h
    exact root.toStmt_regular policy s ds hs
  · cases h

def objectAdded : Ast :=
  .ofKind (.function "f" [⟨{}, "$a", none⟩, ⟨{}, "$A", none⟩] (.ofKind (.statementBlock
    [.ofKind (.assignment (.ofKind (.var "x")) "PlusEquals" (.ofKind (.command
      [.ofKind (.stringConstant "New-Object"), .ofKind (.stringConstant "T"),
        .ofKind (.commandParameter "ArgumentList" none),
        .ofKind (.arrayExpression [.ofKind (.arrayLiteral
          [.ofKind (.constant "1"),
            .ofKind (.index (.ofKind (.var "a")) (.ofKind (.constant "0")))])])])))])))

theorem regular_objectAdded :
    ∃ r, objectAdded.toReading {} = .ok r ∧ r.diagnostics = [] ∧
      r.node.Everywhere Expr.Regular (Signature.Regular {}) := by
  have h : objectAdded.toReading {} = .ok ⟨.stmt _, _⟩ := rfl
  exact ⟨_, h, rfl, Ast.regular_of_toReading h⟩

end Interlingua.Host
