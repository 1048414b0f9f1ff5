import Interlingua.Proofs.Recording

namespace Interlingua.Host

open Recorded

theorem noteOperator_cutShort (known : Bool) (token : String) (extent : Extent) :
    CutShort (noteOperator known token extent) (noteOperator known token extent) := by
  cases known with
  | true => exact .pure ()
  | false => exact ⟨(), _, rfl, rfl⟩

theorem noteParamBlock_cutShort (dup : OnDuplicate) (extent : Extent)
    (block : Option (List ParamDecl)) :
    CutShort (noteParamBlock ⟨.stop, dup⟩ extent block)
      (noteParamBlock ⟨.standIn, dup⟩ extent block) := by
  match block with
  | none | some [] => exact .pure []
  | some (_ :: _) => exact .bind (.unsupported dup _ extent) fun e => .pure _

mutual

theorem Ast.toExpr_cutShort (dup : OnDuplicate) (a : Ast) :
    CutShort (a.toExpr ⟨.stop, dup⟩) (a.toExpr ⟨.standIn, dup⟩) := by
  obtain ⟨extent, kind⟩ := a
  exact kind.toExpr_cutShort dup extent
termination_by structural a

theorem Kind.toExpr_cutShort (dup : OnDuplicate) (extent : Extent) (k : Kind) :
    CutShort (k.toExpr ⟨.stop, dup⟩ extent) (k.toExpr ⟨.standIn, dup⟩ extent) := by
  cases k with
  | pipeline elements =>
    match elements with
    | [element] => exact element.toExpr_cutShort dup
    | [] | _ :: _ :: _ => exact .unsupported dup _ extent
  | commandExpression expression => exact expression.toExpr_cutShort dup
  | command elements =>
    match elements with
    | [] => exact .unsupported dup _ extent
    | head :: rest =>
      refine .bind (head.toCallee_cutShort dup) fun callee => ?_
      exact .bind (argumentsOf_cutShort dup rest) fun arguments => .pure _
  | assignment left operator right =>
    refine .bind (left.toExpr_cutShort dup) fun target => ?_
    by_cases h : operator = "Equals"
    · simp only [h, if_true]
      exact .bind (right.toExpr_cutShort dup) fun value => .pure _
    · simp only [h, if_false]
      refine .bind (noteOperator_cutShort _ operator extent) fun _ => ?_
      exact .bind (right.toExpr_cutShort dup) fun value => .pure _
  | binary left operator right =>
    refine .bind (left.toExpr_cutShort dup) fun l => ?_
    refine .bind (noteOperator_cutShort _ operator extent) fun _ => ?_
    exact .bind (right.toExpr_cutShort dup) fun r => .pure _
  | unary token child =>
    simp only [Kind.toExpr]
    refine .bind (noteOperator_cutShort _ token extent) fun _ => ?_
    refine .bind (child.toExpr_cutShort dup) fun operand => ?_
    cases (Token.unary token).2 <;> exact .pure _
  | constant value | stringConstant value | expandableString value | var value
  | typeExpression value => exact .pure _
  | convert typeName child => exact .bind (child.toExpr_cutShort dup) fun e => .pure _
  | index target index =>
    refine .bind (target.toExpr_cutShort dup) fun t => ?_
    exact .bind (index.toExpr_cutShort dup) fun i => .pure _
  | invokeMember expression member arguments isStatic =>
    refine .bind (expression.toExpr_cutShort dup) fun target => ?_
    exact .bind (exprsOf_cutShort dup arguments) fun values => .pure _
  | member expression member isStatic =>
    exact .bind (expression.toExpr_cutShort dup) fun target => .pure _
  | paren pipeline => exact .bind (pipeline.toExpr_cutShort dup) fun e => .pure _
  | subExpression statements =>
    match statements with
    | [statement] => exact .bind (statement.toExpr_cutShort dup) fun e => .pure _
    | [] | _ :: _ :: _ => exact .unsupported dup _ extent
  | arrayLiteral elements => exact .bind (exprsOf_cutShort dup elements) fun es => .pure _
  | arrayExpression statements => exact .bind (exprsOf_cutShort dup statements) fun es => .pure _
  | _ => exact .unsupported dup _ extent
termination_by structural k

theorem exprsOf_cutShort (dup : OnDuplicate) (as : List Ast) :
    CutShort (exprsOf ⟨.stop, dup⟩ as) (exprsOf ⟨.standIn, dup⟩ as) := by
  cases as with
  | nil => exact .pure []
  | cons a as =>
    refine .bind (a.toExpr_cutShort dup) fun e => ?_
    exact .bind (exprsOf_cutShort dup as) fun es => .pure _
termination_by structural as

theorem optExprOf_cutShort (dup : OnDuplicate) (a : Option Ast) :
    CutShort (optExprOf ⟨.stop, dup⟩ a) (optExprOf ⟨.standIn, dup⟩ a) := by
  cases a with
  | none => exact .pure none
  | some a => exact .bind (a.toExpr_cutShort dup) fun e => .pure _
termination_by structural a

theorem Ast.toCallee_cutShort (dup : OnDuplicate) (a : Ast) :
    CutShort (a.toCallee ⟨.stop, dup⟩) (a.toCallee ⟨.standIn, dup⟩) := by
  obtain ⟨extent, kind⟩ := a
  have h := kind.toExpr_cutShort dup extent
  cases kind with
  | stringConstant name => exact .pure _
  | _ => exact h
termination_by structural a

theorem Ast.toArgument_cutShort (dup : OnDuplicate) (a : Ast) :
    CutShort (a.toArgument ⟨.stop, dup⟩) (a.toArgument ⟨.standIn, dup⟩) := by
  obtain ⟨extent, kind⟩ := a
  have h := kind.toExpr_cutShort dup extent
  cases kind with
  | commandParameter name argument =>
    exact .bind (optExprOf_cutShort dup argument) fun value => .pure _
  | _ => exact .bind h fun e => .pure _
termination_by structural a

theorem argumentsOf_cutShort (dup : OnDuplicate) (as : List Ast) :
    CutShort (argumentsOf ⟨.stop, dup⟩ as) (argumentsOf ⟨.standIn, dup⟩ as) := by
  cases as with
  | nil => exact .pure []
  | cons a as =>
    refine .bind (a.toArgument_cutShort dup) fun argument => ?_
    exact .bind (argumentsOf_cutShort dup as) fun arguments => .pure _
termination_by structural as

end

mutual

theorem Ast.toStmt_cutShort (dup : OnDuplicate) (a : Ast) :
    CutShort (a.toStmt ⟨.stop, dup⟩) (a.toStmt ⟨.standIn, dup⟩) := by
  obtain ⟨extent, kind⟩ := a
  exact kind.toStmt_cutShort dup extent
termination_by structural a

theorem Kind.toStmt_cutShort (dup : OnDuplicate) (extent : Extent) (k : Kind) :
    CutShort (k.toStmt ⟨.stop, dup⟩ extent) (k.toStmt ⟨.standIn, dup⟩ extent) := by
  cases k with
  | scriptBlock block statements =>
    refine .bind (noteParamBlock_cutShort dup extent block) fun noted => ?_
    exact .bind (stmtsOf_cutShort dup statements) fun ss => .pure _
  | statementBlock statements => exact .bind (stmtsOf_cutShort dup statements) fun ss => .pure _
  | assignment left operator right =>
    simp only [Kind.toStmt]
    cases left.declaration? operator with
    | some declared => exact .bind (right.toExpr_cutShort dup) fun e => .pure _
    | none =>
      exact .bind ((Kind.assignment left operator right).toExpr_cutShort dup extent)
        fun e => .pure _
  | ifStatement clauses elseClause =>
    match clauses with
    | [] => exact .bind (.unsupported dup _ extent) fun e => .pure _
    | first :: rest =>
      refine .bind (first.toLink_cutShort dup) fun first => ?_
      refine .bind (linksOf_cutShort dup rest) fun links => ?_
      exact .bind (optBlockOf_cutShort dup elseClause) fun final => .pure _
  | whileStatement condition body =>
    refine .bind (condition.toExpr_cutShort dup) fun condition => ?_
    exact .bind (body.toStmt_cutShort dup) fun body => .pure _
  | forStatement initializer condition step body =>
    refine .bind (optStmtOf_cutShort dup initializer) fun initializer => ?_
    refine .bind (optExprOf_cutShort dup condition) fun condition => ?_
    refine .bind (optExprOf_cutShort dup step) fun step => ?_
    exact .bind (body.toStmt_cutShort dup) fun body => .pure _
  | forEachStatement item condition body =>
    obtain ⟨place, item⟩ := item
    cases item with
    | var path =>
      refine .bind (condition.toExpr_cutShort dup) fun iterable => ?_
      exact .bind (body.toStmt_cutShort dup) fun body => .pure _
    | _ => exact .bind (.unsupported dup _ place) fun e => .pure _
  | breakStatement | continueStatement => exact .pure _
  | returnStatement pipeline => exact .bind (optExprOf_cutShort dup pipeline) fun e => .pure _
  | tryStatement body catches final =>
    refine .bind (body.toBlock_cutShort dup) fun body => ?_
    refine .bind (catchesOfClauses_cutShort dup catches) fun catches => ?_
    exact .bind (optBlockOf_cutShort dup final) fun final => .pure _
  | function name parameters body => exact .bind (body.toBlock_cutShort dup) fun body => .pure _
  | _ => exact .bind (Kind.toExpr_cutShort dup extent _) fun e => .pure _
termination_by structural k

theorem stmtsOf_cutShort (dup : OnDuplicate) (as : List Ast) :
    CutShort (stmtsOf ⟨.stop, dup⟩ as) (stmtsOf ⟨.standIn, dup⟩ as) := by
  cases as with
  | nil => exact .pure []
  | cons a as =>
    refine .bind (a.toStmt_cutShort dup) fun s => ?_
    exact .bind (stmtsOf_cutShort dup as) fun ss => .pure _
termination_by structural as

theorem optStmtOf_cutShort (dup : OnDuplicate) (a : Option Ast) :
    CutShort (optStmtOf ⟨.stop, dup⟩ a) (optStmtOf ⟨.standIn, dup⟩ a) := by
  cases a with
  | none => exact .pure none
  | some a => exact .bind (a.toStmt_cutShort dup) fun s => .pure _
termination_by structural a

theorem Ast.toBlock_cutShort (dup : OnDuplicate) (a : Ast) :
    CutShort (a.toBlock ⟨.stop, dup⟩) (a.toBlock ⟨.standIn, dup⟩) := by
  obtain ⟨extent, kind⟩ := a
  have h := kind.toStmt_cutShort dup extent
  cases kind with
  | statementBlock statements => exact stmtsOf_cutShort dup statements
  | scriptBlock block statements => exact stmtsOf_cutShort dup statements
  | _ => exact .bind h fun s => .pure _
termination_by structural a

theorem optBlockOf_cutShort (dup : OnDuplicate) (a : Option Ast) :
    CutShort (optBlockOf ⟨.stop, dup⟩ a) (optBlockOf ⟨.standIn, dup⟩ a) := by
  cases a with
  | none => exact .pure none
  | some a => exact .bind (a.toBlock_cutShort dup) fun b => .pure _
termination_by structural a

theorem IfClause.toLink_cutShort (dup : OnDuplicate) (c : IfClause) :
    CutShort (c.toLink ⟨.stop, dup⟩) (c.toLink ⟨.standIn, dup⟩) := by
  obtain ⟨condition, body⟩ := c
  refine .bind (condition.toExpr_cutShort dup) fun condition => ?_
  exact .bind (body.toStmt_cutShort dup) fun body => .pure _
termination_by structural c

theorem linksOf_cutShort (dup : OnDuplicate) (cs : List IfClause) :
    CutShort (linksOf ⟨.stop, dup⟩ cs) (linksOf ⟨.standIn, dup⟩ cs) := by
  cases cs with
  | nil => exact .pure []
  | cons c cs =>
    refine .bind (c.toLink_cutShort dup) fun link => ?_
    exact .bind (linksOf_cutShort dup cs) fun links => .pure _
termination_by structural cs

theorem CatchClause.toCatches_cutShort (dup : OnDuplicate) (c : CatchClause) :
    CutShort (c.toCatches ⟨.stop, dup⟩) (c.toCatches ⟨.standIn, dup⟩) := by
  obtain ⟨extent, types, body⟩ := c
  exact .bind (body.toBlock_cutShort dup) fun body => .pure _
termination_by structural c

theorem catchesOfClauses_cutShort (dup : OnDuplicate) (cs : List CatchClause) :
    CutShort (catchesOfClauses ⟨.stop, dup⟩ cs) (catchesOfClauses ⟨.standIn, dup⟩ cs) := by
  cases cs with
  | nil => exact .pure []
  | cons c cs =>
    refine .bind (c.toCatches_cutShort dup) fun catches => ?_
    exact .bind (catchesOfClauses_cutShort dup cs) fun more => .pure _
termination_by structural cs

end

/-- With literals in the place of constructs reading succeeds. Where it reports no construct,
reading that stops at constructs gives the same; else that reading fails with the first one. -/
theorem Ast.toReading_stop_of_standIn (dup : OnDuplicate) (root : Ast) :
    ∃ r, root.toReading ⟨.standIn, dup⟩ = .ok r ∧
      ((∀ u, .unsupported u ∉ r.diagnostics) → root.toReading ⟨.stop, dup⟩ = .ok r) ∧
      ∀ u, .unsupported u ∈ r.diagnostics → ∃ first before after,
        r.diagnostics = before ++ .unsupported first :: after ∧
        (∀ v, .unsupported v ∉ before) ∧ root.toReading ⟨.stop, dup⟩ = .error first := by
  obtain ⟨s, ds, hy, hx⟩ := root.toStmt_cutShort dup
  refine ⟨⟨.stmt s, ds⟩, by simp only [toReading, hy], ?_, ?_⟩
  · intro hnone
    have hf : ds.findSome? Diagnostic.construct? = none := by
      rw [List.findSome?_eq_none_iff]
      intro d hd
      cases d with
      | unsupported u => exact absurd hd (hnone u)
      | unknownOperator token extent => rfl
    rw [hf] at hx
    simp only [toReading, hx]
  · intro u hu
    cases hf : ds.findSome? Diagnostic.construct? with
    | none =>
      have hd := List.findSome?_eq_none_iff.mp hf _ hu
      cases hd
    | some first =>
      obtain ⟨before, d, after, hds, hd, hbefore⟩ := List.findSome?_eq_some_iff.mp hf
      obtain rfl := Diagnostic.construct?_eq_some.mp hd
      rw [hf] at hx
      refine ⟨first, before, after, hds, ?_, by simp only [toReading, hx]⟩
      intro v hv
      cases hbefore _ hv

end Interlingua.Host
