import Interlingua.Proofs.Operators
import Interlingua.Proofs.Supported

namespace Interlingua

namespace Recorded

variable {α β : Type} {p : Diagnostic → Prop}

/-- What ends the reading and what it records has the property. -/
def OnlyReports (x : Recorded α) (p : Diagnostic → Prop) : Prop :=
  match x with
  | .error u => p (.unsupported u)
  | .ok (_, ds) => ∀ d ∈ ds, p d

namespace OnlyReports

theorem pure (a : α) : OnlyReports (Pure.pure a) p := List.forall_mem_nil p

theorem bind {x : Recorded α} {f : α → Recorded β} (hx : OnlyReports x p)
    (hf : ∀ a, OnlyReports (f a) p) : OnlyReports (x >>= f) p := by
  match x with
  | .error u => exact hx
  | .ok (a, first) =>
    have ha := hf a
    match hfa : f a with
    | .error u =>
      rw [hfa] at ha
      rw [bind_ok_error hfa]
      exact ha
    | .ok (b, second) =>
      rw [hfa] at ha
      rw [bind_ok hfa]
      exact List.forall_mem_append.mpr ⟨hx, ha⟩

theorem map {x : Recorded α} (f : α → β) (hx : OnlyReports x p) :
    OnlyReports (x >>= fun a => Pure.pure (f a)) p := hx.bind fun a => .pure (f a)

theorem unsupported {policy : ReadPolicy} {kind : String} {extent : Extent}
    (h : p (.unsupported ⟨kind, extent⟩)) :
    OnlyReports (unsupported policy kind extent) p := by
  unfold Recorded.unsupported
  split
  · exact h
  · exact List.forall_mem_singleton.mpr h

end OnlyReports

end Recorded

namespace Host

open Recorded

/-- The diagnostic is about the node: it has the node's position and names its kind, the parameters
that it declares or its token, which is not in the table of its side. -/
inductive Ast.Explains : Ast → Diagnostic → Prop
  | construct (extent : Extent) (kind : Kind) :
    Explains ⟨extent, kind⟩ (.unsupported ⟨kind.name, extent⟩)
  | parameters (extent : Extent) (p : ParamDecl) (ps : List ParamDecl) (statements : List Ast) :
    Explains ⟨extent, .scriptBlock (some (p :: ps)) statements⟩
      (.unsupported ⟨"ParamBlock", extent⟩)
  | binary {token : String} (extent : Extent) (left right : Ast) :
    token ∉ Token.binaryTable.map (·.1) →
    Explains ⟨extent, .binary left token right⟩ (.unknownOperator token extent)
  | unary {token : String} (extent : Extent) (child : Ast) :
    token ∉ Token.unaryTable.map (·.1) →
    Explains ⟨extent, .unary token child⟩ (.unknownOperator token extent)
  | assignment {token : String} (extent : Extent) (left right : Ast) :
    token ≠ "Equals" → token ∉ Token.compoundTable.map (·.1) →
    Explains ⟨extent, .assignment left token right⟩ (.unknownOperator token extent)

def Covers (p : Diagnostic → Prop) (xs : List Placed) : Prop :=
  ∀ x ∈ xs, ∀ d, x.node.Explains d → p d

variable {policy : ReadPolicy} {p : Diagnostic → Prop}

theorem covers_append {xs ys : List Placed} :
    Covers p (xs ++ ys) ↔ Covers p xs ∧ Covers p ys := List.forall_mem_append

theorem Ast.covers_nodes {place : Place} {a : Ast} :
    Covers p (a.nodes place) ↔ (∀ d, a.Explains d → p d) ∧ Covers p a.kind.inner := by
  obtain ⟨extent, kind⟩ := a
  exact List.forall_mem_cons

theorem noteOperator_reports {known : Bool} {token : String} {extent : Extent}
    (h : known = false → p (.unknownOperator token extent)) :
    OnlyReports (noteOperator known token extent) p := by
  cases known with
  | true => exact .pure ()
  | false => exact List.forall_mem_singleton.mpr (h rfl)

theorem noteParamBlock_reports {extent : Extent} {block : Option (List ParamDecl)}
    {statements : List Ast}
    (h : ∀ d, Ast.Explains ⟨extent, .scriptBlock block statements⟩ d → p d) :
    OnlyReports (noteParamBlock policy extent block) p := by
  match block with
  | none | some [] => exact .pure []
  | some (q :: qs) => exact .map _ (.unsupported (h _ (.parameters extent q qs statements)))

mutual

theorem Ast.toExpr_reports (place : Place) (a : Ast) (h : Covers p (a.nodes place)) :
    OnlyReports (a.toExpr policy) p := by
  obtain ⟨extent, kind⟩ := a
  obtain ⟨hself, hinner⟩ := Ast.covers_nodes.mp h
  exact kind.toExpr_reports extent hself hinner
termination_by structural a

theorem Kind.toExpr_reports (extent : Extent) (k : Kind)
    (hself : ∀ d, Ast.Explains ⟨extent, k⟩ d → p d) (hinner : Covers p k.inner) :
    OnlyReports (k.toExpr policy extent) p := by
  have whole : OnlyReports (unsupported policy k.name extent) p :=
    .unsupported (hself _ (.construct extent k))
  cases k with
  | pipeline elements =>
    match elements with
    | [element] =>
      rw [Kind.inner, Ast.allNodes_singleton] at hinner
      exact element.toExpr_reports .value hinner
    | [] | _ :: _ :: _ => exact whole
  | commandExpression expression => exact expression.toExpr_reports .value hinner
  | command elements =>
    match elements with
    | [] => exact whole
    | head :: rest =>
      obtain ⟨hhead, hrest⟩ := covers_append.mp hinner
      refine .bind (head.toCallee_reports .value hhead) fun callee => ?_
      exact .map _ (argumentsOf_reports .element rest hrest)
  | assignment left operator right =>
    obtain ⟨hl, hr⟩ := covers_append.mp hinner
    refine .bind (left.toExpr_reports .value hl) fun target => ?_
    by_cases ho : operator = "Equals"
    · simp only [ho, if_true]
      exact .map _ (right.toExpr_reports .value hr)
    · simp only [ho, if_false]
      have value := right.toExpr_reports .value hr
      refine .bind (noteOperator_reports fun hu => ?_) fun _ => .map _ value
      rw [← OperatorUse.isMapped_assignment ho extent] at hu
      refine hself _ (.assignment extent left right ho ?_)
      simpa [OperatorUse.isMapped, ho] using hu
  | binary left operator right =>
    obtain ⟨hl, hr⟩ := covers_append.mp hinner
    refine .bind (left.toExpr_reports .value hl) fun l => ?_
    have value := right.toExpr_reports .value hr
    refine .bind (noteOperator_reports fun hu => ?_) fun _ => .map _ value
    rw [← OperatorUse.isMapped_binary operator extent] at hu
    refine hself _ (.binary extent left right ?_)
    simpa [OperatorUse.isMapped] using hu
  | unary token child =>
    simp only [Kind.toExpr]
    refine .bind (noteOperator_reports fun hu => ?_) fun _ => ?_
    · rw [← OperatorUse.isMapped_unary token extent] at hu
      refine hself _ (.unary extent child ?_)
      simpa [OperatorUse.isMapped] using hu
    · refine .bind (child.toExpr_reports .value hinner) fun operand => ?_
      cases (Token.unary token).2 <;> exact .pure _
  | constant value | stringConstant value | expandableString value | var value
  | typeExpression value => exact .pure _
  | convert _ child | member child _ _ | paren child =>
    exact .map _ (child.toExpr_reports .value hinner)
  | index target index =>
    obtain ⟨ht, hi⟩ := covers_append.mp hinner
    refine .bind (target.toExpr_reports .value ht) fun t => ?_
    exact .map _ (index.toExpr_reports .value hi)
  | invokeMember expression member arguments isStatic =>
    obtain ⟨he, ha⟩ := covers_append.mp hinner
    refine .bind (expression.toExpr_reports .value he) fun target => ?_
    exact .map _ (exprsOf_reports .value arguments ha)
  | subExpression statements =>
    match statements with
    | [statement] =>
      rw [Kind.inner, Ast.allNodes_singleton] at hinner
      exact .map _ (statement.toExpr_reports .value hinner)
    | [] | _ :: _ :: _ => exact whole
  | arrayLiteral elements | arrayExpression elements =>
    exact .map _ (exprsOf_reports .value elements hinner)
  | _ => exact whole
termination_by structural k

theorem exprsOf_reports (place : Place) (as : List Ast) (h : Covers p (Ast.allNodes place as)) :
    OnlyReports (exprsOf policy as) p := by
  cases as with
  | nil => exact .pure []
  | cons a as =>
    obtain ⟨ha, has⟩ := covers_append.mp h
    exact .bind (a.toExpr_reports place ha) fun e => .map _ (exprsOf_reports place as has)
termination_by structural as

theorem optExprOf_reports (place : Place) (a : Option Ast) (h : Covers p (Ast.optNodes place a)) :
    OnlyReports (optExprOf policy a) p := by
  cases a with
  | none => exact .pure none
  | some a => exact .map _ (a.toExpr_reports place h)
termination_by structural a

theorem Ast.toCallee_reports (place : Place) (a : Ast) (h : Covers p (a.nodes place)) :
    OnlyReports (a.toCallee policy) p := by
  obtain ⟨extent, kind⟩ := a
  obtain ⟨hself, hinner⟩ := Ast.covers_nodes.mp h
  have hk := kind.toExpr_reports extent hself hinner
  cases kind with
  | stringConstant name => exact .pure _
  | _ => exact hk
termination_by structural a

theorem Ast.toArgument_reports (place : Place) (a : Ast) (h : Covers p (a.nodes place)) :
    OnlyReports (a.toArgument policy) p := by
  obtain ⟨extent, kind⟩ := a
  obtain ⟨hself, hinner⟩ := Ast.covers_nodes.mp h
  have hk := kind.toExpr_reports extent hself hinner
  cases kind with
  | commandParameter name argument => exact .map _ (optExprOf_reports .value argument hinner)
  | _ => exact .map _ hk
termination_by structural a

theorem argumentsOf_reports (place : Place) (as : List Ast)
    (h : Covers p (Ast.allNodes place as)) : OnlyReports (argumentsOf policy as) p := by
  cases as with
  | nil => exact .pure []
  | cons a as =>
    obtain ⟨ha, has⟩ := covers_append.mp h
    exact .bind (a.toArgument_reports place ha) fun x => .map _ (argumentsOf_reports place as has)
termination_by structural as

end

mutual

theorem Ast.toStmt_reports (place : Place) (a : Ast) (h : Covers p (a.nodes place)) :
    OnlyReports (a.toStmt policy) p := by
  obtain ⟨extent, kind⟩ := a
  obtain ⟨hself, hinner⟩ := Ast.covers_nodes.mp h
  exact kind.toStmt_reports extent hself hinner
termination_by structural a

theorem Kind.toStmt_reports (extent : Extent) (k : Kind)
    (hself : ∀ d, Ast.Explains ⟨extent, k⟩ d → p d) (hinner : Covers p k.inner) :
    OnlyReports (k.toStmt policy extent) p := by
  have alone : OnlyReports (k.toExpr policy extent) p := k.toExpr_reports extent hself hinner
  cases k with
  | scriptBlock block statements =>
    refine .bind (noteParamBlock_reports hself) fun noted => ?_
    exact .map _ (stmtsOf_reports .statement statements hinner)
  | statementBlock statements => exact .map _ (stmtsOf_reports .statement statements hinner)
  | assignment left operator right =>
    simp only [Kind.toStmt]
    cases left.declaration? operator with
    | some declared => exact .map _ (right.toExpr_reports .value (covers_append.mp hinner).2)
    | none => exact .map _ alone
  | ifStatement clauses elseClause =>
    match clauses with
    | [] => exact .map _ alone
    | first :: rest =>
      obtain ⟨hclauses, helse⟩ := covers_append.mp hinner
      obtain ⟨hfirst, hrest⟩ := covers_append.mp hclauses
      refine .bind (first.toLink_reports hfirst) fun first => ?_
      refine .bind (linksOf_reports rest hrest) fun links => ?_
      exact .map _ (optBlockOf_reports .block elseClause helse)
  | whileStatement condition body =>
    obtain ⟨hc, hb⟩ := covers_append.mp hinner
    refine .bind (condition.toExpr_reports .value hc) fun condition => ?_
    exact .map _ (body.toStmt_reports .statement hb)
  | forStatement initializer condition step body =>
    obtain ⟨hi, hinner⟩ := covers_append.mp hinner
    obtain ⟨hc, hinner⟩ := covers_append.mp hinner
    obtain ⟨hs, hb⟩ := covers_append.mp hinner
    refine .bind (optStmtOf_reports .statement initializer hi) fun initializer => ?_
    refine .bind (optExprOf_reports .value condition hc) fun condition => ?_
    refine .bind (optExprOf_reports .value step hs) fun step => ?_
    exact .map _ (body.toStmt_reports .statement hb)
  | forEachStatement item condition body =>
    obtain ⟨hitem, hinner⟩ := covers_append.mp hinner
    obtain ⟨hc, hb⟩ := covers_append.mp hinner
    obtain ⟨place, item⟩ := item
    -- An item that is no variable is reported in the place of the loop.
    have hself := (Ast.covers_nodes.mp hitem).1 _ (.construct place item)
    cases item with
    | var path =>
      refine .bind (condition.toExpr_reports .value hc) fun iterable => ?_
      exact .map _ (body.toStmt_reports .statement hb)
    | _ => exact .map _ (.unsupported hself)
  | breakStatement | continueStatement => exact .pure _
  | returnStatement pipeline => exact .map _ (optExprOf_reports .value pipeline hinner)
  | tryStatement body catches final =>
    obtain ⟨hb, hinner⟩ := covers_append.mp hinner
    obtain ⟨hcatches, hf⟩ := covers_append.mp hinner
    refine .bind (body.toBlock_reports .block hb) fun body => ?_
    refine .bind (catchesOfClauses_reports catches hcatches) fun catches => ?_
    exact .map _ (optBlockOf_reports .block final hf)
  | function name parameters body => exact .map _ (body.toBlock_reports .block hinner)
  | _ => exact .map _ alone
termination_by structural k

theorem stmtsOf_reports (place : Place) (as : List Ast) (h : Covers p (Ast.allNodes place as)) :
    OnlyReports (stmtsOf policy as) p := by
  cases as with
  | nil => exact .pure []
  | cons a as =>
    obtain ⟨ha, has⟩ := covers_append.mp h
    exact .bind (a.toStmt_reports place ha) fun s => .map _ (stmtsOf_reports place as has)
termination_by structural as

theorem optStmtOf_reports (place : Place) (a : Option Ast) (h : Covers p (Ast.optNodes place a)) :
    OnlyReports (optStmtOf policy a) p := by
  cases a with
  | none => exact .pure none
  | some a => exact .map _ (a.toStmt_reports place h)
termination_by structural a

theorem Ast.toBlock_reports (place : Place) (a : Ast) (h : Covers p (a.nodes place)) :
    OnlyReports (a.toBlock policy) p := by
  obtain ⟨extent, kind⟩ := a
  obtain ⟨hself, hinner⟩ := Ast.covers_nodes.mp h
  have alone := kind.toStmt_reports extent hself hinner
  cases kind with
  | statementBlock statements => exact stmtsOf_reports .statement statements hinner
  | scriptBlock block statements => exact stmtsOf_reports .statement statements hinner
  | _ => exact .map _ alone
termination_by structural a

theorem optBlockOf_reports (place : Place) (a : Option Ast) (h : Covers p (Ast.optNodes place a)) :
    OnlyReports (optBlockOf policy a) p := by
  cases a with
  | none => exact .pure none
  | some a => exact .map _ (a.toBlock_reports place h)
termination_by structural a

theorem IfClause.toLink_reports (c : IfClause) (h : Covers p c.nodes) :
    OnlyReports (c.toLink policy) p := by
  obtain ⟨condition, body⟩ := c
  obtain ⟨hc, hb⟩ := covers_append.mp h
  refine .bind (condition.toExpr_reports .value hc) fun condition => ?_
  exact .map _ (body.toStmt_reports .statement hb)
termination_by structural c

theorem linksOf_reports (cs : List IfClause) (h : Covers p (IfClause.allNodes cs)) :
    OnlyReports (linksOf policy cs) p := by
  cases cs with
  | nil => exact .pure []
  | cons c cs =>
    obtain ⟨hc, hcs⟩ := covers_append.mp h
    exact .bind (c.toLink_reports hc) fun link => .map _ (linksOf_reports cs hcs)
termination_by structural cs

theorem CatchClause.toCatches_reports (c : CatchClause) (h : Covers p c.nodes) :
    OnlyReports (c.toCatches policy) p := by
  obtain ⟨extent, types, body⟩ := c
  exact .map _ (body.toBlock_reports .block h)
termination_by structural c

theorem catchesOfClauses_reports (cs : List CatchClause)
    (h : Covers p (CatchClause.allNodes cs)) : OnlyReports (catchesOfClauses policy cs) p := by
  cases cs with
  | nil => exact .pure []
  | cons c cs =>
    obtain ⟨hc, hcs⟩ := covers_append.mp h
    exact .bind (c.toCatches_reports hc) fun catches => .map _ (catchesOfClauses_reports cs hcs)
termination_by structural cs

end

/-- The construct that ends a reading and every diagnostic of a reading is about a node of the
tree. -/
theorem Ast.reports_placed (policy : ReadPolicy) (root : Ast) :
    (∀ u, root.toReading policy = .error u →
      ∃ x ∈ root.nodes .statement, x.node.Explains (.unsupported u)) ∧
    ∀ r, root.toReading policy = .ok r →
      ∀ d ∈ r.diagnostics, ∃ x ∈ root.nodes .statement, x.node.Explains d := by
  have h : OnlyReports (root.toStmt policy) fun d =>
      ∃ x ∈ root.nodes .statement, x.node.Explains d :=
    root.toStmt_reports .statement fun x hx d hd => ⟨x, hx, hd⟩
  unfold toReading
  cases hs : root.toStmt policy with
  | error u =>
    rw [hs] at h
    refine ⟨fun v hv => ?_, nofun⟩
    cases hv
    exact h
  | ok result =>
    rw [hs] at h
    refine ⟨nofun, fun r hr => ?_⟩
    cases hr
    exact h

def threeConditions : Ast :=
  ⟨⟨1, 1, 4, 1, ""⟩, .scriptBlock (some [⟨{}, "$p", none⟩])
    [⟨⟨2, 1, 2, 28, ""⟩, .forEachStatement
        ⟨⟨2, 10, 2, 17, "[int]$i"⟩, .convert "int" (.ofKind (.var "i"))⟩
        (.ofKind (.var "xs")) (.ofKind (.statementBlock []))⟩,
      ⟨⟨3, 1, 3, 12, ""⟩, .assignment (.ofKind (.var "x")) "QuestionQuestionEquals"
        (.ofKind (.constant "1"))⟩]⟩

theorem threeConditions_placed :
    (∃ u, threeConditions.toReading ⟨.stop, .keepLast⟩ = .error u ∧
      u = ⟨"ParamBlock", ⟨1, 1, 4, 1, ""⟩⟩ ∧
      ∃ x ∈ threeConditions.nodes .statement, x.node.Explains (.unsupported u)) ∧
    ∃ r, threeConditions.toReading ⟨.standIn, .keepLast⟩ = .ok r ∧
      r.diagnostics = [.unsupported ⟨"ParamBlock", ⟨1, 1, 4, 1, ""⟩⟩,
        .unsupported ⟨"ConvertExpression", ⟨2, 10, 2, 17, "[int]$i"⟩⟩,
        .unknownOperator "QuestionQuestionEquals" ⟨3, 1, 3, 12, ""⟩] ∧
      ∃ x ∈ threeConditions.nodes .statement,
        x.node.Explains (.unknownOperator "QuestionQuestionEquals" ⟨3, 1, 3, 12, ""⟩) := by
  obtain ⟨hstop, -⟩ := Ast.reports_placed ⟨.stop, .keepLast⟩ threeConditions
  obtain ⟨-, hstandIn⟩ := Ast.reports_placed ⟨.standIn, .keepLast⟩ threeConditions
  have hr : threeConditions.toReading ⟨.standIn, .keepLast⟩ = .ok _ := rfl
  exact ⟨⟨_, rfl, rfl, hstop _ rfl⟩, _, hr, rfl, hstandIn _ hr _ (.tail _ (.tail _ (.head _)))⟩

end Host

end Interlingua
