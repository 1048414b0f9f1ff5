import Interlingua.Proofs.Operators
import Interlingua.Proofs.Recording

namespace Interlingua.Host

open Recorded

def reports (uses : List OperatorUse) : List Diagnostic :=
  (uses.filter (!·.isMapped)).map (·.report)

theorem reports_append (us vs : List OperatorUse) :
    reports (us ++ vs) = reports us ++ reports vs := by
  simp [reports]

theorem reports_eq_nil_iff {us : List OperatorUse} : reports us = [] ↔ ∀ u ∈ us, u.isMapped := by
  simp [reports, List.filter_eq_nil_iff]

/-- A reading records the reports on these operators, and if there are none its result has the
property. -/
def Accounts {α : Type} (x : Recorded α) (uses : List OperatorUse) (known : α → Prop) : Prop :=
  Yields x fun a ds => ds = reports uses ∧ ((∀ u ∈ uses, u.isMapped) → known a)

namespace Accounts

variable {α β : Type} {p : α → Prop} {q : β → Prop} {us vs : List OperatorUse}

theorem pure {a : α} (h : p a) : Accounts (Pure.pure a) [] p := Yields.pure ⟨rfl, fun _ => h⟩

theorem bind {x : Recorded α} {f : α → Recorded β} (hx : Accounts x us p)
    (hf : ∀ a, Accounts (f a) vs fun b => p a → q b) : Accounts (x >>= f) (us ++ vs) q := by
  refine Yields.bind hx fun a first ha b second hb => ?_
  obtain ⟨rfl, hknown⟩ := ha
  obtain ⟨rfl, hnext⟩ := hf a b second hb
  refine ⟨(reports_append us vs).symm, fun hmapped => ?_⟩
  obtain ⟨hus, hvs⟩ := List.forall_mem_append.mp hmapped
  exact hnext hvs (hknown hus)

theorem map {x : Recorded α} {f : α → β} (hx : Accounts x us p) (hf : ∀ a, p a → q (f a)) :
    Accounts (x >>= fun a => Pure.pure (f a)) us q := by
  have h : Accounts (x >>= fun a => Pure.pure (f a)) (us ++ []) q :=
    hx.bind fun a => .pure (hf a)
  rwa [List.append_nil] at h

theorem mapped {x : Recorded α} {u : OperatorUse} (hu : u.isMapped) (hx : Accounts x us p) :
    Accounts x (u :: us) p := by
  intro a ds ha
  obtain ⟨hds, hp⟩ := hx a ds ha
  refine ⟨?_, fun hus => hp (List.forall_mem_cons.mp hus).2⟩
  rw [hds, reports, reports, List.filter_cons_of_neg (by simp [hu])]

theorem unsupported {p : Expr → Prop} (dup : OnDuplicate) (kind : String) (extent : Extent) :
    Accounts (unsupported ⟨.stop, dup⟩ kind extent) us p := Yields.unsupported dup kind extent

theorem note (u : OperatorUse) {f : Unit → Recorded β}
    (hf : ∀ a, Accounts (f a) vs fun b => u.isMapped → q b) :
    Accounts (noteOperator u.isMapped u.token u.extent >>= f) (u :: vs) q := by
  have hu : Accounts (noteOperator u.isMapped u.token u.extent) [u] fun _ => u.isMapped := by
    intro a ds h
    refine ⟨?_, fun hu => hu u (List.mem_singleton_self u)⟩
    cases hm : u.isMapped with
    | true =>
      rw [hm] at h
      cases h
      simp [reports, hm]
    | false =>
      rw [hm] at h
      cases h
      simp [reports, hm, OperatorUse.report]
  exact hu.bind hf

end Accounts

theorem noteParamBlock_accounts (dup : OnDuplicate) (extent : Extent)
    (parameters : Option (List ParamDecl)) :
    Accounts (noteParamBlock ⟨.stop, dup⟩ extent parameters) [] fun noted => noted = [] := by
  match parameters with
  | none | some [] => exact .pure rfl
  | some (_ :: _) =>
    exact .map (p := fun _ => False) (.unsupported dup _ extent) fun _ => False.elim

mutual

theorem Ast.toExpr_accounts (dup : OnDuplicate) (a : Ast) :
    Accounts (a.toExpr ⟨.stop, dup⟩) a.operators Expr.Known := by
  obtain ⟨extent, kind⟩ := a
  exact kind.toExpr_accounts dup extent
termination_by structural a

theorem Kind.toExpr_accounts (dup : OnDuplicate) (extent : Extent) (k : Kind) :
    Accounts (k.toExpr ⟨.stop, dup⟩ extent) (k.operators extent) Expr.Known := by
  cases k with
  | pipeline elements =>
    match elements with
    | [element] =>
      have he := element.toExpr_accounts dup
      rw [← Ast.allOperators_singleton] at he
      exact he
    | [] | _ :: _ :: _ => exact .unsupported dup _ extent
  | commandExpression expression => exact expression.toExpr_accounts dup
  | command elements =>
    match elements with
    | [] => exact .unsupported dup _ extent
    | head :: rest =>
      refine .bind (head.toCallee_accounts dup) fun callee => ?_
      refine .map (argumentsOf_accounts dup rest) fun arguments ha hc => ?_
      exact known_commandExpr hc (Argument.allKnown_attachValues ha)
  | assignment left operator right =>
    refine .bind (left.toExpr_accounts dup) fun target => ?_
    by_cases ho : operator = "Equals"
    · simp only [ho, if_true]
      refine .mapped (OperatorUse.isMapped_equals extent) ?_
      refine .map (right.toExpr_accounts dup) fun value hv ht => ⟨?_, ht, hv⟩
      simp
    · simp only [ho, if_false]
      rw [← OperatorUse.isMapped_assignment ho extent]
      refine .note ⟨.assignment, operator, extent⟩ fun _ => ?_
      refine .map (right.toExpr_accounts dup) fun value hv hmapped ht => ⟨?_, ht, hv⟩
      rw [OperatorUse.isMapped_assignment ho, bne_iff_ne] at hmapped
      simpa using hmapped
  | binary left operator right =>
    refine .bind (left.toExpr_accounts dup) fun l => ?_
    dsimp only
    rw [← OperatorUse.isMapped_binary operator extent]
    refine .note ⟨.binary, operator, extent⟩ fun _ => ?_
    refine .map (right.toExpr_accounts dup) fun r hr hmapped hl => ⟨?_, hl, hr⟩
    rwa [OperatorUse.isMapped_binary, bne_iff_ne] at hmapped
  | unary token child =>
    have hknown (h : OperatorUse.isMapped ⟨.unary, token, extent⟩) :
        (Token.unary token).1 ≠ .unknown := by
      rwa [OperatorUse.isMapped_unary, bne_iff_ne] at h
    simp only [Kind.toExpr]
    rw [← OperatorUse.isMapped_unary token extent]
    refine .note ⟨.unary, token, extent⟩ fun _ => ?_
    cases (Token.unary token).2 with
    | before => exact .map (child.toExpr_accounts dup) fun e he h => ⟨hknown h, he⟩
    | after => exact .map (child.toExpr_accounts dup) fun e he h => ⟨hknown h, he⟩
  | constant value | stringConstant value | expandableString value | var value
  | typeExpression value => exact .pure trivial
  | convert typeName child => exact .map (child.toExpr_accounts dup) fun e he => he
  | index target index =>
    refine .bind (target.toExpr_accounts dup) fun t => ?_
    exact .map (index.toExpr_accounts dup) fun i hi ht => ⟨ht, hi, trivial⟩
  | invokeMember expression member arguments isStatic =>
    refine .bind (expression.toExpr_accounts dup) fun target => ?_
    refine .map (exprsOf_accounts dup arguments) fun values hv ht => ?_
    exact ⟨ht, Argument.allKnown_positional hv⟩
  | member expression member isStatic =>
    exact .map (expression.toExpr_accounts dup) fun target ht => ht
  | paren pipeline => exact .map (pipeline.toExpr_accounts dup) fun e he => he
  | subExpression statements =>
    match statements with
    | [statement] =>
      have hs := statement.toExpr_accounts dup
      rw [← Ast.allOperators_singleton] at hs
      exact .map hs fun e he => he
    | [] | _ :: _ :: _ => exact .unsupported dup _ extent
  | arrayLiteral elements => exact .map (exprsOf_accounts dup elements) fun es hes => hes
  | arrayExpression statements =>
    exact .map (exprsOf_accounts dup statements) fun es hes => allKnown_flatten hes
  | _ => exact .unsupported dup _ extent
termination_by structural k

theorem exprsOf_accounts (dup : OnDuplicate) (as : List Ast) :
    Accounts (exprsOf ⟨.stop, dup⟩ as) (Ast.allOperators as) Expr.AllKnown := by
  cases as with
  | nil => exact .pure trivial
  | cons a as =>
    refine .bind (a.toExpr_accounts dup) fun e => ?_
    exact .map (exprsOf_accounts dup as) fun es hes he => ⟨he, hes⟩
termination_by structural as

theorem optExprOf_accounts (dup : OnDuplicate) (a : Option Ast) :
    Accounts (optExprOf ⟨.stop, dup⟩ a) (Ast.optOperators a) Expr.OptKnown := by
  cases a with
  | none => exact .pure trivial
  | some a => exact .map (a.toExpr_accounts dup) fun e he => he
termination_by structural a

theorem Ast.toCallee_accounts (dup : OnDuplicate) (a : Ast) :
    Accounts (a.toCallee ⟨.stop, dup⟩) a.operators Expr.Known := by
  obtain ⟨extent, kind⟩ := a
  have hk := kind.toExpr_accounts dup extent
  cases kind with
  | stringConstant name => exact .pure trivial
  | _ => exact hk
termination_by structural a

theorem Ast.toArgument_accounts (dup : OnDuplicate) (a : Ast) :
    Accounts (a.toArgument ⟨.stop, dup⟩) a.operators Argument.Known := by
  obtain ⟨extent, kind⟩ := a
  have hk := kind.toExpr_accounts dup extent
  cases kind with
  | commandParameter name argument =>
    exact .map (optExprOf_accounts dup argument) fun value hv => hv
  | _ => exact .map hk fun e he => he
termination_by structural a

theorem argumentsOf_accounts (dup : OnDuplicate) (as : List Ast) :
    Accounts (argumentsOf ⟨.stop, dup⟩ as) (Ast.allOperators as) Argument.AllKnown := by
  cases as with
  | nil => exact .pure trivial
  | cons a as =>
    refine .bind (a.toArgument_accounts dup) fun x => ?_
    exact .map (argumentsOf_accounts dup as) fun xs hxs hx => ⟨hx, hxs⟩
termination_by structural as

end

mutual

theorem Ast.toStmt_accounts (dup : OnDuplicate) (a : Ast) :
    Accounts (a.toStmt ⟨.stop, dup⟩) a.operators Stmt.Known := by
  obtain ⟨extent, kind⟩ := a
  exact kind.toStmt_accounts dup extent
termination_by structural a

theorem Kind.toStmt_accounts (dup : OnDuplicate) (extent : Extent) (k : Kind) :
    Accounts (k.toStmt ⟨.stop, dup⟩ extent) (k.operators extent) Stmt.Known := by
  cases k with
  | scriptBlock parameters statements =>
    change Accounts _ ([] ++ Ast.allOperators statements) _
    refine .bind (noteParamBlock_accounts dup extent parameters) fun noted => ?_
    refine .map (stmtsOf_accounts dup statements) fun ss hss hnoted => ?_
    rw [hnoted]
    exact hss
  | statementBlock statements =>
    exact .map (stmtsOf_accounts dup statements) fun ss hss => known_collapse hss
  | assignment left operator right =>
    have h := (Kind.assignment left operator right).toExpr_accounts dup extent
    simp only [Kind.toStmt]
    cases hd : left.declaration? operator with
    | some declared =>
      obtain ⟨rfl, hl⟩ := Ast.operators_of_declaration? hd
      rw [Kind.operators, hl, List.nil_append]
      refine .mapped (OperatorUse.isMapped_equals extent) ?_
      exact .map (right.toExpr_accounts dup) fun e he => he
    | none => exact .map h fun e he => he
  | ifStatement clauses elseClause =>
    match clauses with
    | [] => exact .map (p := fun _ => False) (.unsupported dup _ extent) fun _ => False.elim
    | first :: rest =>
      rw [Kind.operators, IfClause.allOperators, List.append_assoc]
      refine .bind (first.toLink_accounts dup) fun first => ?_
      refine .bind (linksOf_accounts dup rest) fun links => ?_
      refine .map (optBlockOf_accounts dup elseClause) fun final hf hl hfirst => ?_
      exact ⟨hfirst.1, hfirst.2, Else.known_ofLinks hl hf⟩
  | whileStatement condition body =>
    refine .bind (condition.toExpr_accounts dup) fun c => ?_
    exact .map (body.toStmt_accounts dup) fun b hb hc => ⟨hc, hb⟩
  | forStatement initializer condition step body =>
    refine .bind (optStmtOf_accounts dup initializer) fun i => ?_
    refine .bind (optExprOf_accounts dup condition) fun c => ?_
    refine .bind (optExprOf_accounts dup step) fun s => ?_
    exact .map (body.toStmt_accounts dup) fun b hb hs hc hi => ⟨hi, hc, hs, hb⟩
  | forEachStatement item condition body =>
    obtain ⟨place, item⟩ := item
    cases item with
    | var path =>
      change Accounts _ (condition.operators ++ body.operators) _
      refine .bind (condition.toExpr_accounts dup) fun c => ?_
      exact .map (body.toStmt_accounts dup) fun b hb hc => ⟨hc, hb⟩
    | _ => exact .map (p := fun _ => False) (.unsupported dup _ place) fun _ => False.elim
  | breakStatement | continueStatement => exact .pure trivial
  | returnStatement pipeline => exact .map (optExprOf_accounts dup pipeline) fun e he => he
  | tryStatement body catches final =>
    refine .bind (body.toBlock_accounts dup) fun b => ?_
    refine .bind (catchesOfClauses_accounts dup catches) fun cs => ?_
    exact .map (optBlockOf_accounts dup final) fun f hf hcs hb => ⟨hb, hcs, hf⟩
  | function name parameters body =>
    refine .map (body.toBlock_accounts dup) fun b hb => ⟨?_, hb⟩
    exact List.forall_mem_nil _
  | _ => exact .map (Kind.toExpr_accounts dup extent _) fun e he => he
termination_by structural k

theorem stmtsOf_accounts (dup : OnDuplicate) (as : List Ast) :
    Accounts (stmtsOf ⟨.stop, dup⟩ as) (Ast.allOperators as) Stmt.AllKnown := by
  cases as with
  | nil => exact .pure trivial
  | cons a as =>
    refine .bind (a.toStmt_accounts dup) fun s => ?_
    exact .map (stmtsOf_accounts dup as) fun ss hss hs => ⟨hs, hss⟩
termination_by structural as

theorem optStmtOf_accounts (dup : OnDuplicate) (a : Option Ast) :
    Accounts (optStmtOf ⟨.stop, dup⟩ a) (Ast.optOperators a) Stmt.OptKnown := by
  cases a with
  | none => exact .pure trivial
  | some a => exact .map (a.toStmt_accounts dup) fun s hs => hs
termination_by structural a

theorem Ast.toBlock_accounts (dup : OnDuplicate) (a : Ast) :
    Accounts (a.toBlock ⟨.stop, dup⟩) a.operators Stmt.AllKnown := by
  obtain ⟨extent, kind⟩ := a
  have hk := kind.toStmt_accounts dup extent
  cases kind with
  | statementBlock statements => exact stmtsOf_accounts dup statements
  | scriptBlock parameters statements => exact stmtsOf_accounts dup statements
  | _ => exact .map hk fun s hs => Stmt.allKnown_statements hs
termination_by structural a

theorem optBlockOf_accounts (dup : OnDuplicate) (a : Option Ast) :
    Accounts (optBlockOf ⟨.stop, dup⟩ a) (Ast.optOperators a) Stmt.OptAllKnown := by
  cases a with
  | none => exact .pure trivial
  | some a => exact .map (a.toBlock_accounts dup) fun b hb => hb
termination_by structural a

theorem IfClause.toLink_accounts (dup : OnDuplicate) (c : IfClause) :
    Accounts (c.toLink ⟨.stop, dup⟩) c.operators Link.Known := by
  obtain ⟨condition, body⟩ := c
  refine .bind (condition.toExpr_accounts dup) fun c => ?_
  exact .map (body.toStmt_accounts dup) fun b hb hc => ⟨hc, hb⟩
termination_by structural c

theorem linksOf_accounts (dup : OnDuplicate) (cs : List IfClause) :
    Accounts (linksOf ⟨.stop, dup⟩ cs) (IfClause.allOperators cs) fun ls => ∀ l ∈ ls, l.Known := by
  cases cs with
  | nil => exact .pure (List.forall_mem_nil _)
  | cons c cs =>
    refine .bind (c.toLink_accounts dup) fun l => ?_
    exact .map (linksOf_accounts dup cs) fun ls hls hl => List.forall_mem_cons.mpr ⟨hl, hls⟩
termination_by structural cs

theorem CatchClause.toCatches_accounts (dup : OnDuplicate) (c : CatchClause) :
    Accounts (c.toCatches ⟨.stop, dup⟩) c.operators Catch.AllKnown := by
  obtain ⟨extent, types, body⟩ := c
  exact .map (body.toBlock_accounts dup) fun b hb => allKnown_catchesOf hb
termination_by structural c

theorem catchesOfClauses_accounts (dup : OnDuplicate) (cs : List CatchClause) :
    Accounts (catchesOfClauses ⟨.stop, dup⟩ cs) (CatchClause.allOperators cs) Catch.AllKnown := by
  cases cs with
  | nil => exact .pure trivial
  | cons c cs =>
    refine .bind (c.toCatches_accounts dup) fun first => ?_
    refine .map (catchesOfClauses_accounts dup cs) fun rest hr hf => ?_
    exact Catch.allKnown_append.mpr ⟨hf, hr⟩
termination_by structural cs

end

/-- The diagnostics of a reading that stops at constructs are the reports on the operators of the
tree that are in no table. It is faithful when all are in their tables, and then no operator of
the program tree is unknown. -/
theorem Ast.diagnostics_of_toReading (dup : OnDuplicate) {root : Ast} {r : Reading}
    (h : root.toReading ⟨.stop, dup⟩ = .ok r) :
    r.diagnostics = (root.operators.filter (!·.isMapped)).map (·.report) ∧
      (r.isFaithful ↔ ∀ u ∈ root.operators, u.isMapped) ∧ (r.isFaithful → r.node.Known) := by
  have hs := root.toStmt_accounts dup
  unfold toReading at h
  split at h
  · next s ds heq =>
    cases h
    obtain ⟨hds, hknown⟩ := hs s ds heq
    have hfaithful : Reading.isFaithful ⟨.stmt s, ds⟩ ↔ ∀ u ∈ root.operators, u.isMapped := by
      rw [Reading.isFaithful, List.isEmpty_iff, hds, reports_eq_nil_iff]
    exact ⟨hds, hfaithful, fun hf => hknown (hfaithful.mp hf)⟩
  · cases h

def guardedComparison : Ast :=
  .ofKind (.tryStatement
    (.ofKind (.binary (.ofKind (.unary "Csplit" (.ofKind (.var "a")))) "Ilike"
      (.ofKind (.binary (.ofKind (.var "b")) "Ieq" (.ofKind (.constant "1"))))))
    [⟨{}, ["IOException", "FormatException"],
      .ofKind (.assignment (.ofKind (.var "c")) "QuestionQuestionEquals"
        (.ofKind (.constant "2")))⟩] none)

theorem diagnostics_of_guardedComparison :
    ∃ r, guardedComparison.toReading ⟨.stop, .keepLast⟩ = .ok r ∧
      r.diagnostics = [.unknownOperator "Csplit" {}, .unknownOperator "Ilike" {},
        .unknownOperator "QuestionQuestionEquals" {}] ∧ ¬ r.isFaithful := by
  have hr : guardedComparison.toReading ⟨.stop, .keepLast⟩ = .ok _ := rfl
  have hunmapped : ¬ ∀ u ∈ guardedComparison.operators, u.isMapped := by decide
  obtain ⟨hds, hfaithful, -⟩ := Ast.diagnostics_of_toReading .keepLast hr
  exact ⟨_, hr, hds.trans (by decide), fun h => hunmapped (hfaithful.mp h)⟩

end Interlingua.Host
