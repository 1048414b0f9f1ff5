import Interlingua.Proofs.Leaves
import Interlingua.Proofs.Recording

namespace Interlingua.Host

open Recorded

/-- None of the texts names the command that creates an object. -/
def NamesNoObject (texts : List String) : Prop := ∀ t ∈ texts, ¬ Text.sameName "New-Object" t

theorem namesNoObject_append {ts us : List String} :
    NamesNoObject (ts ++ us) ↔ NamesNoObject ts ∧ NamesNoObject us :=
  List.forall_mem_append

theorem commandExpr_eq_call {callee : Expr} {arguments : List Argument}
    (h : NamesNoObject callee.leaves) :
    commandExpr ⟨callee, arguments⟩ = .call callee arguments := by
  unfold commandExpr
  split
  · next hname =>
    cases callee with
    | identifier name => exact absurd hname (h name (List.mem_singleton_self name))
    | _ => cases hname
  · rfl

theorem noteOperator_yields (known : Bool) (token : String) (extent : Extent) :
    Yields (noteOperator known token extent) fun _ _ => True :=
  fun _ _ _ => trivial

theorem noteParamBlock_yields (dup : OnDuplicate) (extent : Extent)
    (block : Option (List ParamDecl)) :
    Yields (noteParamBlock ⟨.stop, dup⟩ extent block) fun noted _ => noted = [] := by
  match block with
  | none | some [] => exact .pure rfl
  | some (_ :: _) => exact .bind (.unsupported dup _ extent) fun _ _ h => h

mutual

theorem Ast.toExpr_leaves (dup : OnDuplicate) (a : Ast) (h : NamesNoObject a.leaves) :
    Yields (a.toExpr ⟨.stop, dup⟩) fun e _ => e.leaves = a.leaves := by
  obtain ⟨extent, kind⟩ := a
  exact kind.toExpr_leaves dup extent h
termination_by structural a

theorem Kind.toExpr_leaves (dup : OnDuplicate) (extent : Extent) (k : Kind)
    (h : NamesNoObject k.leaves) :
    Yields (k.toExpr ⟨.stop, dup⟩ extent) fun e _ => e.leaves = k.leaves := by
  cases k with
  | pipeline elements =>
    match elements with
    | [element] =>
      simp only [Kind.leaves, Ast.allLeaves, List.append_nil] at h ⊢
      exact element.toExpr_leaves dup h
    | [] | _ :: _ :: _ => exact .unsupported dup _ extent
  | commandExpression expression => exact expression.toExpr_leaves dup h
  | command elements =>
    match elements with
    | [] => exact .unsupported dup _ extent
    | head :: rest =>
      obtain ⟨hh, hr⟩ := namesNoObject_append.mp h
      refine .bind (head.toCallee_leaves dup hh) fun callee _ hc => ?_
      refine .bind (argumentsOf_leaves dup rest hr) fun arguments _ ha => .pure ?_
      rw [commandExpr_eq_call (hc ▸ hh)]
      simp only [Expr.leaves, Argument.allLeaves_attachValues, hc, ha, Kind.leaves, Ast.allLeaves]
  | assignment left operator right =>
    obtain ⟨hl, hr⟩ := namesNoObject_append.mp h
    refine .bind (left.toExpr_leaves dup hl) fun target _ ht => ?_
    by_cases ho : operator = "Equals"
    · simp only [ho, if_true]
      refine .bind (right.toExpr_leaves dup hr) fun value _ hv => .pure ?_
      simp only [Expr.leaves, Kind.leaves, ht, hv]
    · simp only [ho, if_false]
      refine .bind (noteOperator_yields _ operator extent) fun _ _ _ => ?_
      refine .bind (right.toExpr_leaves dup hr) fun value _ hv => .pure ?_
      simp only [Expr.leaves, Kind.leaves, ht, hv]
  | binary left operator right =>
    obtain ⟨hl, hr⟩ := namesNoObject_append.mp h
    refine .bind (left.toExpr_leaves dup hl) fun l _ hl => ?_
    refine .bind (noteOperator_yields _ operator extent) fun _ _ _ => ?_
    refine .bind (right.toExpr_leaves dup hr) fun r _ hr => .pure ?_
    simp only [Expr.leaves, Kind.leaves, hl, hr]
  | unary token child =>
    simp only [Kind.toExpr]
    refine .bind (noteOperator_yields _ token extent) fun _ _ _ => ?_
    refine .bind (child.toExpr_leaves dup h) fun operand _ ho => ?_
    cases (Token.unary token).2 <;> exact .pure ho
  | constant value | stringConstant value | expandableString value | var value
  | typeExpression value => exact .pure rfl
  | convert typeName child => exact .bind (child.toExpr_leaves dup h) fun e _ he => .pure he
  | index target index =>
    obtain ⟨ht, hi⟩ := namesNoObject_append.mp h
    refine .bind (target.toExpr_leaves dup ht) fun t _ ht => ?_
    refine .bind (index.toExpr_leaves dup hi) fun i _ hi => .pure ?_
    simp only [Expr.indexed, Expr.leaves, Argument.allLeaves, Argument.positional,
      Argument.leaves, Expr.optLeaves, Kind.leaves, List.append_nil, ht, hi]
  | invokeMember expression member arguments isStatic =>
    obtain ⟨he, ha⟩ := namesNoObject_append.mp h
    refine .bind (expression.toExpr_leaves dup he) fun target _ ht => ?_
    refine .bind (exprsOf_leaves dup arguments ha) fun values _ hv => .pure ?_
    simp only [Expr.leaves, Argument.allLeaves_positional, Kind.leaves, ht, hv]
  | member expression member isStatic =>
    exact .bind (expression.toExpr_leaves dup h) fun target _ ht => .pure ht
  | paren pipeline => exact .bind (pipeline.toExpr_leaves dup h) fun e _ he => .pure he
  | subExpression statements =>
    match statements with
    | [statement] =>
      simp only [Kind.leaves, Ast.allLeaves, List.append_nil] at h ⊢
      exact .bind (statement.toExpr_leaves dup h) fun e _ he => .pure he
    | [] | _ :: _ :: _ => exact .unsupported dup _ extent
  | arrayLiteral elements => exact .bind (exprsOf_leaves dup elements h) fun es _ hes => .pure hes
  | arrayExpression statements =>
    refine .bind (exprsOf_leaves dup statements h) fun es _ hes => .pure ?_
    simp only [Expr.leaves, allLeaves_flatten, hes, Kind.leaves]
  | _ => exact .unsupported dup _ extent
termination_by structural k

theorem exprsOf_leaves (dup : OnDuplicate) (as : List Ast) (h : NamesNoObject (Ast.allLeaves as)) :
    Yields (exprsOf ⟨.stop, dup⟩ as) fun es _ => Expr.allLeaves es = Ast.allLeaves as := by
  cases as with
  | nil => exact .pure rfl
  | cons a as =>
    obtain ⟨ha, has⟩ := namesNoObject_append.mp h
    refine .bind (a.toExpr_leaves dup ha) fun e _ he => ?_
    refine .bind (exprsOf_leaves dup as has) fun es _ hes => .pure ?_
    simp only [Expr.allLeaves, Ast.allLeaves, he, hes]
termination_by structural as

theorem optExprOf_leaves (dup : OnDuplicate) (a : Option Ast)
    (h : NamesNoObject (Ast.optLeaves a)) :
    Yields (optExprOf ⟨.stop, dup⟩ a) fun e _ => Expr.optLeaves e = Ast.optLeaves a := by
  cases a with
  | none => exact .pure rfl
  | some a => exact .bind (a.toExpr_leaves dup h) fun e _ he => .pure he
termination_by structural a

theorem Ast.toCallee_leaves (dup : OnDuplicate) (a : Ast) (h : NamesNoObject a.leaves) :
    Yields (a.toCallee ⟨.stop, dup⟩) fun e _ => e.leaves = a.leaves := by
  obtain ⟨extent, kind⟩ := a
  have hk := kind.toExpr_leaves dup extent h
  cases kind with
  | stringConstant name => exact .pure rfl
  | _ => exact hk
termination_by structural a

theorem Ast.toArgument_leaves (dup : OnDuplicate) (a : Ast) (h : NamesNoObject a.leaves) :
    Yields (a.toArgument ⟨.stop, dup⟩) fun x _ => x.leaves = a.leaves := by
  obtain ⟨extent, kind⟩ := a
  have hk := kind.toExpr_leaves dup extent h
  cases kind with
  | commandParameter name argument =>
    exact .bind (optExprOf_leaves dup argument h) fun value _ hv => .pure hv
  | _ => exact .bind hk fun e _ he => .pure he
termination_by structural a

theorem argumentsOf_leaves (dup : OnDuplicate) (as : List Ast)
    (h : NamesNoObject (Ast.allLeaves as)) :
    Yields (argumentsOf ⟨.stop, dup⟩ as) fun xs _ => Argument.allLeaves xs = Ast.allLeaves as := by
  cases as with
  | nil => exact .pure rfl
  | cons a as =>
    obtain ⟨ha, has⟩ := namesNoObject_append.mp h
    refine .bind (a.toArgument_leaves dup ha) fun x _ hx => ?_
    refine .bind (argumentsOf_leaves dup as has) fun xs _ hxs => .pure ?_
    simp only [Argument.allLeaves, Ast.allLeaves, hx, hxs]
termination_by structural as

end

mutual

theorem Ast.toStmt_leaves (dup : OnDuplicate) (a : Ast) (h : NamesNoObject a.leaves) :
    Yields (a.toStmt ⟨.stop, dup⟩) fun s _ => s.leaves = a.leaves := by
  obtain ⟨extent, kind⟩ := a
  exact kind.toStmt_leaves dup extent h
termination_by structural a

theorem Kind.toStmt_leaves (dup : OnDuplicate) (extent : Extent) (k : Kind)
    (h : NamesNoObject k.leaves) :
    Yields (k.toStmt ⟨.stop, dup⟩ extent) fun s _ => s.leaves = k.leaves := by
  cases k with
  | scriptBlock block statements =>
    refine .bind (noteParamBlock_yields dup extent block) fun noted _ hn => ?_
    refine .bind (stmtsOf_leaves dup statements h) fun ss _ hs => .pure ?_
    simp only [hn, List.nil_append, Stmt.leaves, hs, Kind.leaves]
  | statementBlock statements =>
    refine .bind (stmtsOf_leaves dup statements h) fun ss _ hs => .pure ?_
    rw [leaves_collapse, hs]
    rfl
  | assignment left operator right =>
    simp only [Kind.toStmt]
    cases hd : left.declaration? operator with
    | some declared =>
      obtain ⟨typeName, name⟩ := declared
      obtain ⟨_, hr⟩ := namesNoObject_append.mp h
      refine .bind (right.toExpr_leaves dup hr) fun e _ he => .pure ?_
      simp only [Stmt.leaves, he, Kind.leaves, Ast.leaves_of_declaration? hd,
        List.singleton_append]
    | none =>
      exact .bind ((Kind.assignment left operator right).toExpr_leaves dup extent h)
        fun e _ he => .pure he
  | ifStatement clauses elseClause =>
    match clauses with
    | [] => exact .bind (.unsupported (p := fun _ _ => False) dup _ extent) fun _ _ => False.elim
    | first :: rest =>
      obtain ⟨hc, he⟩ := namesNoObject_append.mp h
      obtain ⟨hf, hr⟩ := namesNoObject_append.mp hc
      refine .bind (first.toLink_leaves dup hf) fun first _ hfirst => ?_
      refine .bind (linksOf_leaves dup rest hr) fun links _ hlinks => ?_
      refine .bind (optBlockOf_leaves dup elseClause he) fun final _ hfinal => .pure ?_
      rw [Clauses.leaves_link, hfirst, hlinks, hfinal, Kind.leaves, IfClause.allLeaves,
        List.append_assoc]
  | whileStatement condition body =>
    obtain ⟨hc, hb⟩ := namesNoObject_append.mp h
    refine .bind (condition.toExpr_leaves dup hc) fun condition _ hc => ?_
    refine .bind (body.toStmt_leaves dup hb) fun body _ hb => .pure ?_
    simp only [Stmt.leaves, hc, hb, Kind.leaves]
  | forStatement initializer condition step body =>
    obtain ⟨hi, h⟩ := namesNoObject_append.mp h
    obtain ⟨hc, h⟩ := namesNoObject_append.mp h
    obtain ⟨hs, hb⟩ := namesNoObject_append.mp h
    refine .bind (optStmtOf_leaves dup initializer hi) fun initializer _ hi => ?_
    refine .bind (optExprOf_leaves dup condition hc) fun condition _ hc => ?_
    refine .bind (optExprOf_leaves dup step hs) fun step _ hs => ?_
    refine .bind (body.toStmt_leaves dup hb) fun body _ hb => .pure ?_
    simp only [Stmt.leaves, hi, hc, hs, hb, Kind.leaves]
  | forEachStatement item condition body =>
    obtain ⟨place, item⟩ := item
    obtain ⟨_, h⟩ := namesNoObject_append.mp h
    obtain ⟨hc, hb⟩ := namesNoObject_append.mp h
    cases item with
    | var path =>
      refine .bind (condition.toExpr_leaves dup hc) fun iterable _ hi => ?_
      refine .bind (body.toStmt_leaves dup hb) fun body _ hb => .pure ?_
      simp only [Stmt.leaves, hi, hb, Kind.leaves, Ast.leaves, List.singleton_append]
    | _ => exact .bind (.unsupported (p := fun _ _ => False) dup _ place) fun _ _ => False.elim
  | breakStatement | continueStatement => exact .pure rfl
  | returnStatement pipeline =>
    exact .bind (optExprOf_leaves dup pipeline h) fun e _ he => .pure he
  | tryStatement body catches final =>
    obtain ⟨hb, h⟩ := namesNoObject_append.mp h
    obtain ⟨hc, hf⟩ := namesNoObject_append.mp h
    refine .bind (body.toBlock_leaves dup hb) fun body _ hb => ?_
    refine .bind (catchesOfClauses_leaves dup catches hc) fun catches _ hc => ?_
    refine .bind (optBlockOf_leaves dup final hf) fun final _ hf => .pure ?_
    simp only [Stmt.leaves, hb, hc, hf, Kind.leaves]
  | function name parameters body =>
    refine .bind (body.toBlock_leaves dup h) fun body _ hb => .pure ?_
    simp only [Stmt.publicMethod, Stmt.leaves, Signature.leaves, List.flatMap_nil,
      List.nil_append, hb, Kind.leaves]
  | _ => exact .bind (Kind.toExpr_leaves dup extent _ h) fun e _ he => .pure he
termination_by structural k

theorem stmtsOf_leaves (dup : OnDuplicate) (as : List Ast) (h : NamesNoObject (Ast.allLeaves as)) :
    Yields (stmtsOf ⟨.stop, dup⟩ as) fun ss _ => Stmt.allLeaves ss = Ast.allLeaves as := by
  cases as with
  | nil => exact .pure rfl
  | cons a as =>
    obtain ⟨ha, has⟩ := namesNoObject_append.mp h
    refine .bind (a.toStmt_leaves dup ha) fun s _ hs => ?_
    refine .bind (stmtsOf_leaves dup as has) fun ss _ hss => .pure ?_
    simp only [Stmt.allLeaves, Ast.allLeaves, hs, hss]
termination_by structural as

theorem optStmtOf_leaves (dup : OnDuplicate) (a : Option Ast)
    (h : NamesNoObject (Ast.optLeaves a)) :
    Yields (optStmtOf ⟨.stop, dup⟩ a) fun s _ => Stmt.optLeaves s = Ast.optLeaves a := by
  cases a with
  | none => exact .pure rfl
  | some a => exact .bind (a.toStmt_leaves dup h) fun s _ hs => .pure hs
termination_by structural a

theorem Ast.toBlock_leaves (dup : OnDuplicate) (a : Ast) (h : NamesNoObject a.leaves) :
    Yields (a.toBlock ⟨.stop, dup⟩) fun ss _ => Stmt.allLeaves ss = a.leaves := by
  obtain ⟨extent, kind⟩ := a
  have hk := kind.toStmt_leaves dup extent h
  cases kind with
  | statementBlock statements => exact stmtsOf_leaves dup statements h
  | scriptBlock block statements => exact stmtsOf_leaves dup statements h
  | _ => exact .bind hk fun s _ hs => .pure ((Stmt.allLeaves_statements s).trans hs)
termination_by structural a

theorem optBlockOf_leaves (dup : OnDuplicate) (a : Option Ast)
    (h : NamesNoObject (Ast.optLeaves a)) :
    Yields (optBlockOf ⟨.stop, dup⟩ a) fun b _ => Stmt.optAllLeaves b = Ast.optLeaves a := by
  cases a with
  | none => exact .pure rfl
  | some a => exact .bind (a.toBlock_leaves dup h) fun b _ hb => .pure hb
termination_by structural a

theorem IfClause.toLink_leaves (dup : OnDuplicate) (c : IfClause) (h : NamesNoObject c.leaves) :
    Yields (c.toLink ⟨.stop, dup⟩) fun l _ => l.leaves = c.leaves := by
  obtain ⟨condition, body⟩ := c
  obtain ⟨hc, hb⟩ := namesNoObject_append.mp h
  refine .bind (condition.toExpr_leaves dup hc) fun condition _ hc => ?_
  refine .bind (body.toStmt_leaves dup hb) fun body _ hb => .pure ?_
  simp only [Link.leaves, hc, hb, IfClause.leaves]
termination_by structural c

theorem linksOf_leaves (dup : OnDuplicate) (cs : List IfClause)
    (h : NamesNoObject (IfClause.allLeaves cs)) :
    Yields (linksOf ⟨.stop, dup⟩ cs) fun ls _ =>
      ls.flatMap Link.leaves = IfClause.allLeaves cs := by
  cases cs with
  | nil => exact .pure rfl
  | cons c cs =>
    obtain ⟨hc, hcs⟩ := namesNoObject_append.mp h
    refine .bind (c.toLink_leaves dup hc) fun link _ hl => ?_
    refine .bind (linksOf_leaves dup cs hcs) fun links _ hls => .pure ?_
    simp only [List.flatMap_cons, IfClause.allLeaves, hl, hls]
termination_by structural cs

theorem CatchClause.toCatches_leaves (dup : OnDuplicate) (c : CatchClause)
    (h : NamesNoObject c.leaves) :
    Yields (c.toCatches ⟨.stop, dup⟩) fun cs _ => Catch.allLeaves cs = c.leaves := by
  obtain ⟨extent, types, body⟩ := c
  have hb : NamesNoObject body.leaves := by
    cases types with
    | nil => exact h
    | cons t ts => exact (namesNoObject_append.mp h).1
  exact .bind (body.toBlock_leaves dup hb) fun block _ hb => .pure (allLeaves_catchesOf hb)
termination_by structural c

theorem catchesOfClauses_leaves (dup : OnDuplicate) (cs : List CatchClause)
    (h : NamesNoObject (CatchClause.allLeaves cs)) :
    Yields (catchesOfClauses ⟨.stop, dup⟩ cs) fun ds _ =>
      Catch.allLeaves ds = CatchClause.allLeaves cs := by
  cases cs with
  | nil => exact .pure rfl
  | cons c cs =>
    obtain ⟨hc, hcs⟩ := namesNoObject_append.mp h
    refine .bind (c.toCatches_leaves dup hc) fun first _ hf => ?_
    refine .bind (catchesOfClauses_leaves dup cs hcs) fun rest _ hr => .pure ?_
    simp only [Catch.allLeaves_append, CatchClause.allLeaves, hf, hr]
termination_by structural cs

end

/-- Where no leaf names the command that creates an object, reading that ends in a tree ends in
one with the same leaves. -/
theorem Ast.leaves_of_toReading (dup : OnDuplicate) {root : Ast} {r : Reading}
    (names : ∀ t ∈ root.leaves, ¬ Text.sameName "New-Object" t)
    (h : root.toReading ⟨.stop, dup⟩ = .ok r) : r.node.leaves = root.leaves := by
  have hs := root.toStmt_leaves dup names
  unfold toReading at h
  split at h
  · next s ds heq =>
    cases h
    exact hs s ds heq
  · cases h

def guardedDeclaration : Ast :=
  .ofKind (.tryStatement
    (.ofKind (.statementBlock [.assign (.ofKind (.convert "int" (.ofKind (.var "n"))))
      (.ofKind (.command [.ofKind (.stringConstant "Get-Item"),
        .ofKind (.commandParameter "Path" none), .ofKind (.var "p")]))]))
    [⟨{}, ["IOException", "FormatException"], .ofKind (.constant "1")⟩] none)

theorem leaves_of_guardedDeclaration :
    ∃ r, guardedDeclaration.toReading ⟨.stop, .keepLast⟩ = .ok r ∧
      (∀ t ∈ guardedDeclaration.leaves, ¬ Text.sameName "New-Object" t) ∧
      r.node.leaves = ["n", "Get-Item", "p", "1", "1"] := by
  have names : ∀ t ∈ guardedDeclaration.leaves, ¬ Text.sameName "New-Object" t := by decide
  exact ⟨_, rfl, names, Ast.leaves_of_toReading .keepLast names rfl⟩

end Interlingua.Host
