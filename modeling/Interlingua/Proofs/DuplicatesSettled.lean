import Interlingua.Proofs.Declarations
import Interlingua.Proofs.MethodsDeclared
import Interlingua.Proofs.StmtMap

namespace Interlingua

namespace Host

open Recorded

variable {on : OnUnsupported}

mutual

theorem Ast.toExpr_keepLast (a : Ast) : a.toExpr ⟨on, .keepLast⟩ = a.toExpr ⟨on, .keepAll⟩ := by
  obtain ⟨extent, kind⟩ := a
  exact kind.toExpr_keepLast extent
termination_by structural a

theorem Kind.toExpr_keepLast (extent : Extent) (k : Kind) :
    k.toExpr ⟨on, .keepLast⟩ extent = k.toExpr ⟨on, .keepAll⟩ extent := by
  cases k with
  | pipeline elements =>
    match elements with
    | [element] => exact element.toExpr_keepLast
    | [] | _ :: _ :: _ => rfl
  | commandExpression expression => exact expression.toExpr_keepLast
  | command elements =>
    match elements with
    | [] => rfl
    | head :: rest =>
      simp only [Kind.toExpr, head.toCallee_keepLast, argumentsOf_keepLast rest]
  | subExpression statements =>
    match statements with
    | [statement] => simp only [Kind.toExpr, statement.toExpr_keepLast]
    | [] | _ :: _ :: _ => rfl
  | assignment left operator right | binary left operator right =>
    simp only [Kind.toExpr, left.toExpr_keepLast, right.toExpr_keepLast]
  | unary _ child | convert _ child | member child _ _ | paren child =>
    simp only [Kind.toExpr, child.toExpr_keepLast]
  | index target index =>
    simp only [Kind.toExpr, target.toExpr_keepLast, index.toExpr_keepLast]
  | invokeMember expression member arguments isStatic =>
    simp only [Kind.toExpr, expression.toExpr_keepLast, exprsOf_keepLast arguments]
  | arrayLiteral elements | arrayExpression elements =>
    simp only [Kind.toExpr, exprsOf_keepLast elements]
  | _ => rfl
termination_by structural k

theorem exprsOf_keepLast (as : List Ast) :
    exprsOf ⟨on, .keepLast⟩ as = exprsOf ⟨on, .keepAll⟩ as := by
  cases as with
  | nil => rfl
  | cons a as => simp only [exprsOf, a.toExpr_keepLast, exprsOf_keepLast as]
termination_by structural as

theorem optExprOf_keepLast (a : Option Ast) :
    optExprOf ⟨on, .keepLast⟩ a = optExprOf ⟨on, .keepAll⟩ a := by
  cases a with
  | none => rfl
  | some a => simp only [optExprOf, a.toExpr_keepLast]
termination_by structural a

theorem Ast.toCallee_keepLast (a : Ast) :
    a.toCallee ⟨on, .keepLast⟩ = a.toCallee ⟨on, .keepAll⟩ := by
  obtain ⟨extent, kind⟩ := a
  have h := kind.toExpr_keepLast extent
  cases kind with
  | stringConstant name => rfl
  | _ => exact h
termination_by structural a

theorem Ast.toArgument_keepLast (a : Ast) :
    a.toArgument ⟨on, .keepLast⟩ = a.toArgument ⟨on, .keepAll⟩ := by
  obtain ⟨extent, kind⟩ := a
  have h := kind.toExpr_keepLast extent
  cases kind with
  | commandParameter name argument => simp only [Ast.toArgument, optExprOf_keepLast argument]
  | _ => simp only [Ast.toArgument, h]
termination_by structural a

theorem argumentsOf_keepLast (as : List Ast) :
    argumentsOf ⟨on, .keepLast⟩ as = argumentsOf ⟨on, .keepAll⟩ as := by
  cases as with
  | nil => rfl
  | cons a as => simp only [argumentsOf, a.toArgument_keepLast, argumentsOf_keepLast as]
termination_by structural as

end

theorem noteParamBlock_keepLast (extent : Extent) (block : Option (List ParamDecl)) :
    noteParamBlock ⟨on, .keepLast⟩ extent block =
      Stmt.allMap id lastDeclared <$> noteParamBlock ⟨on, .keepAll⟩ extent block := by
  match block with
  | none | some [] => rfl
  | some (_ :: _) =>
    simp only [noteParamBlock, unsupported, map_bind, map_pure, Stmt.allMap, Stmt.map, id_eq]

theorem settleDuplicates_keepLast (ps : List Parameter) :
    settleDuplicates ⟨on, .keepLast⟩ ps = lastDeclared ps :=
  foldl_redeclare ps

mutual

theorem Ast.toStmt_keepLast (a : Ast) :
    a.toStmt ⟨on, .keepLast⟩ = Stmt.map id lastDeclared <$> a.toStmt ⟨on, .keepAll⟩ := by
  obtain ⟨extent, kind⟩ := a
  exact kind.toStmt_keepLast extent
termination_by structural a

theorem Kind.toStmt_keepLast (extent : Extent) (k : Kind) :
    k.toStmt ⟨on, .keepLast⟩ extent =
      Stmt.map id lastDeclared <$> k.toStmt ⟨on, .keepAll⟩ extent := by
  cases k with
  | scriptBlock block statements =>
    simp only [Kind.toStmt, noteParamBlock_keepLast, stmtsOf_keepLast statements, map_bind,
      map_pure, bind_map_left, Stmt.map, Stmt.allMap_append]
  | statementBlock statements =>
    simp only [Kind.toStmt, stmtsOf_keepLast statements, map_bind, map_pure, bind_map_left,
      map_collapse]
  | assignment left operator right =>
    simp only [Kind.toStmt]
    cases left.declaration? operator with
    | none => simp only [Kind.toExpr_keepLast, map_bind, map_pure, Stmt.map, id_eq]
    | some declared => simp only [Ast.toExpr_keepLast, map_bind, map_pure, Stmt.map, id_eq]
  | ifStatement clauses elseClause =>
    match clauses with
    | [] => simp only [Kind.toStmt, Kind.toExpr_keepLast, map_bind, map_pure, Stmt.map, id_eq]
    | first :: rest =>
      simp only [Kind.toStmt, first.toLink_keepLast, linksOf_keepLast rest,
        optBlockOf_keepLast elseClause, map_bind, map_pure, bind_map_left, Clauses.map_link]
  | whileStatement condition body =>
    simp only [Kind.toStmt, condition.toExpr_keepLast, body.toStmt_keepLast, map_bind, map_pure,
      bind_map_left, Stmt.map, id_eq]
  | forStatement initializer condition step body =>
    simp only [Kind.toStmt, optStmtOf_keepLast initializer, optExprOf_keepLast,
      body.toStmt_keepLast, map_bind, map_pure, bind_map_left, Stmt.map, Option.map_id, id_eq]
  | forEachStatement item condition body =>
    obtain ⟨place, item⟩ := item
    cases item with
    | var path =>
      simp only [Kind.toStmt, condition.toExpr_keepLast, body.toStmt_keepLast, map_bind, map_pure,
        bind_map_left, Stmt.map, id_eq]
    | _ => simp only [Kind.toStmt, unsupported, map_bind, map_pure, Stmt.map, id_eq]
  | breakStatement | continueStatement => rfl
  | returnStatement pipeline =>
    simp only [Kind.toStmt, optExprOf_keepLast, map_bind, map_pure, Stmt.map, Option.map_id, id_eq]
  | tryStatement body catches final =>
    simp only [Kind.toStmt, body.toBlock_keepLast, catchesOfClauses_keepLast catches,
      optBlockOf_keepLast final, map_bind, map_pure, bind_map_left, Stmt.map]
  | function name parameters body =>
    simp only [Kind.toStmt, body.toBlock_keepLast, map_bind, map_pure, bind_map_left,
      settleDuplicates_keepLast]
    rfl
  | _ => simp only [Kind.toStmt, Kind.toExpr_keepLast, map_bind, map_pure, Stmt.map, id_eq]
termination_by structural k

theorem stmtsOf_keepLast (as : List Ast) :
    stmtsOf ⟨on, .keepLast⟩ as = Stmt.allMap id lastDeclared <$> stmtsOf ⟨on, .keepAll⟩ as := by
  cases as with
  | nil => rfl
  | cons a as =>
    simp only [stmtsOf, a.toStmt_keepLast, stmtsOf_keepLast as, map_bind, map_pure, bind_map_left,
      Stmt.allMap]
termination_by structural as

theorem optStmtOf_keepLast (a : Option Ast) :
    optStmtOf ⟨on, .keepLast⟩ a =
      Stmt.optMap id lastDeclared <$> optStmtOf ⟨on, .keepAll⟩ a := by
  cases a with
  | none => rfl
  | some a =>
    simp only [optStmtOf, a.toStmt_keepLast, map_bind, map_pure, bind_map_left, Stmt.optMap]
termination_by structural a

theorem Ast.toBlock_keepLast (a : Ast) :
    a.toBlock ⟨on, .keepLast⟩ = Stmt.allMap id lastDeclared <$> a.toBlock ⟨on, .keepAll⟩ := by
  obtain ⟨extent, kind⟩ := a
  have h := kind.toStmt_keepLast extent
  cases kind with
  | statementBlock statements => exact stmtsOf_keepLast statements
  | scriptBlock block statements => exact stmtsOf_keepLast statements
  | _ => simp only [Ast.toBlock, h, map_bind, map_pure, bind_map_left, Stmt.allMap_statements]
termination_by structural a

theorem optBlockOf_keepLast (a : Option Ast) :
    optBlockOf ⟨on, .keepLast⟩ a =
      Stmt.optAllMap id lastDeclared <$> optBlockOf ⟨on, .keepAll⟩ a := by
  cases a with
  | none => rfl
  | some a =>
    simp only [optBlockOf, a.toBlock_keepLast, map_bind, map_pure, bind_map_left, Stmt.optAllMap]
termination_by structural a

theorem IfClause.toLink_keepLast (c : IfClause) :
    c.toLink ⟨on, .keepLast⟩ = Link.map id lastDeclared <$> c.toLink ⟨on, .keepAll⟩ := by
  obtain ⟨condition, body⟩ := c
  simp only [IfClause.toLink, condition.toExpr_keepLast, body.toStmt_keepLast, map_bind, map_pure,
    bind_map_left, Link.map, id_eq]
termination_by structural c

theorem linksOf_keepLast (cs : List IfClause) :
    linksOf ⟨on, .keepLast⟩ cs =
      List.map (Link.map id lastDeclared) <$> linksOf ⟨on, .keepAll⟩ cs := by
  cases cs with
  | nil => rfl
  | cons c cs =>
    simp only [linksOf, c.toLink_keepLast, linksOf_keepLast cs, map_bind, map_pure, bind_map_left,
      List.map_cons]
termination_by structural cs

theorem CatchClause.toCatches_keepLast (c : CatchClause) :
    c.toCatches ⟨on, .keepLast⟩ =
      Catch.allMap id lastDeclared <$> c.toCatches ⟨on, .keepAll⟩ := by
  obtain ⟨extent, types, body⟩ := c
  simp only [CatchClause.toCatches, body.toBlock_keepLast, map_bind, map_pure, bind_map_left,
    allMap_catchesOf]
termination_by structural c

theorem catchesOfClauses_keepLast (cs : List CatchClause) :
    catchesOfClauses ⟨on, .keepLast⟩ cs =
      Catch.allMap id lastDeclared <$> catchesOfClauses ⟨on, .keepAll⟩ cs := by
  cases cs with
  | nil => rfl
  | cons c cs =>
    simp only [catchesOfClauses, c.toCatches_keepLast, catchesOfClauses_keepLast cs, map_bind,
      map_pure, bind_map_left, Catch.allMap_append]
termination_by structural cs

end

/-- With the last declarations kept a tree is read as with all of them, or not read for the same
reason, and each method has the last ones of its parameters. The parameters of a method are those
of a function of the tree, its own before those of its body. -/
theorem Ast.toReading_keepLast (on : OnUnsupported) (root : Ast) :
    root.toReading ⟨on, .keepLast⟩ =
        (root.toReading ⟨on, .keepAll⟩).map
          (fun r => ⟨r.node.map id lastDeclared, r.diagnostics⟩) ∧
      (∀ r, root.toReading ⟨on, .keepAll⟩ = .ok r → ∀ name ps,
        .method name ps ∈ r.node.mentions → DeclaredAmong (root.nodes .statement) name ps) ∧
      ∀ r, root.toReading ⟨on, .keepLast⟩ = .ok r → ∀ name ps,
        .method name ps ∈ r.node.mentions → ∃ declared,
          DeclaredAmong (root.nodes .statement) name declared ∧ ps = lastDeclared declared ∧
          DistinctNames ps ∧ (∀ p ∈ declared, ∃ q ∈ ps, Text.sameName p.name q.name) ∧
          ∀ q ∈ ps, ∃ before after, declared = before ++ q :: after ∧
            ∀ p ∈ after, ¬ Text.sameName q.name p.name := by
  refine ⟨?_, ?_, ?_⟩
  · unfold toReading
    rw [root.toStmt_keepLast]
    match root.toStmt ⟨on, .keepAll⟩ with
    | .error u => rfl
    | .ok (s, ds) =>
      change Except.ok (⟨.stmt (s.map id lastDeclared), ds ++ []⟩ : Reading) = .ok _
      rw [List.append_nil]
      rfl
  · intro r h name ps hm
    obtain ⟨declared, hd, rfl⟩ := methods_of_toReading h name ps hm
    exact hd
  · intro r h name ps hm
    obtain ⟨declared, hd, rfl⟩ := methods_of_toReading h name ps hm
    rw [settleDuplicates_keepLast]
    exact ⟨declared, hd, rfl, distinctNames_lastDeclared declared,
      fun p hp => exists_mem_lastDeclared hp, fun q hq => last_of_mem_lastDeclared hq⟩

end Host

end Interlingua
