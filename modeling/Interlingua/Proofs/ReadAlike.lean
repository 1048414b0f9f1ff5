import Mathlib.Logic.Basic
import Interlingua.Proofs.Literals
import Interlingua.Proofs.Recording
import Interlingua.Proofs.Relabel

namespace Interlingua

def Unsupported.moved (place : Extent → Extent) (u : Unsupported) : Unsupported :=
  { u with extent := place u.extent }

def Diagnostic.moved (place : Extent → Extent) : Diagnostic → Diagnostic
  | .unsupported u => .unsupported (u.moved place)
  | .unknownOperator token extent => .unknownOperator token (place extent)

namespace Recorded

variable {α β γ δ : Type} {place : Extent → Extent}

/-- The second reading ends as the first, with what it reports moved, and `view` does not tell the
results apart. -/
inductive Alike (place : Extent → Extent) (view : α → γ) : Recorded α → Recorded α → Prop
  | ok {a b : α} {ds : List Diagnostic} :
    view a = view b → Alike place view (.ok (a, ds)) (.ok (b, ds.map (·.moved place)))
  | error (u : Unsupported) : Alike place view (.error u) (.error (u.moved place))

namespace Alike

variable {view : α → γ} {next : β → δ}

theorem pure {a b : α} (h : view a = view b) : Alike place view (Pure.pure a) (Pure.pure b) := .ok h

theorem bind {x y : Recorded α} {f g : α → Recorded β} (h : Alike place view x y)
    (hfg : ∀ a b, view a = view b → Alike place next (f a) (g b)) :
    Alike place next (x >>= f) (y >>= g) := by
  cases h with
  | error u => exact .error u
  | @ok a b ds hab =>
    generalize hx : f a = x, hy : g b = y
    have h := hfg a b hab
    rw [hx, hy] at h
    cases h with
    | ok h =>
      rw [bind_ok hx, bind_ok hy, ← List.map_append]
      exact .ok h
    | error u =>
      rw [bind_ok_error hx, bind_ok_error hy]
      exact .error u

end Alike

end Recorded

namespace Host

open Recorded

/-- The change of labels moves every node by `place` and gives every token one for the same
operator; `view` does not tell the literals apart that stand in for constructs. -/
structure Relabeling.Unseen (f : Relabeling) (policy : ReadPolicy) (place : Extent → Extent)
    (view : String → String) : Prop where
  node : ∀ kind extent, f.node kind extent = place extent
  binary : ∀ token, Token.binary (f.binary token) = Token.binary token
  binary_unknown : ∀ token, Token.binary token = .unknown → f.binary token = token
  unary : ∀ token, Token.unary (f.unary token) = Token.unary token
  unary_unknown : ∀ token, (Token.unary token).1 = .unknown → f.unary token = token
  standIn : policy.onUnsupported = .standIn → ∀ kind extent,
    view (if extent.text = "" then kind else extent.text) =
      view (if (place extent).text = "" then kind else (place extent).text)

variable {f : Relabeling} {policy : ReadPolicy} {place : Extent → Extent} {view : String → String}

theorem Ast.declaration?_relabel (a : Ast) (operator : String) :
    (a.relabel f).declaration? operator = a.declaration? operator := by
  obtain ⟨extent, kind⟩ := a
  cases kind with
  | convert typeName child =>
    obtain ⟨extent, kind⟩ := child
    cases kind <;> rfl
  | _ => rfl

theorem map_toParameter_relabel (ps : List ParamDecl) :
    (ps.map (ParamDecl.relabel f)).map ParamDecl.toParameter = ps.map ParamDecl.toParameter := by
  rw [List.map_map]
  rfl

theorem Ast.toParameter_bodyParameters_relabel (a : Ast) :
    (a.relabel f).bodyParameters.map ParamDecl.toParameter =
      a.bodyParameters.map ParamDecl.toParameter := by
  obtain ⟨extent, kind⟩ := a
  cases kind with
  | scriptBlock block statements =>
    cases block with
    | none => rfl
    | some ps => exact map_toParameter_relabel ps
  | _ => rfl

theorem noteOperator_alike {token token' : String} {known : Bool}
    (h : known = false → token' = token) (extent : Extent) :
    Alike place id (noteOperator known token extent)
      (noteOperator known token' (place extent)) := by
  cases known with
  | true => exact .pure rfl
  | false =>
    rw [h rfl]
    exact .ok rfl

namespace Relabeling.Unseen

variable (h : f.Unseen policy place view)

include h

theorem unsupported (kind : String) (extent : Extent) :
    Alike place (Expr.mapLiterals view) (unsupported policy kind extent)
      (unsupported policy kind (place extent)) := by
  unfold Recorded.unsupported
  split
  · exact .error ⟨kind, extent⟩
  · next hpolicy => exact .ok (congrArg Expr.literal (h.standIn hpolicy kind extent))

theorem noteParamBlock (extent : Extent) (block : Option (List ParamDecl)) :
    Alike place (Stmt.allMap (Expr.mapLiterals view) id) (noteParamBlock policy extent block)
      (noteParamBlock policy (place extent) (block.map (List.map (ParamDecl.relabel f)))) := by
  match block with
  | none | some [] => exact .pure rfl
  | some (_ :: _) =>
    refine .bind (h.unsupported _ extent) fun e e' he => .pure ?_
    simp only [Stmt.allMap, Stmt.map, he]

end Relabeling.Unseen

mutual

theorem Ast.toExpr_alike (h : f.Unseen policy place view) (a : Ast) :
    Alike place (Expr.mapLiterals view) (a.toExpr policy) ((a.relabel f).toExpr policy) := by
  obtain ⟨extent, kind⟩ := a
  rw [Ast.relabel, h.node]
  exact kind.toExpr_alike h extent
termination_by structural a

theorem Kind.toExpr_alike (h : f.Unseen policy place view) (extent : Extent) (k : Kind) :
    Alike place (Expr.mapLiterals view) (k.toExpr policy extent)
      ((k.relabel f).toExpr policy (place extent)) := by
  cases k with
  | pipeline elements =>
    match elements with
    | [element] => exact element.toExpr_alike h
    | [] | _ :: _ :: _ => exact h.unsupported _ extent
  | commandExpression expression => exact expression.toExpr_alike h
  | command elements =>
    match elements with
    | [] => exact h.unsupported _ extent
    | head :: rest =>
      refine .bind (head.toCallee_alike h) fun callee callee' hc => ?_
      refine .bind (argumentsOf_alike h rest) fun arguments arguments' ha => .pure ?_
      rw [← commandExpr_mapLiterals, ← commandExpr_mapLiterals, ← attachValues_mapLiterals,
        ← attachValues_mapLiterals, hc, ha]
  | assignment left operator right =>
    refine .bind (left.toExpr_alike h) fun target target' ht => ?_
    by_cases ho : operator = "Equals"
    · simp only [ho, if_true]
      refine .bind (right.toExpr_alike h) fun value value' hv => .pure ?_
      simp only [Expr.mapLiterals, ht, hv]
    · simp only [ho, if_false]
      refine .bind (noteOperator_alike (fun _ => rfl) extent) fun _ _ _ => ?_
      refine .bind (right.toExpr_alike h) fun value value' hv => .pure ?_
      simp only [Expr.mapLiterals, ht, hv]
  | binary left operator right =>
    simp only [Kind.relabel, Kind.toExpr, h.binary]
    refine .bind (left.toExpr_alike h) fun l l' hl => ?_
    have hunknown := h.binary_unknown operator
    refine .bind (noteOperator_alike (by simpa using hunknown) extent) fun _ _ _ => ?_
    refine .bind (right.toExpr_alike h) fun r r' hr => .pure ?_
    simp only [Expr.mapLiterals, hl, hr]
  | unary token child =>
    simp only [Kind.relabel, Kind.toExpr, h.unary]
    refine .bind (noteOperator_alike (by simpa using h.unary_unknown token) extent) fun _ _ _ => ?_
    refine .bind (child.toExpr_alike h) fun e e' he => ?_
    cases (Token.unary token).2 <;> exact .pure (by simp only [Expr.mapLiterals, he])
  | constant value | stringConstant value | expandableString value | var value
  | typeExpression value => exact .pure rfl
  | convert typeName child =>
    exact .bind (child.toExpr_alike h) fun e e' he => .pure (by simp only [Expr.mapLiterals, he])
  | index target index =>
    refine .bind (target.toExpr_alike h) fun t t' ht => ?_
    refine .bind (index.toExpr_alike h) fun i i' hi => .pure ?_
    simp [Expr.indexed, Expr.mapLiterals, ht, hi]
  | invokeMember expression member arguments isStatic =>
    refine .bind (expression.toExpr_alike h) fun t t' ht => ?_
    refine .bind (exprsOf_alike h arguments) fun es es' hes => .pure ?_
    rw [← Expr.call_positional_mapLiterals, ← Expr.call_positional_mapLiterals, hes]
    simp only [Expr.mapLiterals, ht]
  | member expression member isStatic =>
    refine .bind (expression.toExpr_alike h) fun e e' he => .pure ?_
    simp only [Expr.mapLiterals, he]
  | paren pipeline =>
    exact .bind (pipeline.toExpr_alike h) fun e e' he => .pure (by simp only [Expr.mapLiterals, he])
  | subExpression statements =>
    match statements with
    | [statement] =>
      refine .bind (statement.toExpr_alike h) fun e e' he => .pure ?_
      simp only [Expr.mapLiterals, he]
    | [] | _ :: _ :: _ => exact h.unsupported _ extent
  | arrayLiteral elements =>
    refine .bind (exprsOf_alike h elements) fun es es' hes => .pure ?_
    simp [Expr.mapLiterals, hes]
  | arrayExpression statements =>
    refine .bind (exprsOf_alike h statements) fun es es' hes => .pure ?_
    simp [Expr.mapLiterals, ← flatten_mapLiterals, hes]
  | _ => exact h.unsupported _ extent
termination_by structural k

theorem exprsOf_alike (h : f.Unseen policy place view) (as : List Ast) :
    Alike place (List.map (Expr.mapLiterals view)) (exprsOf policy as)
      (exprsOf policy (Ast.allRelabel f as)) := by
  cases as with
  | nil => exact .pure rfl
  | cons a as =>
    refine .bind (a.toExpr_alike h) fun e e' he => ?_
    refine .bind (exprsOf_alike h as) fun es es' hes => .pure ?_
    rw [List.map_cons, List.map_cons, he, hes]
termination_by structural as

theorem optExprOf_alike (h : f.Unseen policy place view) (a : Option Ast) :
    Alike place (Option.map (Expr.mapLiterals view)) (optExprOf policy a)
      (optExprOf policy (Ast.optRelabel f a)) := by
  cases a with
  | none => exact .pure rfl
  | some a => exact .bind (a.toExpr_alike h) fun e e' he => .pure (congrArg some he)
termination_by structural a

theorem Ast.toCallee_alike (h : f.Unseen policy place view) (a : Ast) :
    Alike place (Expr.mapLiterals view) (a.toCallee policy) ((a.relabel f).toCallee policy) := by
  obtain ⟨extent, kind⟩ := a
  have hk := kind.toExpr_alike h extent
  rw [Ast.relabel, h.node]
  cases kind with
  | stringConstant name => exact .pure rfl
  | _ => exact hk
termination_by structural a

theorem Ast.toArgument_alike (h : f.Unseen policy place view) (a : Ast) :
    Alike place (Argument.mapLiterals view) (a.toArgument policy)
      ((a.relabel f).toArgument policy) := by
  obtain ⟨extent, kind⟩ := a
  have hk := kind.toExpr_alike h extent
  rw [Ast.relabel, h.node]
  cases kind with
  | commandParameter name argument =>
    refine .bind (optExprOf_alike h argument) fun value value' hv => .pure ?_
    simp only [Argument.mapLiterals, Expr.optMapLiterals_eq, hv]
  | _ => exact .bind hk fun e e' he => .pure (congrArg Argument.positional he)
termination_by structural a

theorem argumentsOf_alike (h : f.Unseen policy place view) (as : List Ast) :
    Alike place (List.map (Argument.mapLiterals view)) (argumentsOf policy as)
      (argumentsOf policy (Ast.allRelabel f as)) := by
  cases as with
  | nil => exact .pure rfl
  | cons a as =>
    refine .bind (a.toArgument_alike h) fun x x' hx => ?_
    refine .bind (argumentsOf_alike h as) fun xs xs' hxs => .pure ?_
    rw [List.map_cons, List.map_cons, hx, hxs]
termination_by structural as

end

mutual

theorem Ast.toStmt_alike (h : f.Unseen policy place view) (a : Ast) :
    Alike place (Stmt.mapLiterals view) (a.toStmt policy) ((a.relabel f).toStmt policy) := by
  obtain ⟨extent, kind⟩ := a
  rw [Ast.relabel, h.node]
  exact kind.toStmt_alike h extent
termination_by structural a

theorem Kind.toStmt_alike (h : f.Unseen policy place view) (extent : Extent) (k : Kind) :
    Alike place (Stmt.mapLiterals view) (k.toStmt policy extent)
      ((k.relabel f).toStmt policy (place extent)) := by
  have alone := k.toExpr_alike h extent
  cases k with
  | scriptBlock block statements =>
    refine .bind (h.noteParamBlock extent block) fun noted noted' hn => ?_
    refine .bind (stmtsOf_alike h statements) fun ss ss' hs => .pure ?_
    simp only [Stmt.mapLiterals, Stmt.map, Stmt.allMap_append, hn, hs]
  | statementBlock statements =>
    refine .bind (stmtsOf_alike h statements) fun ss ss' hs => .pure ?_
    simp only [Stmt.mapLiterals, map_collapse, hs]
  | assignment left operator right =>
    simp only [Kind.relabel, Kind.toStmt, left.declaration?_relabel]
    cases left.declaration? operator with
    | none => exact .bind alone fun e e' he => .pure (congrArg Stmt.expr he)
    | some declared =>
      exact .bind (right.toExpr_alike h) fun e e' he => .pure (congrArg (Stmt.declare _ _) he)
  | ifStatement clauses elseClause =>
    match clauses with
    | [] => exact .bind alone fun e e' he => .pure (congrArg Stmt.expr he)
    | first :: rest =>
      refine .bind (first.toLink_alike h) fun l l' hl => ?_
      refine .bind (linksOf_alike h rest) fun ls ls' hls => ?_
      refine .bind (optBlockOf_alike h elseClause) fun b b' hb => .pure ?_
      simp only [Stmt.mapLiterals, Clauses.map_link, hl, hls, hb]
  | whileStatement condition body =>
    refine .bind (condition.toExpr_alike h) fun c c' hc => ?_
    refine .bind (body.toStmt_alike h) fun b b' hb => .pure ?_
    exact congrArg₂ Stmt.whileLoop hc hb
  | forStatement initializer condition step body =>
    refine .bind (optStmtOf_alike h initializer) fun i i' hi => ?_
    refine .bind (optExprOf_alike h condition) fun c c' hc => ?_
    refine .bind (optExprOf_alike h step) fun s s' hs => ?_
    refine .bind (body.toStmt_alike h) fun b b' hb => .pure ?_
    rw [Stmt.mapLiterals] at hb
    simp only [Stmt.mapLiterals, Stmt.map, hi, hc, hs, hb]
  | forEachStatement item condition body =>
    obtain ⟨itemExtent, item⟩ := item
    cases item with
    | var path =>
      refine .bind (condition.toExpr_alike h) fun c c' hc => ?_
      refine .bind (body.toStmt_alike h) fun b b' hb => .pure ?_
      exact congrArg₂ (Stmt.forEach path) hc hb
    | _ =>
      simp only [Kind.relabel, Ast.relabel, h.node]
      exact .bind (h.unsupported _ itemExtent) fun e e' he => .pure (congrArg Stmt.expr he)
  | breakStatement | continueStatement => exact .pure rfl
  | returnStatement pipeline =>
    exact .bind (optExprOf_alike h pipeline) fun e e' he => .pure (congrArg Stmt.ret he)
  | tryStatement body catches final =>
    refine .bind (body.toBlock_alike h) fun b b' hb => ?_
    refine .bind (catchesOfClauses_alike h catches) fun cs cs' hc => ?_
    refine .bind (optBlockOf_alike h final) fun l l' hl => .pure ?_
    simp only [Stmt.mapLiterals, Stmt.map, hb, hc, hl]
  | function name parameters body =>
    simp only [Kind.relabel, Kind.toStmt, List.map_append, map_toParameter_relabel,
      Ast.toParameter_bodyParameters_relabel]
    exact .bind (body.toBlock_alike h) fun b b' hb => .pure (congrArg (Stmt.publicMethod _ _) hb)
  | _ => exact .bind alone fun e e' he => .pure (congrArg Stmt.expr he)
termination_by structural k

theorem stmtsOf_alike (h : f.Unseen policy place view) (as : List Ast) :
    Alike place (Stmt.allMap (Expr.mapLiterals view) id) (stmtsOf policy as)
      (stmtsOf policy (Ast.allRelabel f as)) := by
  cases as with
  | nil => exact .pure rfl
  | cons a as =>
    refine .bind (a.toStmt_alike h) fun s s' hs => ?_
    exact .bind (stmtsOf_alike h as) fun ss ss' hss => .pure (congrArg₂ List.cons hs hss)
termination_by structural as

theorem optStmtOf_alike (h : f.Unseen policy place view) (a : Option Ast) :
    Alike place (Stmt.optMap (Expr.mapLiterals view) id) (optStmtOf policy a)
      (optStmtOf policy (Ast.optRelabel f a)) := by
  cases a with
  | none => exact .pure rfl
  | some a => exact .bind (a.toStmt_alike h) fun s s' hs => .pure (congrArg some hs)
termination_by structural a

theorem Ast.toBlock_alike (h : f.Unseen policy place view) (a : Ast) :
    Alike place (Stmt.allMap (Expr.mapLiterals view) id) (a.toBlock policy)
      ((a.relabel f).toBlock policy) := by
  obtain ⟨extent, kind⟩ := a
  have alone := kind.toStmt_alike h extent
  rw [Ast.relabel, h.node]
  cases kind with
  | statementBlock statements => exact stmtsOf_alike h statements
  | scriptBlock block statements => exact stmtsOf_alike h statements
  | _ =>
    refine .bind alone fun s s' hs => .pure ?_
    rw [Stmt.allMap_statements, Stmt.allMap_statements]
    exact congrArg Stmt.statements hs
termination_by structural a

theorem optBlockOf_alike (h : f.Unseen policy place view) (a : Option Ast) :
    Alike place (Stmt.optAllMap (Expr.mapLiterals view) id) (optBlockOf policy a)
      (optBlockOf policy (Ast.optRelabel f a)) := by
  cases a with
  | none => exact .pure rfl
  | some a => exact .bind (a.toBlock_alike h) fun b b' hb => .pure (congrArg some hb)
termination_by structural a

theorem IfClause.toLink_alike (h : f.Unseen policy place view) (c : IfClause) :
    Alike place (Link.map (Expr.mapLiterals view) id) (c.toLink policy)
      ((c.relabel f).toLink policy) := by
  obtain ⟨condition, body⟩ := c
  refine .bind (condition.toExpr_alike h) fun c c' hc => ?_
  exact .bind (body.toStmt_alike h) fun b b' hb => .pure (congrArg₂ Link.mk hc hb)
termination_by structural c

theorem linksOf_alike (h : f.Unseen policy place view) (cs : List IfClause) :
    Alike place (List.map (Link.map (Expr.mapLiterals view) id)) (linksOf policy cs)
      (linksOf policy (IfClause.allRelabel f cs)) := by
  cases cs with
  | nil => exact .pure rfl
  | cons c cs =>
    refine .bind (c.toLink_alike h) fun l l' hl => ?_
    exact .bind (linksOf_alike h cs) fun ls ls' hls => .pure (congrArg₂ List.cons hl hls)
termination_by structural cs

theorem CatchClause.toCatches_alike (h : f.Unseen policy place view) (c : CatchClause) :
    Alike place (Catch.allMap (Expr.mapLiterals view) id) (c.toCatches policy)
      ((c.relabel f).toCatches policy) := by
  obtain ⟨extent, types, body⟩ := c
  refine .bind (body.toBlock_alike h) fun b b' hb => .pure ?_
  rw [allMap_catchesOf, allMap_catchesOf, hb]
termination_by structural c

theorem catchesOfClauses_alike (h : f.Unseen policy place view) (cs : List CatchClause) :
    Alike place (Catch.allMap (Expr.mapLiterals view) id) (catchesOfClauses policy cs)
      (catchesOfClauses policy (CatchClause.allRelabel f cs)) := by
  cases cs with
  | nil => exact .pure rfl
  | cons c cs =>
    refine .bind (c.toCatches_alike h) fun x x' hx => ?_
    refine .bind (catchesOfClauses_alike h cs) fun xs xs' hxs => .pure ?_
    rw [Catch.allMap_append, Catch.allMap_append, hx, hxs]
termination_by structural cs

end

end Host

end Interlingua
