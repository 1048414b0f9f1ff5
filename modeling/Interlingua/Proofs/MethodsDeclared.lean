import Interlingua.Proofs.Supported
import Interlingua.Proofs.MentionsKept

namespace Interlingua

namespace Host

open Recorded

theorem body_of_mem_catchesOf {types : List String} {body : List Stmt} {c : Catch}
    (h : c ∈ catchesOf types body) : c.body = body := by
  cases types with
  | nil =>
    obtain rfl := List.mem_singleton.mp h
    rfl
  | cons t ts =>
    obtain ⟨name, -, rfl⟩ := List.mem_map.mp h
    rfl

/-- A function among the nodes declares these parameters, its own before those of its body. -/
def DeclaredAmong (xs : List Placed) (name : String) (declared : List Parameter) : Prop :=
  ∃ place extent own body, ⟨place, ⟨extent, .function name own body⟩⟩ ∈ xs ∧
    declared = (own ++ body.bodyParameters).map (·.toParameter)

/-- The methods among the mentions are functions among the nodes, with what is left of their
parameters. -/
def MethodsFrom (policy : ReadPolicy) (xs : List Placed) (ms : List Mention) : Prop :=
  ∀ name ps, .method name ps ∈ ms →
    ∃ declared, DeclaredAmong xs name declared ∧ ps = settleDuplicates policy declared

namespace MethodsFrom

variable {policy : ReadPolicy} {xs : List Placed} {ms ns : List Mention}

theorem nil : MethodsFrom policy xs [] := nofun

theorem append (hm : MethodsFrom policy xs ms) (hn : MethodsFrom policy xs ns) :
    MethodsFrom policy xs (ms ++ ns) := by
  intro name ps h
  obtain h | h := List.mem_append.mp h
  · exact hm name ps h
  · exact hn name ps h

theorem expr (e : Expr) : MethodsFrom policy xs e.mentions :=
  fun name ps h => absurd h (e.method_notMem_mentions name ps)

theorem optExpr (e : Option Expr) : MethodsFrom policy xs (Expr.optMentions e) :=
  fun name ps h => absurd h (Expr.method_notMem_optMentions name ps e)

theorem text {m : Mention} (hm : ∀ name ps, m ≠ .method name ps) (h : MethodsFrom policy xs ms) :
    MethodsFrom policy xs (m :: ms) := by
  intro name ps hmem
  obtain rfl | hmem := List.mem_cons.mp hmem
  · exact absurd rfl (hm name ps)
  · exact h name ps hmem

theorem signature {s : Signature}
    (h : ∃ declared, DeclaredAmong xs s.name declared ∧
      s.parameters = settleDuplicates policy declared) :
    MethodsFrom policy xs s.mentions := by
  intro name ps hm
  simp only [Signature.mentions, Parameter.mentions, List.mem_cons, List.mem_append, List.mem_map,
    List.mem_flatMap, List.not_mem_nil, Mention.method.injEq, reduceCtorEq, and_false,
    exists_false, or_false] at hm
  obtain ⟨rfl, rfl⟩ := hm
  exact h

theorem catchesOf (types : List String) {body : List Stmt}
    (h : MethodsFrom policy xs (Stmt.allMentions body)) :
    MethodsFrom policy xs (Catch.allMentions (catchesOf types body)) := by
  intro name ps hm
  rw [Catch.allMentions_eq] at hm
  obtain ⟨⟨typeName, block⟩, hc, hblock⟩ := List.mem_flatMap.mp hm
  obtain rfl : block = body := body_of_mem_catchesOf hc
  obtain htype | hblock := List.mem_append.mp hblock
  · simp at htype
  · exact h name ps hblock

end MethodsFrom

variable {policy : ReadPolicy} {xs : List Placed}

theorem noteParamBlock_methods (xs : List Placed) (extent : Extent)
    (block : Option (List ParamDecl)) :
    Yields (noteParamBlock policy extent block) fun noted _ =>
      MethodsFrom policy xs (Stmt.allMentions noted) := by
  match block with
  | none | some [] => exact .pure .nil
  | some (_ :: _) => exact .of_bind fun e => .pure (.append (.expr e) .nil)

mutual

theorem Ast.toStmt_methods (a : Ast) (h : a.nodes .statement ⊆ xs) :
    Yields (a.toStmt policy) fun s _ => MethodsFrom policy xs s.mentions := by
  obtain ⟨extent, kind⟩ := a
  obtain ⟨hown, hinner⟩ := List.cons_subset.mp h
  exact kind.toStmt_methods hown hinner
termination_by structural a

theorem Kind.toStmt_methods {extent : Extent} {place : Place} (k : Kind)
    (hown : ⟨place, ⟨extent, k⟩⟩ ∈ xs) (h : k.inner ⊆ xs) :
    Yields (k.toStmt policy extent) fun s _ => MethodsFrom policy xs s.mentions := by
  cases k with
  | scriptBlock block statements =>
    refine .bind (noteParamBlock_methods xs extent block) fun noted _ hn => ?_
    refine .bind (stmtsOf_methods statements h) fun ss _ hs => .pure ?_
    rw [Stmt.mentions, Stmt.allMentions_append]
    exact .append hn hs
  | statementBlock statements =>
    refine .bind (stmtsOf_methods statements h) fun ss _ hs => .pure ?_
    rwa [mentions_collapse]
  | assignment left operator right =>
    simp only [Kind.toStmt]
    cases left.declaration? operator with
    | none => exact .of_bind fun e => .pure (.expr e)
    | some declared => exact .of_bind fun e => .pure (.text nofun (.text nofun (.expr e)))
  | ifStatement clauses elseClause =>
    match clauses with
    | [] => exact .of_bind fun e => .pure (.expr e)
    | first :: rest =>
      obtain ⟨hc, he⟩ := List.append_subset.mp h
      obtain ⟨hf, hr⟩ := List.append_subset.mp hc
      refine .bind (first.toLink_methods hf) fun first _ hfirst => ?_
      refine .bind (linksOf_methods rest hr) fun links _ hlinks => ?_
      refine .bind (optBlockOf_methods elseClause he) fun final _ hfinal => .pure ?_
      rw [Clauses.mentions_link, List.flatMap_cons]
      exact .append (.append hfirst hlinks) hfinal
  | whileStatement condition body =>
    obtain ⟨_, hb⟩ := List.append_subset.mp h
    refine .of_bind fun condition => ?_
    refine .bind (body.toStmt_methods hb) fun body _ hb => .pure ?_
    exact .append (.expr condition) hb
  | forStatement initializer condition step body =>
    obtain ⟨hi, h⟩ := List.append_subset.mp h
    obtain ⟨_, h⟩ := List.append_subset.mp h
    obtain ⟨_, hb⟩ := List.append_subset.mp h
    refine .bind (optStmtOf_methods initializer hi) fun initializer _ hi => ?_
    refine .of_bind fun condition => .of_bind fun step => ?_
    refine .bind (body.toStmt_methods hb) fun body _ hb => .pure ?_
    exact .append hi (.append (.optExpr condition) (.append (.optExpr step) hb))
  | forEachStatement item condition body =>
    obtain ⟨_, h⟩ := List.append_subset.mp h
    obtain ⟨_, hb⟩ := List.append_subset.mp h
    obtain ⟨place, item⟩ := item
    cases item with
    | var path =>
      refine .of_bind fun iterable => ?_
      refine .bind (body.toStmt_methods hb) fun body _ hb => .pure ?_
      exact .text nofun (.append (.expr iterable) hb)
    | _ => exact .of_bind fun e => .pure (.expr e)
  | breakStatement | continueStatement => exact .pure .nil
  | returnStatement pipeline => exact .of_bind fun e => .pure (.optExpr e)
  | tryStatement body catches final =>
    obtain ⟨hb, h⟩ := List.append_subset.mp h
    obtain ⟨hc, hf⟩ := List.append_subset.mp h
    refine .bind (body.toBlock_methods hb) fun body _ hb => ?_
    refine .bind (catchesOfClauses_methods catches hc) fun catches _ hc => ?_
    refine .bind (optBlockOf_methods final hf) fun final _ hf => .pure ?_
    exact .append hb (.append hc hf)
  | function name parameters body =>
    refine .bind (body.toBlock_methods h) fun converted _ hb => .pure (.append ?_ hb)
    exact .signature ⟨_, ⟨place, extent, parameters, body, hown, rfl⟩, rfl⟩
  | _ => exact .of_bind fun e => .pure (.expr e)
termination_by structural k

theorem stmtsOf_methods (as : List Ast) (h : Ast.allNodes .statement as ⊆ xs) :
    Yields (stmtsOf policy as) fun ss _ => MethodsFrom policy xs (Stmt.allMentions ss) := by
  cases as with
  | nil => exact .pure .nil
  | cons a as =>
    obtain ⟨ha, has⟩ := List.append_subset.mp h
    refine .bind (a.toStmt_methods ha) fun s _ hs => ?_
    exact .bind (stmtsOf_methods as has) fun ss _ hss => .pure (.append hs hss)
termination_by structural as

theorem optStmtOf_methods (a : Option Ast) (h : Ast.optNodes .statement a ⊆ xs) :
    Yields (optStmtOf policy a) fun s _ => MethodsFrom policy xs (Stmt.optMentions s) := by
  cases a with
  | none => exact .pure .nil
  | some a => exact .bind (a.toStmt_methods h) fun s _ hs => .pure hs
termination_by structural a

theorem Ast.toBlock_methods (a : Ast) (h : a.nodes .block ⊆ xs) :
    Yields (a.toBlock policy) fun ss _ => MethodsFrom policy xs (Stmt.allMentions ss) := by
  obtain ⟨extent, kind⟩ := a
  obtain ⟨hown, hinner⟩ := List.cons_subset.mp h
  have hk := kind.toStmt_methods hown hinner
  cases kind with
  | statementBlock statements => exact stmtsOf_methods statements hinner
  | scriptBlock block statements => exact stmtsOf_methods statements hinner
  | _ => exact .bind hk fun s _ hs => .pure (by rwa [Stmt.allMentions_statements])
termination_by structural a

theorem optBlockOf_methods (a : Option Ast) (h : Ast.optNodes .block a ⊆ xs) :
    Yields (optBlockOf policy a) fun b _ => MethodsFrom policy xs (Stmt.optAllMentions b) := by
  cases a with
  | none => exact .pure .nil
  | some a => exact .bind (a.toBlock_methods h) fun b _ hb => .pure hb
termination_by structural a

theorem IfClause.toLink_methods (c : IfClause) (h : c.nodes ⊆ xs) :
    Yields (c.toLink policy) fun l _ => MethodsFrom policy xs l.mentions := by
  obtain ⟨condition, body⟩ := c
  obtain ⟨_, hb⟩ := List.append_subset.mp h
  refine .of_bind fun condition => ?_
  exact .bind (body.toStmt_methods hb) fun body _ hb => .pure (.append (.expr condition) hb)
termination_by structural c

theorem linksOf_methods (cs : List IfClause) (h : IfClause.allNodes cs ⊆ xs) :
    Yields (linksOf policy cs) fun ls _ => MethodsFrom policy xs (ls.flatMap Link.mentions) := by
  cases cs with
  | nil => exact .pure .nil
  | cons c cs =>
    obtain ⟨hc, hcs⟩ := List.append_subset.mp h
    refine .bind (c.toLink_methods hc) fun link _ hl => ?_
    refine .bind (linksOf_methods cs hcs) fun links _ hls => .pure ?_
    rw [List.flatMap_cons]
    exact .append hl hls
termination_by structural cs

theorem CatchClause.toCatches_methods (c : CatchClause) (h : c.nodes ⊆ xs) :
    Yields (c.toCatches policy) fun cs _ => MethodsFrom policy xs (Catch.allMentions cs) := by
  obtain ⟨extent, types, body⟩ := c
  exact .bind (body.toBlock_methods h) fun body _ hb => .pure (.catchesOf types hb)
termination_by structural c

theorem catchesOfClauses_methods (cs : List CatchClause) (h : CatchClause.allNodes cs ⊆ xs) :
    Yields (catchesOfClauses policy cs) fun ds _ =>
      MethodsFrom policy xs (Catch.allMentions ds) := by
  cases cs with
  | nil => exact .pure .nil
  | cons c cs =>
    obtain ⟨hc, hcs⟩ := List.append_subset.mp h
    refine .bind (c.toCatches_methods hc) fun first _ hf => ?_
    refine .bind (catchesOfClauses_methods cs hcs) fun rest _ hr => .pure ?_
    rw [Catch.allMentions_append]
    exact .append hf hr
termination_by structural cs

end

/-- The methods of a program tree are functions of the tree it is read from. -/
theorem Ast.methods_of_toReading {root : Ast} {r : Reading} (h : root.toReading policy = .ok r) :
    MethodsFrom policy (root.nodes .statement) r.node.mentions := by
  unfold toReading at h
  split at h
  · next s ds hs =>
    cases h
    exact root.toStmt_methods (List.Subset.refl _) s ds hs
  · cases h

end Host

end Interlingua
