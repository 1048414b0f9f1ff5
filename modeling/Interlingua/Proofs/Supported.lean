import Interlingua.Proofs.Recording

namespace Interlingua

namespace Recorded

variable {α β : Type}

def Succeeds (x : Recorded α) : Prop := ∃ a ds, x = .ok (a, ds)

theorem succeeds_pure (a : α) : Succeeds (pure a) := ⟨a, [], rfl⟩

/-- Two readings in a row succeed when both do, if what the second asks for does not depend on
the result of the first. -/
theorem succeeds_bind_iff {x : Recorded α} {f : α → Recorded β} {p q : Prop} (hx : Succeeds x ↔ p)
    (hf : ∀ a, Succeeds (f a) ↔ q) : Succeeds (x >>= f) ↔ p ∧ q := by
  constructor
  · rintro ⟨b, ds, hb⟩
    obtain ⟨a, first, second, ha, hfa, -⟩ := bind_eq_ok hb
    exact ⟨hx.mp ⟨a, first, ha⟩, (hf a).mp ⟨b, second, hfa⟩⟩
  · rintro ⟨hp, hq⟩
    obtain ⟨a, first, rfl⟩ := hx.mpr hp
    obtain ⟨b, second, hfa⟩ := (hf a).mpr hq
    exact ⟨b, first ++ second, bind_ok hfa⟩

theorem succeeds_map_iff {x : Recorded α} {f : α → β} {p : Prop} (hx : Succeeds x ↔ p) :
    Succeeds (x >>= fun a => pure (f a)) ↔ p := by
  have h := succeeds_bind_iff (q := True) hx fun a => iff_true_intro (succeeds_pure (f a))
  rwa [and_true] at h

theorem not_succeeds_unsupported (dup : OnDuplicate) (kind : String) (extent : Extent) :
    ¬ Succeeds (unsupported ⟨.stop, dup⟩ kind extent) := by
  rintro ⟨e, ds, h⟩
  cases h

end Recorded

namespace Host

open Recorded

/-- Where a node stands in its tree. -/
inductive Place where
  /-- Among statements, or as the body of a condition or a loop. -/
  | statement
  /-- As a body that is a block even when it holds a single statement. -/
  | block
  | value
  | element
deriving DecidableEq

def Place.isStatement : Place → Bool
  | statement | block => true
  | value | element => false

def Place.isElement : Place → Bool
  | element => true
  | _ => false

structure Placed where
  place : Place
  node : Ast

mutual

/-- A node that stands in that place, and all nodes below it. -/
def Ast.nodes (place : Place) : Ast → List Placed
  | ⟨extent, kind⟩ => ⟨place, ⟨extent, kind⟩⟩ :: kind.inner
termination_by structural a => a

def Kind.inner : Kind → List Placed
  | .scriptBlock _ children | .statementBlock children => Ast.allNodes .statement children
  | .pipeline children | .subExpression children | .arrayLiteral children
  | .arrayExpression children => Ast.allNodes .value children
  | .command [] => []
  | .command (head :: rest) => head.nodes .value ++ Ast.allNodes .element rest
  | .commandExpression child | .unary _ child | .convert _ child | .member child _ _
  | .paren child => child.nodes .value
  | .commandParameter _ argument => Ast.optNodes .value argument
  | .assignment left _ right | .binary left _ right => left.nodes .value ++ right.nodes .value
  | .ifStatement clauses elseClause => IfClause.allNodes clauses ++ Ast.optNodes .block elseClause
  | .whileStatement condition body | .doWhile condition body | .doUntil condition body =>
    condition.nodes .value ++ body.nodes .statement
  | .forStatement initializer condition step body =>
    Ast.optNodes .statement initializer ++ (Ast.optNodes .value condition ++
      (Ast.optNodes .value step ++ body.nodes .statement))
  | .forEachStatement item condition body =>
    item.nodes .value ++ (condition.nodes .value ++ body.nodes .statement)
  | .returnStatement pipeline | .throwStatement pipeline => Ast.optNodes .value pipeline
  | .tryStatement body catches final =>
    body.nodes .block ++ (CatchClause.allNodes catches ++ Ast.optNodes .block final)
  | .function _ _ body => body.nodes .block
  | .index target index => target.nodes .value ++ index.nodes .value
  | .invokeMember expression _ arguments _ =>
    expression.nodes .value ++ Ast.allNodes .value arguments
  | .constant _ | .stringConstant _ | .expandableString _ | .var _ | .typeExpression _
  | .breakStatement | .continueStatement | .parameter .. | .switchStatement | .hashtable
  | .scriptBlockExpression | .unknown => []
termination_by structural k => k

def Ast.optNodes (place : Place) : Option Ast → List Placed
  | none => []
  | some a => a.nodes place
termination_by structural a => a

def Ast.allNodes (place : Place) : List Ast → List Placed
  | [] => []
  | a :: as => a.nodes place ++ Ast.allNodes place as
termination_by structural as => as

def IfClause.nodes : IfClause → List Placed
  | ⟨condition, body⟩ => condition.nodes .value ++ body.nodes .statement
termination_by structural c => c

def IfClause.allNodes : List IfClause → List Placed
  | [] => []
  | c :: cs => c.nodes ++ IfClause.allNodes cs
termination_by structural cs => cs

def CatchClause.nodes : CatchClause → List Placed
  | ⟨_, _, body⟩ => body.nodes .block
termination_by structural c => c

def CatchClause.allNodes : List CatchClause → List Placed
  | [] => []
  | c :: cs => c.nodes ++ CatchClause.allNodes cs
termination_by structural cs => cs

end

/-- A node of this kind has a counterpart in that place. -/
def Kind.Supported (place : Place) : Kind → Prop
  | .doWhile .. | .doUntil .. | .switchStatement | .throwStatement _ | .hashtable
  | .scriptBlockExpression | .parameter .. | .unknown => False
  | .pipeline elements => elements.length = 1
  | .subExpression statements => statements.length = 1
  | .command elements =>
    ∃ head rest, elements = head :: rest ∧ ∀ name value, head.kind ≠ .commandParameter name value
  | .commandParameter .. => place.isElement
  | .ifStatement clauses _ => clauses ≠ [] ∧ place.isStatement
  | .forEachStatement item _ _ => (∃ path, item.kind = .var path) ∧ place.isStatement
  | .scriptBlock parameters _ =>
    -- The parameters of a function are those of the block that is its body.
    place.isStatement ∧ (place = .statement → parameters.getD [] = [])
  | .statementBlock _ | .whileStatement .. | .forStatement .. | .breakStatement
  | .continueStatement | .returnStatement _ | .tryStatement .. | .function .. => place.isStatement
  | _ => True

def Placed.Supported (x : Placed) : Prop := x.node.kind.Supported x.place

def AllSupported (nodes : List Placed) : Prop := ∀ x ∈ nodes, x.Supported

theorem allSupported_nil : AllSupported [] := by
  simp [AllSupported]

theorem allSupported_append {xs ys : List Placed} :
    AllSupported (xs ++ ys) ↔ AllSupported xs ∧ AllSupported ys :=
  List.forall_mem_append

theorem Ast.allSupported_nodes {place : Place} {extent : Extent} {kind : Kind} :
    AllSupported (Ast.nodes place ⟨extent, kind⟩) ↔
      kind.Supported place ∧ AllSupported kind.inner :=
  List.forall_mem_cons

theorem Ast.allNodes_singleton (place : Place) (a : Ast) :
    Ast.allNodes place [a] = a.nodes place :=
  List.append_nil _

theorem Kind.supported_element_iff {kind : Kind}
    (h : ∀ name value, kind ≠ .commandParameter name value) :
    kind.Supported .element ↔ kind.Supported .value := by
  cases kind with
  | commandParameter name value => exact absurd rfl (h name value)
  | scriptBlock parameters statements => simp [Supported, Place.isStatement]
  | _ => exact Iff.rfl

theorem Kind.Supported.ne_commandParameter {kind : Kind} (h : kind.Supported .value)
    (name : String) (value : Option Ast) : kind ≠ .commandParameter name value := by
  rintro rfl
  cases h

theorem noteParamBlock_succeeds_iff (dup : OnDuplicate) (extent : Extent)
    (parameters : Option (List ParamDecl)) :
    Succeeds (noteParamBlock ⟨.stop, dup⟩ extent parameters) ↔ parameters.getD [] = [] := by
  match parameters with
  | none | some [] => exact iff_of_true (succeeds_pure []) rfl
  | some (p :: ps) =>
    have h := not_succeeds_unsupported dup "ParamBlock" extent
    exact succeeds_map_iff (iff_of_false h (List.cons_ne_nil p ps))

theorem succeeds_note_iff {α : Type} (known : Bool) (token : String) (extent : Extent)
    {x : Recorded α} {p : Prop} (hx : Succeeds x ↔ p) :
    Succeeds (noteOperator known token extent >>= fun _ => x) ↔ p := by
  have hn : Succeeds (noteOperator known token extent) := by
    cases known with
    | true => exact succeeds_pure ()
    | false => exact ⟨(), _, rfl⟩
  exact (succeeds_bind_iff (iff_true_intro hn) fun _ => hx).trans (and_iff_right trivial)

mutual

theorem Ast.toExpr_succeeds_iff (dup : OnDuplicate) (a : Ast) :
    Succeeds (a.toExpr ⟨.stop, dup⟩) ↔ AllSupported (a.nodes .value) := by
  obtain ⟨extent, kind⟩ := a
  rw [Ast.allSupported_nodes]
  exact kind.toExpr_succeeds_iff dup extent
termination_by structural a

theorem Kind.toExpr_succeeds_iff (dup : OnDuplicate) (extent : Extent) (k : Kind) :
    Succeeds (k.toExpr ⟨.stop, dup⟩ extent) ↔ k.Supported .value ∧ AllSupported k.inner := by
  cases k with
  | pipeline elements =>
    match elements with
    | [element] =>
      have he := element.toExpr_succeeds_iff dup
      rw [← Ast.allNodes_singleton] at he
      exact he.trans (and_iff_right rfl).symm
    | [] | _ :: _ :: _ =>
      exact iff_of_false (not_succeeds_unsupported dup _ extent) (by simp [Kind.Supported])
  | commandExpression expression =>
    have he := expression.toExpr_succeeds_iff dup
    exact he.trans (and_iff_right trivial).symm
  | command elements =>
    match elements with
    | [] => exact iff_of_false (not_succeeds_unsupported dup _ extent) (by simp [Kind.Supported])
    | head :: rest =>
      have hh := head.toCallee_succeeds_iff dup
      have hr := argumentsOf_succeeds_iff dup rest
      have h := succeeds_bind_iff hh fun callee =>
        succeeds_map_iff (f := fun as => commandExpr ⟨callee, attachValues as⟩) hr
      rw [← allSupported_append] at h
      refine h.trans ⟨fun hs => ⟨⟨head, rest, rfl, ?_⟩, hs⟩, And.right⟩
      have hhead := (allSupported_append.mp hs).1
      obtain ⟨place, kind⟩ := head
      exact (Ast.allSupported_nodes.mp hhead).1.ne_commandParameter
  | assignment left operator right =>
    have hl := left.toExpr_succeeds_iff dup
    have hr := right.toExpr_succeeds_iff dup
    have h : Succeeds ((Kind.assignment left operator right).toExpr ⟨.stop, dup⟩ extent) ↔
        AllSupported (left.nodes .value) ∧ AllSupported (right.nodes .value) := by
      refine succeeds_bind_iff hl fun target => ?_
      by_cases ho : operator = "Equals"
      · simp only [ho, if_true]
        exact succeeds_map_iff hr
      · simp only [ho, if_false]
        exact succeeds_note_iff _ operator extent (succeeds_map_iff hr)
    exact (h.trans allSupported_append.symm).trans (and_iff_right trivial).symm
  | binary left operator right =>
    have hl := left.toExpr_succeeds_iff dup
    have hr := right.toExpr_succeeds_iff dup
    have h := succeeds_bind_iff hl fun l => succeeds_note_iff (Token.binary operator != .unknown)
      operator extent (succeeds_map_iff (f := Expr.binary l (Token.binary operator)) hr)
    exact (h.trans allSupported_append.symm).trans (and_iff_right trivial).symm
  | unary token child =>
    have hc := child.toExpr_succeeds_iff dup
    refine Iff.trans ?_ (and_iff_right trivial).symm
    simp only [Kind.toExpr]
    refine succeeds_note_iff _ token extent ?_
    cases (Token.unary token).2 <;> exact succeeds_map_iff hc
  | constant value | stringConstant value | expandableString value | var value
  | typeExpression value => exact iff_of_true (succeeds_pure _) ⟨trivial, allSupported_nil⟩
  | convert typeName child =>
    have hc := child.toExpr_succeeds_iff dup
    exact (succeeds_map_iff hc).trans (and_iff_right trivial).symm
  | index target index =>
    have ht := target.toExpr_succeeds_iff dup
    have hi := index.toExpr_succeeds_iff dup
    have h := succeeds_bind_iff ht fun t => succeeds_map_iff (f := t.indexed) hi
    exact (h.trans allSupported_append.symm).trans (and_iff_right trivial).symm
  | invokeMember expression member arguments isStatic =>
    have he := expression.toExpr_succeeds_iff dup
    have ha := exprsOf_succeeds_iff dup arguments
    have h := succeeds_bind_iff he fun target =>
      succeeds_map_iff (f := fun values =>
        Expr.call (.member target member isStatic) (values.map .positional)) ha
    exact (h.trans allSupported_append.symm).trans (and_iff_right trivial).symm
  | member expression member isStatic =>
    have he := expression.toExpr_succeeds_iff dup
    exact (succeeds_map_iff he).trans (and_iff_right trivial).symm
  | paren pipeline =>
    have hp := pipeline.toExpr_succeeds_iff dup
    exact (succeeds_map_iff hp).trans (and_iff_right trivial).symm
  | subExpression statements =>
    match statements with
    | [statement] =>
      have hs := statement.toExpr_succeeds_iff dup
      rw [← Ast.allNodes_singleton] at hs
      exact (succeeds_map_iff hs).trans (and_iff_right rfl).symm
    | [] | _ :: _ :: _ =>
      exact iff_of_false (not_succeeds_unsupported dup _ extent) (by simp [Kind.Supported])
  | arrayLiteral elements =>
    have he := exprsOf_succeeds_iff dup elements
    exact (succeeds_map_iff he).trans (and_iff_right trivial).symm
  | arrayExpression statements =>
    have hs := exprsOf_succeeds_iff dup statements
    exact (succeeds_map_iff hs).trans (and_iff_right trivial).symm
  | _ =>
    refine iff_of_false (not_succeeds_unsupported dup _ extent) ?_
    simp [Kind.Supported, Place.isStatement, Place.isElement]
termination_by structural k

theorem exprsOf_succeeds_iff (dup : OnDuplicate) (as : List Ast) :
    Succeeds (exprsOf ⟨.stop, dup⟩ as) ↔ AllSupported (Ast.allNodes .value as) := by
  cases as with
  | nil => exact iff_of_true (succeeds_pure []) allSupported_nil
  | cons a as =>
    have ha := a.toExpr_succeeds_iff dup
    have has := exprsOf_succeeds_iff dup as
    exact (succeeds_bind_iff ha fun e => succeeds_map_iff has).trans allSupported_append.symm
termination_by structural as

theorem optExprOf_succeeds_iff (dup : OnDuplicate) (a : Option Ast) :
    Succeeds (optExprOf ⟨.stop, dup⟩ a) ↔ AllSupported (Ast.optNodes .value a) := by
  cases a with
  | none => exact iff_of_true (succeeds_pure none) allSupported_nil
  | some a => exact succeeds_map_iff (a.toExpr_succeeds_iff dup)
termination_by structural a

theorem Ast.toCallee_succeeds_iff (dup : OnDuplicate) (a : Ast) :
    Succeeds (a.toCallee ⟨.stop, dup⟩) ↔ AllSupported (a.nodes .value) := by
  obtain ⟨extent, kind⟩ := a
  have hk := kind.toExpr_succeeds_iff dup extent
  rw [Ast.allSupported_nodes]
  cases kind with
  | stringConstant name => exact iff_of_true (succeeds_pure _) ⟨trivial, allSupported_nil⟩
  | _ => exact hk
termination_by structural a

theorem Ast.toArgument_succeeds_iff (dup : OnDuplicate) (a : Ast) :
    Succeeds (a.toArgument ⟨.stop, dup⟩) ↔ AllSupported (a.nodes .element) := by
  obtain ⟨extent, kind⟩ := a
  have hk := kind.toExpr_succeeds_iff dup extent
  rw [Ast.allSupported_nodes]
  cases kind with
  | commandParameter name argument =>
    have ha := optExprOf_succeeds_iff dup argument
    exact (succeeds_map_iff ha).trans (and_iff_right rfl).symm
  | _ =>
    rw [Kind.supported_element_iff (by simp)]
    exact succeeds_map_iff hk
termination_by structural a

theorem argumentsOf_succeeds_iff (dup : OnDuplicate) (as : List Ast) :
    Succeeds (argumentsOf ⟨.stop, dup⟩ as) ↔ AllSupported (Ast.allNodes .element as) := by
  cases as with
  | nil => exact iff_of_true (succeeds_pure []) allSupported_nil
  | cons a as =>
    have ha := a.toArgument_succeeds_iff dup
    have has := argumentsOf_succeeds_iff dup as
    exact (succeeds_bind_iff ha fun x => succeeds_map_iff has).trans allSupported_append.symm
termination_by structural as

end

theorem Ast.allSupported_of_declaration? {left : Ast} {operator : String}
    {declared : String × String} (h : left.declaration? operator = some declared) :
    AllSupported (left.nodes .value) := by
  obtain ⟨-, place, inner, rfl⟩ := Ast.eq_of_declaration? h
  refine allSupported_nodes.mpr ⟨trivial, ?_⟩
  exact allSupported_nodes.mpr ⟨trivial, allSupported_nil⟩

mutual

theorem Ast.toStmt_succeeds_iff (dup : OnDuplicate) (a : Ast) :
    Succeeds (a.toStmt ⟨.stop, dup⟩) ↔ AllSupported (a.nodes .statement) := by
  obtain ⟨extent, kind⟩ := a
  rw [Ast.allSupported_nodes]
  exact kind.toStmt_succeeds_iff dup extent
termination_by structural a

theorem Kind.toStmt_succeeds_iff (dup : OnDuplicate) (extent : Extent) (k : Kind) :
    Succeeds (k.toStmt ⟨.stop, dup⟩ extent) ↔ k.Supported .statement ∧ AllSupported k.inner := by
  cases k with
  | scriptBlock parameters statements =>
    have hp := noteParamBlock_succeeds_iff dup extent parameters
    have hs := stmtsOf_succeeds_iff dup statements
    have h := succeeds_bind_iff hp fun noted =>
      succeeds_map_iff (f := fun ss => Stmt.block (noted ++ ss)) hs
    have hk : (Kind.scriptBlock parameters statements).Supported .statement ↔
        parameters.getD [] = [] := by
      simp [Kind.Supported, Place.isStatement]
    rw [hk]
    exact h
  | statementBlock statements =>
    have hs := stmtsOf_succeeds_iff dup statements
    exact (succeeds_map_iff hs).trans (and_iff_right rfl).symm
  | assignment left operator right =>
    have h := (Kind.assignment left operator right).toExpr_succeeds_iff dup extent
    simp only [Kind.toStmt]
    cases hd : left.declaration? operator with
    | some declared =>
      -- The typed variable on the left is not converted, but nothing in it could end the reading.
      have hl : AllSupported (left.nodes .value) := Ast.allSupported_of_declaration? hd
      have hr := succeeds_map_iff (f := Stmt.declare declared.1 declared.2)
        (right.toExpr_succeeds_iff dup)
      refine hr.trans ?_
      exact (and_iff_right hl).symm.trans
        (allSupported_append.symm.trans (and_iff_right trivial).symm)
    | none => exact succeeds_map_iff h
  | ifStatement clauses elseClause =>
    match clauses with
    | [] =>
      have hu := not_succeeds_unsupported dup (Kind.ifStatement [] elseClause).name extent
      refine (succeeds_map_iff (iff_of_false hu id)).trans ?_
      exact iff_of_false id fun h => h.1.1 rfl
    | first :: rest =>
      have hf := first.toLink_succeeds_iff dup
      have hr := linksOf_succeeds_iff dup rest
      have he := optBlockOf_succeeds_iff dup elseClause
      have h := succeeds_bind_iff hf fun first => succeeds_bind_iff hr fun links =>
        succeeds_map_iff (f := fun final => (Clauses.link ⟨first, links, final⟩).toStmt) he
      rw [← allSupported_append, ← allSupported_append, ← List.append_assoc] at h
      exact h.trans (and_iff_right ⟨List.cons_ne_nil first rest, rfl⟩).symm
  | whileStatement condition body =>
    have hc := condition.toExpr_succeeds_iff dup
    have hb := body.toStmt_succeeds_iff dup
    have h := succeeds_bind_iff hc fun c => succeeds_map_iff (f := Stmt.whileLoop c) hb
    exact (h.trans allSupported_append.symm).trans (and_iff_right rfl).symm
  | forStatement initializer condition step body =>
    have hi := optStmtOf_succeeds_iff dup initializer
    have hc := optExprOf_succeeds_iff dup condition
    have hs := optExprOf_succeeds_iff dup step
    have hb := body.toStmt_succeeds_iff dup
    have h := succeeds_bind_iff hi fun i => succeeds_bind_iff hc fun c =>
      succeeds_bind_iff hs fun s => succeeds_map_iff (f := Stmt.forLoop i c s) hb
    rw [← allSupported_append, ← allSupported_append, ← allSupported_append] at h
    exact h.trans (and_iff_right rfl).symm
  | forEachStatement item condition body =>
    obtain ⟨place, item⟩ := item
    have hc := condition.toExpr_succeeds_iff dup
    have hb := body.toStmt_succeeds_iff dup
    cases item with
    | var path =>
      have h := succeeds_bind_iff hc fun c => succeeds_map_iff (f := Stmt.forEach path c) hb
      have hi : AllSupported (Ast.nodes .value ⟨place, .var path⟩) :=
        Ast.allSupported_nodes.mpr ⟨trivial, allSupported_nil⟩
      rw [← allSupported_append, ← and_iff_right (b := AllSupported _) hi,
        ← allSupported_append] at h
      exact h.trans (and_iff_right ⟨⟨path, rfl⟩, rfl⟩).symm
    | _ =>
      refine (succeeds_map_iff (iff_of_false (not_succeeds_unsupported dup _ place) id)).trans ?_
      exact iff_of_false id fun h => by simpa using h.1.1
  | breakStatement | continueStatement =>
    exact iff_of_true (succeeds_pure _) ⟨rfl, allSupported_nil⟩
  | returnStatement pipeline =>
    have hp := optExprOf_succeeds_iff dup pipeline
    exact (succeeds_map_iff hp).trans (and_iff_right rfl).symm
  | tryStatement body catches final =>
    have hb := body.toBlock_succeeds_iff dup
    have hc := catchesOfClauses_succeeds_iff dup catches
    have hf := optBlockOf_succeeds_iff dup final
    have h := succeeds_bind_iff hb fun b => succeeds_bind_iff hc fun cs =>
      succeeds_map_iff (f := Stmt.guarded b cs) hf
    rw [← allSupported_append, ← allSupported_append] at h
    exact h.trans (and_iff_right rfl).symm
  | function name parameters body =>
    have hb := body.toBlock_succeeds_iff dup
    exact (succeeds_map_iff hb).trans (and_iff_right rfl).symm
  | _ => exact succeeds_map_iff (Kind.toExpr_succeeds_iff dup extent _)
termination_by structural k

theorem stmtsOf_succeeds_iff (dup : OnDuplicate) (as : List Ast) :
    Succeeds (stmtsOf ⟨.stop, dup⟩ as) ↔ AllSupported (Ast.allNodes .statement as) := by
  cases as with
  | nil => exact iff_of_true (succeeds_pure []) allSupported_nil
  | cons a as =>
    have ha := a.toStmt_succeeds_iff dup
    have has := stmtsOf_succeeds_iff dup as
    exact (succeeds_bind_iff ha fun s => succeeds_map_iff has).trans allSupported_append.symm
termination_by structural as

theorem optStmtOf_succeeds_iff (dup : OnDuplicate) (a : Option Ast) :
    Succeeds (optStmtOf ⟨.stop, dup⟩ a) ↔ AllSupported (Ast.optNodes .statement a) := by
  cases a with
  | none => exact iff_of_true (succeeds_pure none) allSupported_nil
  | some a => exact succeeds_map_iff (a.toStmt_succeeds_iff dup)
termination_by structural a

theorem Ast.toBlock_succeeds_iff (dup : OnDuplicate) (a : Ast) :
    Succeeds (a.toBlock ⟨.stop, dup⟩) ↔ AllSupported (a.nodes .block) := by
  obtain ⟨extent, kind⟩ := a
  have hk := kind.toStmt_succeeds_iff dup extent
  rw [Ast.allSupported_nodes]
  cases kind with
  | statementBlock statements =>
    have hs := stmtsOf_succeeds_iff dup statements
    exact hs.trans (and_iff_right rfl).symm
  | scriptBlock parameters statements =>
    have hs := stmtsOf_succeeds_iff dup statements
    exact hs.trans (and_iff_right ⟨rfl, fun h => nomatch h⟩).symm
  | _ => exact succeeds_map_iff hk
termination_by structural a

theorem optBlockOf_succeeds_iff (dup : OnDuplicate) (a : Option Ast) :
    Succeeds (optBlockOf ⟨.stop, dup⟩ a) ↔ AllSupported (Ast.optNodes .block a) := by
  cases a with
  | none => exact iff_of_true (succeeds_pure none) allSupported_nil
  | some a => exact succeeds_map_iff (a.toBlock_succeeds_iff dup)
termination_by structural a

theorem IfClause.toLink_succeeds_iff (dup : OnDuplicate) (c : IfClause) :
    Succeeds (c.toLink ⟨.stop, dup⟩) ↔ AllSupported c.nodes := by
  obtain ⟨condition, body⟩ := c
  have hc := condition.toExpr_succeeds_iff dup
  have hb := body.toStmt_succeeds_iff dup
  exact (succeeds_bind_iff hc fun c => succeeds_map_iff hb).trans allSupported_append.symm
termination_by structural c

theorem linksOf_succeeds_iff (dup : OnDuplicate) (cs : List IfClause) :
    Succeeds (linksOf ⟨.stop, dup⟩ cs) ↔ AllSupported (IfClause.allNodes cs) := by
  cases cs with
  | nil => exact iff_of_true (succeeds_pure []) allSupported_nil
  | cons c cs =>
    have hc := c.toLink_succeeds_iff dup
    have hcs := linksOf_succeeds_iff dup cs
    exact (succeeds_bind_iff hc fun l => succeeds_map_iff hcs).trans allSupported_append.symm
termination_by structural cs

theorem CatchClause.toCatches_succeeds_iff (dup : OnDuplicate) (c : CatchClause) :
    Succeeds (c.toCatches ⟨.stop, dup⟩) ↔ AllSupported c.nodes := by
  obtain ⟨extent, types, body⟩ := c
  exact succeeds_map_iff (body.toBlock_succeeds_iff dup)
termination_by structural c

theorem catchesOfClauses_succeeds_iff (dup : OnDuplicate) (cs : List CatchClause) :
    Succeeds (catchesOfClauses ⟨.stop, dup⟩ cs) ↔ AllSupported (CatchClause.allNodes cs) := by
  cases cs with
  | nil => exact iff_of_true (succeeds_pure []) allSupported_nil
  | cons c cs =>
    have hc := c.toCatches_succeeds_iff dup
    have hcs := catchesOfClauses_succeeds_iff dup cs
    exact (succeeds_bind_iff hc fun first => succeeds_map_iff hcs).trans allSupported_append.symm
termination_by structural cs

end

/-- Reading that stops at constructs without a counterpart ends in a tree if and only if every
node of the source has a counterpart in its place. -/
theorem Ast.toReading_stop_succeeds_iff (dup : OnDuplicate) (root : Ast) :
    (∃ r, root.toReading ⟨.stop, dup⟩ = .ok r) ↔ ∀ x ∈ root.nodes .statement, x.Supported := by
  refine Iff.trans ?_ (root.toStmt_succeeds_iff dup)
  unfold toReading Succeeds
  cases root.toStmt ⟨.stop, dup⟩ with
  | error u => simp
  | ok result => exact iff_of_true ⟨_, rfl⟩ ⟨result.1, result.2, rfl⟩

end Host

end Interlingua
