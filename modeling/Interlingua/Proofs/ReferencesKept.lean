import Interlingua.Proofs.Below
import Interlingua.Proofs.LeavesKept
import Interlingua.Proofs.ReferencesWritten
import Interlingua.Proofs.StandIn

namespace Interlingua

open Template (IsPath Shows references)
open Recorded (Yields)

theorem Expr.allVariables_eq (es : List Expr) :
    Expr.allVariables es = es.flatMap (Expr.variables false) := by
  induction es with
  | nil => rfl
  | cons e es ih => rw [Expr.allVariables, List.flatMap_cons, ih]

namespace Argument

theorem variables_eq (a : Argument) : a.variables = Expr.optVariables a.value := by
  cases a
  rfl

theorem allVariables_eq (as : List Argument) : allVariables as = as.flatMap Argument.variables := by
  induction as with
  | nil => rfl
  | cons a as ih => rw [allVariables, List.flatMap_cons, ih]

theorem allVariables_positional (es : List Expr) :
    allVariables (es.map positional) = Expr.allVariables es := by
  rw [allVariables_eq, Expr.allVariables_eq, List.flatMap_map]
  rfl

theorem allVariables_attachValues (as : List Argument) :
    allVariables (attachValues as) = allVariables as := by
  have hvariables (a : Argument) : a.variables = [] ++ Expr.optVariables a.value := a.variables_eq
  rw [allVariables_eq, allVariables_eq]
  exact flatMap_attachValues (fun _ => []) hvariables rfl rfl as

theorem names_positional {p : String → Prop} (es : List Expr) :
    ∀ a ∈ es.map positional, ∀ name ∈ a.name, p name := by
  intro a ha
  obtain ⟨e, rfl⟩ := isPositional_of_mem_map a ha
  exact nofun

theorem names_attachValues {p : String → Prop} {as : List Argument}
    (h : ∀ a ∈ as, ∀ name ∈ a.name, p name) : ∀ a ∈ attachValues as, ∀ name ∈ a.name, p name := by
  fun_induction attachValues as with
  | case1 => exact h
  | case2 => exact h
  | case3 a next rest _ ih =>
    obtain ⟨ha, h⟩ := List.forall_mem_cons.mp h
    exact List.forall_mem_cons.mpr ⟨ha, ih (List.forall_mem_cons.mp h).2⟩
  | case4 a next rest _ ih =>
    obtain ⟨ha, h⟩ := List.forall_mem_cons.mp h
    exact List.forall_mem_cons.mpr ⟨ha, ih h⟩

end Argument

theorem Expr.allVariables_flatten (es : List Expr) :
    Expr.allVariables (Host.flatten es) = Expr.allVariables es := by
  rw [Expr.allVariables_eq, Expr.allVariables_eq]
  exact Host.flatMap_flatten Expr.allVariables_eq es

namespace Host

def Kind.path? : Kind → Option String
  | .var path => some path
  | _ => none

/-- The paths of the variables in the tree, from left to right. -/
def Ast.paths (a : Ast) : List String := (a.nodes .value).filterMap (·.node.kind.path?)

def Kind.paths (k : Kind) : List String :=
  k.path?.toList ++ k.children.flatMap (·.node.paths)

theorem Kind.paths_of_child {k : Kind} {place : Place} {a : Ast} (hk : k.path? = none)
    (ha : k.children = [⟨place, a⟩]) : k.paths = a.paths := by
  simp [paths, hk, ha]

theorem Kind.paths_of_children {k : Kind} {place : Place} (as : List Ast) (hk : k.path? = none)
    (has : k.children = as.map (⟨place, ·⟩)) : k.paths = as.flatMap Ast.paths := by
  simp [paths, hk, has, List.flatMap_map]

theorem Ast.filterMap_nodes (place : Place) (a : Ast) :
    (a.nodes place).filterMap (·.node.kind.path?) = a.paths := by
  rw [paths, nodes_eq, nodes_eq]
  rfl

theorem Ast.paths_eq (a : Ast) : a.paths = a.kind.paths := by
  have hnodes (cs : List Placed) :
      (cs.flatMap fun c => c.node.nodes c.place).filterMap (·.node.kind.path?) =
        cs.flatMap (·.node.paths) := by
    rw [List.filterMap_flatMap]
    exact List.flatMap_congr fun c _ => c.node.filterMap_nodes c.place
  rw [paths, nodes_eq, Kind.paths, List.filterMap_cons, hnodes]
  cases a.kind.path? <;> rfl

/-- The node is no template, no text of it holds a `$`, and a path could stand in braces. -/
def Kind.IsPlain : Kind → Prop
  | .var path =>
    path ≠ "" ∧ path.toList.head? ≠ some ':' ∧ '}' ∉ path.toList ∧ '$' ∉ path.toList
  | .expandableString _ => False
  | .constant text | .stringConstant text | .typeExpression text | .convert text _
  | .member _ text _ | .invokeMember _ text _ _ | .commandParameter text _ => '$' ∉ text.toList
  | _ => True

instance (k : Kind) : Decidable k.IsPlain := by
  cases k <;> dsimp only [Kind.IsPlain] <;> infer_instance

mutual

/-- Variables and names of types in their places: a name of a type is `bare`, as what a command runs
or what a static member belongs to, and a variable is not. -/
def Ast.InPlace (bare : Bool) : Ast → Prop
  | ⟨_, kind⟩ => kind.InPlace bare
termination_by structural a => a

def Kind.InPlace (bare : Bool) : Kind → Prop
  | .var _ => bare = false
  | .typeExpression _ => bare = true
  | .pipeline [element] => element.InPlace bare
  | .commandExpression expression => expression.InPlace bare
  | .command (head :: rest) => head.InPlace true ∧ Ast.AllInPlace rest
  | .commandParameter _ argument => Ast.OptInPlace argument
  | .assignment left _ right | .binary left _ right => left.InPlace false ∧ right.InPlace false
  | .unary _ child | .convert _ child | .paren child => child.InPlace false
  | .index target index => target.InPlace false ∧ index.InPlace false
  | .invokeMember expression _ arguments isStatic =>
    expression.InPlace isStatic ∧ Ast.AllInPlace arguments
  | .member expression _ isStatic => expression.InPlace isStatic
  | .subExpression elements | .arrayLiteral elements | .arrayExpression elements =>
    Ast.AllInPlace elements
  | _ => True
termination_by structural k => k

def Ast.OptInPlace : Option Ast → Prop
  | none => True
  | some a => a.InPlace false
termination_by structural a => a

def Ast.AllInPlace : List Ast → Prop
  | [] => True
  | a :: as => a.InPlace false ∧ Ast.AllInPlace as
termination_by structural as => as

end

/-- Nothing in the tree of such a node creates an object or hides a reference. -/
structure Kind.Clear (k : Kind) : Prop where
  names : NamesNoObject k.leaves
  plain : k.IsPlain
  below : ∀ x ∈ k.inner, x.node.kind.IsPlain

theorem Ast.clear_of_nodes {a : Ast} (place : Place) (names : NamesNoObject a.leaves)
    (plain : ∀ x ∈ a.nodes place, x.node.kind.IsPlain) : a.kind.Clear := by
  obtain ⟨extent, kind⟩ := a
  obtain ⟨hk, hbelow⟩ := List.forall_mem_cons.mp plain
  exact ⟨names, hk, hbelow⟩

theorem Kind.Clear.child {k : Kind} (h : k.Clear) {place : Place} {a : Ast}
    (ha : ⟨place, a⟩ ∈ k.children) : a.kind.Clear := by
  have names : NamesNoObject a.leaves := fun t ht => h.names t (leaves_of_child ha ht)
  refine Ast.clear_of_nodes place names fun x hx => h.below x ?_
  rw [k.inner_eq]
  exact List.mem_flatMap.mpr ⟨_, ha, hx⟩

/-- The expression is quiet and these are its variables. -/
def Keeps (bare : Bool) (names : List String) (e : Expr) : Prop :=
  e.Everywhere Expr.Quiet ∧ e.variables bare = names

mutual

theorem Ast.toExpr_keeps (dup : OnDuplicate) (bare : Bool) (a : Ast) (hc : a.kind.Clear)
    (hp : a.InPlace bare) :
    Yields (a.toExpr ⟨.stop, dup⟩) fun e _ => Keeps bare a.paths e := by
  obtain ⟨extent, kind⟩ := a
  rw [Ast.paths_eq]
  exact kind.toExpr_keeps dup bare extent hc hp
termination_by structural a

theorem Kind.toExpr_keeps (dup : OnDuplicate) (bare : Bool) (extent : Extent) (k : Kind)
    (hc : k.Clear) (hp : k.InPlace bare) :
    Yields (k.toExpr ⟨.stop, dup⟩ extent) fun e _ => Keeps bare k.paths e := by
  have hplain := hc.plain
  cases k with
  | pipeline elements =>
    match elements with
    | [element] =>
      rw [Kind.paths_of_child rfl rfl]
      exact element.toExpr_keeps dup bare (hc.child (.head _)) hp
    | [] | _ :: _ :: _ => exact .unsupported dup _ extent
  | commandExpression expression =>
    rw [Kind.paths_of_child rfl rfl]
    exact expression.toExpr_keeps dup bare (hc.child (.head _)) hp
  | command elements =>
    match elements with
    | [] => exact .unsupported dup _ extent
    | head :: rest =>
      obtain ⟨hh, hr⟩ := hp
      have hhead := hc.child (.head _)
      have hrest : ∀ a ∈ rest, a.kind.Clear := fun a ha =>
        hc.child (.tail _ (List.mem_map_of_mem ha))
      have hleaves := (namesNoObject_append.mp hc.names).1
      have hcallee := (head.toCallee_leaves dup hleaves).and (head.toCallee_keeps dup hhead hh)
      refine .bind hcallee fun callee _ ⟨hl, hq, hv⟩ => ?_
      refine .bind (argumentsOf_keeps dup rest hrest hr) fun arguments _ ⟨hn, hqs, hvs⟩ => .pure ?_
      -- Only an object that is created would lose what stands in the arguments.
      rw [commandExpr_eq_call (hl ▸ hleaves)]
      have hattached := Argument.allEverywhere_attachValues hqs
      refine ⟨⟨Argument.names_attachValues hn, hq, hattached⟩, ?_⟩
      simp [Expr.variables, Argument.allVariables_attachValues, hv, hvs, Kind.paths, Kind.path?,
        Kind.children, List.flatMap_map]
  | assignment left operator right =>
    obtain ⟨hl, hr⟩ := hp
    have hright := right.toExpr_keeps dup false (hc.child (.tail _ (.head _))) hr
    rw [Kind.paths_of_children [left, right] rfl rfl]
    refine .bind (left.toExpr_keeps dup false (hc.child (.head _)) hl) fun target _ ht => ?_
    by_cases ho : operator = "Equals"
    · simp only [ho, if_true]
      refine .bind hright fun value _ hv => .pure ⟨⟨trivial, ht.1, hv.1⟩, ?_⟩
      simp [Expr.variables, ht.2, hv.2]
    · simp only [ho, if_false]
      refine .of_bind fun _ => .bind hright fun value _ hv => .pure ⟨⟨trivial, ht.1, hv.1⟩, ?_⟩
      simp [Expr.variables, ht.2, hv.2]
  | binary left operator right =>
    obtain ⟨hl, hr⟩ := hp
    have hright := right.toExpr_keeps dup false (hc.child (.tail _ (.head _))) hr
    rw [Kind.paths_of_children [left, right] rfl rfl]
    refine .bind (left.toExpr_keeps dup false (hc.child (.head _)) hl) fun l _ hl => ?_
    refine .of_bind fun _ => .bind hright fun r _ hr => .pure ⟨⟨trivial, hl.1, hr.1⟩, ?_⟩
    simp [Expr.variables, hl.2, hr.2]
  | unary token child =>
    have hchild := child.toExpr_keeps dup false (hc.child (.head _)) hp
    rw [Kind.paths_of_child rfl rfl]
    simp only [Kind.toExpr]
    refine .of_bind fun _ => .bind hchild fun operand _ ho => ?_
    cases (Token.unary token).2 with
    | before | after => exact .pure ⟨⟨trivial, ho.1⟩, ho.2⟩
  | constant text | stringConstant text => exact .pure ⟨hplain, rfl⟩
  | expandableString text => exact hplain.elim
  | var path =>
    cases hp
    exact .pure ⟨hplain.2.2.2, rfl⟩
  | typeExpression typeName =>
    cases hp
    exact .pure ⟨hplain, rfl⟩
  | convert typeName child =>
    have hchild := child.toExpr_keeps dup false (hc.child (.head _)) hp
    rw [Kind.paths_of_child rfl rfl]
    exact .bind hchild fun e _ he => .pure ⟨⟨hplain, he.1⟩, he.2⟩
  | index target index =>
    obtain ⟨ht, hi⟩ := hp
    have hindex := index.toExpr_keeps dup false (hc.child (.tail _ (.head _))) hi
    rw [Kind.paths_of_children [target, index] rfl rfl]
    refine .bind (target.toExpr_keeps dup false (hc.child (.head _)) ht) fun t _ ht => ?_
    refine .bind hindex fun i _ hi => .pure ⟨⟨trivial, ht.1, hi.1, trivial⟩, ?_⟩
    simp [Expr.indexed, Argument.positional, Expr.variables, Argument.allVariables,
      Argument.variables, Expr.optVariables, ht.2, hi.2]
  | invokeMember expression member arguments isStatic =>
    obtain ⟨he, ha⟩ := hp
    have hexpression := expression.toExpr_keeps dup isStatic (hc.child (.head _)) he
    have hclear : ∀ a ∈ arguments, a.kind.Clear := fun a ha =>
      hc.child (.tail _ (List.mem_map_of_mem ha))
    have harguments := exprsOf_keeps dup arguments hclear ha
    rw [Kind.paths_of_children (expression :: arguments) rfl rfl]
    refine .bind hexpression fun target _ ht => .bind harguments fun values _ hv => .pure ?_
    have hvalues := Argument.allEverywhere_positional hv.1
    refine ⟨⟨Argument.names_positional values, ⟨hplain, ht.1⟩, hvalues⟩, ?_⟩
    simp [Expr.variables, Argument.allVariables_positional, ht.2, hv.2]
  | member expression member isStatic =>
    have hexpression := expression.toExpr_keeps dup isStatic (hc.child (.head _)) hp
    rw [Kind.paths_of_child rfl rfl]
    exact .bind hexpression fun e _ he => .pure ⟨⟨hplain, he.1⟩, he.2⟩
  | paren pipeline =>
    have hpipeline := pipeline.toExpr_keeps dup false (hc.child (.head _)) hp
    rw [Kind.paths_of_child rfl rfl]
    exact .bind hpipeline fun e _ he => .pure ⟨⟨trivial, he.1⟩, he.2⟩
  | subExpression statements =>
    match statements with
    | [statement] =>
      have hstatement := statement.toExpr_keeps dup false (hc.child (.head _)) hp.1
      rw [Kind.paths_of_child rfl rfl]
      exact .bind hstatement fun e _ he => .pure ⟨⟨trivial, he.1⟩, he.2⟩
    | [] | _ :: _ :: _ => exact .unsupported dup _ extent
  | arrayLiteral elements =>
    have hclear : ∀ a ∈ elements, a.kind.Clear := fun a ha => hc.child (List.mem_map_of_mem ha)
    have helements := exprsOf_keeps dup elements hclear hp
    rw [Kind.paths_of_children elements rfl rfl]
    exact .bind helements fun es _ hes => .pure ⟨⟨nofun, hes.1⟩, hes.2⟩
  | arrayExpression elements =>
    have hclear : ∀ a ∈ elements, a.kind.Clear := fun a ha => hc.child (List.mem_map_of_mem ha)
    have helements := exprsOf_keeps dup elements hclear hp
    rw [Kind.paths_of_children elements rfl rfl]
    refine .bind helements fun es _ hes => .pure ⟨⟨nofun, allEverywhere_flatten hes.1⟩, ?_⟩
    exact (Expr.allVariables_flatten es).trans hes.2
  | _ => exact .unsupported dup _ extent
termination_by structural k

theorem exprsOf_keeps (dup : OnDuplicate) (as : List Ast) (hc : ∀ a ∈ as, a.kind.Clear)
    (hp : Ast.AllInPlace as) :
    Yields (exprsOf ⟨.stop, dup⟩ as) fun es _ =>
      Expr.AllEverywhere Expr.Quiet es ∧ Expr.allVariables es = as.flatMap Ast.paths := by
  cases as with
  | nil => exact .pure ⟨trivial, rfl⟩
  | cons a as =>
    obtain ⟨ha, has⟩ := List.forall_mem_cons.mp hc
    refine .bind (a.toExpr_keeps dup false ha hp.1) fun e _ he => ?_
    refine .bind (exprsOf_keeps dup as has hp.2) fun es _ hes => .pure ⟨⟨he.1, hes.1⟩, ?_⟩
    rw [Expr.allVariables, he.2, hes.2, List.flatMap_cons]
termination_by structural as

theorem optExprOf_keeps (dup : OnDuplicate) (a : Option Ast) (hc : ∀ b ∈ a, b.kind.Clear)
    (hp : Ast.OptInPlace a) :
    Yields (optExprOf ⟨.stop, dup⟩ a) fun v _ =>
      Expr.OptEverywhere Expr.Quiet v ∧ Expr.optVariables v = a.toList.flatMap Ast.paths := by
  cases a with
  | none => exact .pure ⟨trivial, rfl⟩
  | some a =>
    refine .bind (a.toExpr_keeps dup false (hc a rfl) hp) fun e _ he => .pure ⟨he.1, ?_⟩
    exact he.2.trans (List.append_nil _).symm
termination_by structural a

theorem Ast.toCallee_keeps (dup : OnDuplicate) (a : Ast) (hc : a.kind.Clear)
    (hp : a.InPlace true) :
    Yields (a.toCallee ⟨.stop, dup⟩) fun e _ => Keeps true a.paths e := by
  obtain ⟨extent, kind⟩ := a
  rw [Ast.paths_eq]
  have hk := kind.toExpr_keeps dup true extent hc hp
  cases kind with
  | stringConstant name => exact .pure ⟨hc.plain, rfl⟩
  | _ => exact hk
termination_by structural a

theorem Ast.toArgument_keeps (dup : OnDuplicate) (a : Ast) (hc : a.kind.Clear)
    (hp : a.InPlace false) :
    Yields (a.toArgument ⟨.stop, dup⟩) fun x _ =>
      (∀ name ∈ x.name, '$' ∉ name.toList) ∧ x.Everywhere Expr.Quiet ∧ x.variables = a.paths := by
  obtain ⟨extent, kind⟩ := a
  rw [Ast.paths_eq]
  have hk := kind.toExpr_keeps dup false extent hc hp
  cases kind with
  | commandParameter name argument =>
    have hargument : ∀ b ∈ argument, b.kind.Clear := fun b hb =>
      hc.child (List.mem_map_of_mem (Option.mem_toList.mpr hb))
    refine .bind (optExprOf_keeps dup argument hargument hp) fun value _ hv => .pure ?_
    rw [Kind.paths_of_children argument.toList rfl rfl]
    refine ⟨fun n hn => ?_, hv⟩
    cases hn
    exact hc.plain
  | _ => exact .bind hk fun e _ he => .pure ⟨nofun, he⟩
termination_by structural a

theorem argumentsOf_keeps (dup : OnDuplicate) (as : List Ast) (hc : ∀ a ∈ as, a.kind.Clear)
    (hp : Ast.AllInPlace as) :
    Yields (argumentsOf ⟨.stop, dup⟩ as) fun xs _ =>
      (∀ x ∈ xs, ∀ name ∈ x.name, '$' ∉ name.toList) ∧ Argument.AllEverywhere Expr.Quiet xs ∧
        Argument.allVariables xs = as.flatMap Ast.paths := by
  cases as with
  | nil => exact .pure ⟨nofun, trivial, rfl⟩
  | cons a as =>
    obtain ⟨ha, has⟩ := List.forall_mem_cons.mp hc
    refine .bind (a.toArgument_keeps dup ha hp.1) fun x _ ⟨hn, hq, hv⟩ => ?_
    refine .bind (argumentsOf_keeps dup as has hp.2) fun xs _ ⟨hns, hqs, hvs⟩ => .pure ?_
    refine ⟨List.forall_mem_cons.mpr ⟨hn, hns⟩, ⟨hq, hqs⟩, ?_⟩
    rw [Argument.allVariables, hv, hvs, List.flatMap_cons]
termination_by structural as

end

def Kind.isStatement : Kind → Bool
  | .scriptBlock .. | .statementBlock _ | .ifStatement .. | .whileStatement .. | .forStatement ..
  | .forEachStatement .. | .breakStatement | .continueStatement | .returnStatement _
  | .tryStatement .. | .function .. => true
  | _ => false

theorem Kind.paths_of_declaration (place inner : Extent) (typeName path operator : String)
    (right : Ast) :
    (Kind.assignment ⟨place, .convert typeName ⟨inner, .var path⟩⟩ operator right).paths =
      path :: right.paths :=
  congrArg (path :: ·) (List.append_nil _)

theorem Kind.toStmt_refers (dup : OnDuplicate) (extent : Extent) (k : Kind)
    (hk : k.isStatement = false) (hc : k.Clear) (hp : k.InPlace false)
    (hpaths : ∀ path ∈ k.paths, IsPath path) :
    Yields (k.toStmt ⟨.stop, dup⟩ extent) fun s _ =>
      ∀ ended, Refers (PowerShell.node ended (.stmt s)) k.paths := by
  have he := k.toExpr_keeps dup false extent hc hp
  -- All but declarations are expressions for their effect.
  have heffect (e : Expr) (h : Keeps false k.paths e) (ended : Bool) :
      Refers (PowerShell.node ended (.stmt (.expr e))) k.paths := by
    obtain ⟨hq, hv⟩ := h
    rw [← hv] at hpaths ⊢
    exact PowerShell.effect_refers ended hq hpaths
  cases k with
  | assignment left operator right =>
    simp only [Kind.toStmt]
    cases hd : left.declaration? operator with
    | none => exact .bind he fun e _ h => .pure (heffect e h)
    | some declared =>
      obtain ⟨-, place, inner, rfl⟩ := Ast.eq_of_declaration? hd
      have htype : (Kind.convert declared.1 ⟨inner, .var declared.2⟩).Clear := hc.child (.head _)
      have hright := right.toExpr_keeps dup false (hc.child (.tail _ (.head _))) hp.2
      refine .bind hright fun e _ he => .pure fun ended => ?_
      obtain ⟨hq, hv⟩ := he
      rw [Kind.paths_of_declaration, ← hv] at hpaths ⊢
      obtain ⟨hname, hvalue⟩ := List.forall_mem_cons.mp hpaths
      exact PowerShell.declare_refers ended htype.plain hname hq hvalue
  | scriptBlock | statementBlock | ifStatement | whileStatement | forStatement | forEachStatement
  | breakStatement | continueStatement | returnStatement | tryStatement | function => cases hk
  | _ => exact .bind he fun e _ h => .pure (heffect e h)

/-- An expression that is read without diagnostics is written with the references it has. -/
theorem Ast.references_kept {policy : ReadPolicy} {root : Ast} {r : Reading}
    (h : root.toReading policy = .ok r) (faithful : r.diagnostics = [])
    (expression : root.kind.isStatement = false)
    (names : ∀ t ∈ root.leaves, ¬ Text.sameName "New-Object" t)
    (plain : ∀ x ∈ root.nodes .value, x.node.kind.IsPlain)
    (unbraced : ∀ path ∈ root.paths, IsPath path) (inPlace : root.InPlace false)
    (layout : Layout) : references (PowerShell.render layout r.node) = root.paths := by
  have hstop : root.toReading ⟨.stop, policy.onDuplicate⟩ = .ok r := by
    obtain ⟨onUnsupported, dup⟩ := policy
    cases onUnsupported with
    | stop => exact h
    | standIn =>
      obtain ⟨r', hr, hnone, -⟩ := toReading_stop_of_standIn dup root
      obtain rfl : r = r' := Except.ok.inj (h.symm.trans hr)
      refine hnone fun u hu => ?_
      rw [faithful] at hu
      cases hu
  obtain ⟨extent, kind⟩ := root
  have hclear : kind.Clear := Ast.clear_of_nodes .value names plain
  rw [Ast.paths_eq] at unbraced ⊢
  have hrefers := kind.toStmt_refers policy.onDuplicate extent expression hclear inPlace unbraced
  unfold toReading at hstop
  split at hstop
  · next s ds hs =>
    cases hstop
    exact PowerShell.references_render (hrefers s ds hs _)
  · cases hstop

def callWithVariables : Ast :=
  .ofKind (.command [.ofKind (.stringConstant "f"),
    .ofKind (.commandParameter "x" (some (.ofKind (.var "a")))),
    .ofKind (.paren (.ofKind (.invokeMember (.ofKind (.typeExpression "math")) "Max"
      [.ofKind (.var "env:b"), .ofKind (.convert "int" (.ofKind (.var "c")))] true)))])

theorem callWithVariables_kept :
    (∀ path ∈ callWithVariables.paths, IsPath path) ∧ callWithVariables.InPlace false ∧
      ∃ r, callWithVariables.toReading {} = .ok r ∧ r.diagnostics = [] ∧
        references (PowerShell.render {} r.node) = ["a", "env:b", "c"] := by
  have paths : callWithVariables.paths = ["a", "env:b", "c"] := rfl
  have unbraced : ∀ path ∈ callWithVariables.paths, IsPath path := by
    rw [paths]
    simp only [List.forall_mem_cons, List.not_mem_nil, false_implies, implies_true, and_true]
    have env : IsPath "env:b" := .of_scoped "env" "b" (by decide) (by decide) rfl
    exact ⟨.of_isName (by decide), env, .of_isName (by decide)⟩
  have inPlace : callWithVariables.InPlace false :=
    ⟨trivial, rfl, ⟨rfl, rfl, rfl, trivial⟩, trivial⟩
  have h : callWithVariables.toReading {} = .ok ⟨.stmt _, _⟩ := rfl
  refine ⟨unbraced, inPlace, _, h, rfl, ?_⟩
  exact Ast.references_kept h rfl rfl (by decide) (by decide) unbraced inPlace {}

/-- `${my var}` -/
def bracedVariable : Ast := .ofKind (.var "my var")

theorem bracedVariable_cut :
    bracedVariable.kind.isStatement = false ∧
      (∀ t ∈ bracedVariable.leaves, ¬ Text.sameName "New-Object" t) ∧
      (∀ x ∈ bracedVariable.nodes .value, x.node.kind.IsPlain) ∧
      bracedVariable.InPlace false ∧ bracedVariable.paths = ["my var"] ∧
      ∃ r, bracedVariable.toReading {} = .ok r ∧ r.diagnostics = [] ∧
        references (PowerShell.render {} r.node) = ["my"] := by
  have written : (PowerShell.render {} (.stmt (.expr (.identifier "my var")))).toList =
      ('$' :: "my".toList) ++ " var\n".toList := by decide
  have shows : Shows (('$' :: "my".toList) ++ " var\n".toList) ["my"] :=
    (Shows.path (.of_isName (by decide))).append (.of_not_mem (by decide))
      (Template.stopping_cons (by decide) (by decide) _)
  refine ⟨rfl, by decide, by decide, rfl, rfl, _, rfl, rfl, ?_⟩
  rw [Template.references_eq_targets, written, shows.targets_eq]

example :
    ((Ast.ofKind (.command [.ofKind (.var "cmd"), .ofKind (.constant "1")])).toReading {}).map
        (PowerShell.render {} ·.node) = .ok "cmd 1\n" ∧
      ((Ast.ofKind (.binary (.ofKind (.var "x")) "Is" (.ofKind (.typeExpression "int")))).toReading
        {}).map (PowerShell.render {} ·.node) = .ok "$x -is $int\n" :=
  ⟨rfl, rfl⟩

end Host

end Interlingua
