import Interlingua.Proofs.NormalForm
import Interlingua.Proofs.Printer

namespace Interlingua

mutual

/-- No member is marked as one of a type. -/
def Expr.unmarked : Expr → Expr
  | .literal source => .literal source
  | .string value => .string value
  | .template body => .template body
  | .identifier name => .identifier name
  | .binary left op right => .binary left.unmarked op right.unmarked
  | .before op e => .before op e.unmarked
  | .after op e => .after op e.unmarked
  | .cast typeName e => .cast typeName e.unmarked
  | .grouped inner => .grouped inner.unmarked
  | .member target name _ => .member target.unmarked name false
  | .element target index => .element target.unmarked (Argument.allUnmarked index)
  | .call callee arguments => .call callee.unmarked (Argument.allUnmarked arguments)
  | .create typeName arguments => .create typeName (Argument.allUnmarked arguments)
  | .array elementType elements => .array elementType (Expr.allUnmarked elements)
  | .assign target op value => .assign target.unmarked op value.unmarked
termination_by structural e => e

def Argument.unmarked : Argument → Argument
  | ⟨name, value⟩ => ⟨name, Expr.optUnmarked value⟩
termination_by structural a => a

def Expr.optUnmarked : Option Expr → Option Expr
  | none => none
  | some e => some e.unmarked
termination_by structural e => e

def Expr.allUnmarked : List Expr → List Expr
  | [] => []
  | e :: es => e.unmarked :: Expr.allUnmarked es
termination_by structural es => es

def Argument.allUnmarked : List Argument → List Argument
  | [] => []
  | a :: as => a.unmarked :: Argument.allUnmarked as
termination_by structural as => as

end

def Signature.withoutAttributes (s : Signature) : Signature := { s with attributes := [] }

def Signature.plain (s : Signature) : Signature := { s with modifiers := [], attributes := [] }

section

variable (f : Expr → Expr) (g : Signature → Signature)

mutual

/-- Makes a block of every body of a loop or a conditional, and changes expressions by `f` and
signatures by `g`. -/
def Stmt.braced : Stmt → Stmt
  | .expr e => .expr (f e)
  | .block body => .block (Stmt.allBraced body)
  | .declare typeName name initializer => .declare typeName name (f initializer)
  | .method s body => .method (g s) (Stmt.allBraced body)
  | .conditional condition body rest => .conditional (f condition) body.braced.asBlock rest.braced
  | .forLoop initializer condition step body =>
    .forLoop (Stmt.optBraced initializer) (condition.map f) (step.map f) body.braced.asBlock
  | .forEach item iterable body => .forEach item (f iterable) body.braced.asBlock
  | .whileLoop condition body => .whileLoop (f condition) body.braced.asBlock
  | .breakLoop => .breakLoop
  | .continueLoop => .continueLoop
  | .ret value => .ret (value.map f)
  | .guarded body catches final =>
    .guarded (Stmt.allBraced body) (Catch.allBraced catches) (Stmt.optAllBraced final)
termination_by structural s => s

def Else.braced : Else → Else
  | .absent => .absent
  | .elseIf condition body rest => .elseIf (f condition) body.braced.asBlock rest.braced
  | .block body => .block (Stmt.allBraced body)
termination_by structural r => r

def Catch.braced : Catch → Catch
  | ⟨typeName, body⟩ => ⟨typeName, Stmt.allBraced body⟩
termination_by structural c => c

def Stmt.optBraced : Option Stmt → Option Stmt
  | none => none
  | some s => some s.braced
termination_by structural s => s

def Stmt.allBraced : List Stmt → List Stmt
  | [] => []
  | s :: ss => s.braced :: Stmt.allBraced ss
termination_by structural ss => ss

def Stmt.optAllBraced : Option (List Stmt) → Option (List Stmt)
  | none => none
  | some body => some (Stmt.allBraced body)
termination_by structural b => b

def Catch.allBraced : List Catch → List Catch
  | [] => []
  | c :: cs => c.braced :: Catch.allBraced cs
termination_by structural cs => cs

end

def Node.braced : Node → Node
  | .stmt s => .stmt (s.braced f g)
  | .expr e => .expr (f e)

end

/-- What C# shows of a tree: bodies as blocks, no static members, no attributes. -/
def Node.shownInCSharp (n : Node) : Node :=
  n.braced Expr.unmarked Signature.withoutAttributes

/-- What PowerShell shows of a tree: bodies as blocks, neither modifiers nor attributes. -/
def Node.shownInPowerShell (n : Node) : Node :=
  n.braced id Signature.plain

namespace Printer

variable (P : Printer)

theorem body_asBlock (ended : Bool) (s : Stmt) :
    P.body s.asBlock (P.stmt ended s.asBlock) = P.body s (P.stmt ended s) := by
  cases s <;> simp [Stmt.asBlock, Stmt.statements, body, stmt, lines]

/-- The parts are the same for changed expressions and signatures. -/
structure Ignores (f : Expr → Expr) (g : Signature → Signature) : Prop where
  expr : ∀ e, P.expr (f e) = P.expr e
  signature : ∀ s, P.signature (g s) = P.signature s

variable {P} {f : Expr → Expr} {g : Signature → Signature}

theorem body_braced (s : Stmt) (written : List Step) :
    P.body (s.braced f g) written = P.body s written := by
  cases s <;> rfl

theorem mapExpr_map (h : P.Ignores f g) (e : Option Expr) :
    ((e.map f).map P.expr).getD [] = (e.map P.expr).getD [] := by
  cases e with
  | none => rfl
  | some e => exact h.expr e

mutual

theorem stmt_braced (h : P.Ignores f g) (ended : Bool) (s : Stmt) :
    P.stmt ended (s.braced f g) = P.stmt ended s := by
  cases s with
  | expr value => rw [Stmt.braced, stmt, stmt, h.expr]
  | block ss => rw [Stmt.braced, stmt, stmt, lines_braced h ended ss]
  | declare typeName name initializer => rw [Stmt.braced, stmt, stmt, h.expr]
  | method s ss => rw [Stmt.braced, stmt, stmt, h.signature, lines_braced h ended ss]
  | conditional condition b rest =>
    rw [Stmt.braced, stmt, stmt, h.expr, body_asBlock, body_braced, stmt_braced h ended b,
      elseBranch_braced h ended rest]
  | forLoop initializer condition step b =>
    rw [Stmt.braced, stmt, stmt, header_braced h initializer, mapExpr_map h, mapExpr_map h,
      body_asBlock, body_braced, stmt_braced h ended b]
  | forEach item iterable b =>
    rw [Stmt.braced, stmt, stmt, h.expr, body_asBlock, body_braced, stmt_braced h ended b]
  | whileLoop condition b =>
    rw [Stmt.braced, stmt, stmt, h.expr, body_asBlock, body_braced, stmt_braced h ended b]
  | breakLoop | continueLoop => rfl
  | ret value =>
    cases value with
    | none => rfl
    | some e => simp only [Stmt.braced, stmt, Option.map_some, h.expr]
  | guarded ss cs final =>
    rw [Stmt.braced, stmt, stmt, lines_braced h ended ss, catches_braced h ended cs,
      finally_braced h ended final]
termination_by structural s

theorem header_braced (h : P.Ignores f g) (s : Option Stmt) :
    P.header (Stmt.optBraced f g s) = P.header s := by
  cases s with
  | none => rfl
  | some s => exact stmt_braced h false s
termination_by structural s

theorem elseBranch_braced (h : P.Ignores f g) (ended : Bool) (r : Else) :
    P.elseBranch ended (r.braced f g) = P.elseBranch ended r := by
  cases r with
  | absent => rfl
  | elseIf condition b rest =>
    rw [Else.braced, elseBranch, elseBranch, h.expr, body_asBlock, body_braced,
      stmt_braced h ended b, elseBranch_braced h ended rest]
  | block ss => rw [Else.braced, elseBranch, elseBranch, lines_braced h ended ss]
termination_by structural r

theorem catchClause_braced (h : P.Ignores f g) (ended : Bool) (c : Catch) :
    P.catchClause ended (c.braced f g) = P.catchClause ended c := by
  obtain ⟨typeName, ss⟩ := c
  have hs := lines_braced h ended ss
  cases typeName <;> simp only [Catch.braced, catchClause, hs]
termination_by structural c

theorem catches_braced (h : P.Ignores f g) (ended : Bool) (cs : List Catch) :
    P.catches ended (Catch.allBraced f g cs) = P.catches ended cs := by
  cases cs with
  | nil => rfl
  | cons c cs =>
    rw [Catch.allBraced, catches, catches, catchClause_braced h ended c,
      catches_braced h ended cs]
termination_by structural cs

theorem finally_braced (h : P.Ignores f g) (ended : Bool) (b : Option (List Stmt)) :
    P.finally? ended (Stmt.optAllBraced f g b) = P.finally? ended b := by
  cases b with
  | none => rfl
  | some ss => rw [Stmt.optAllBraced, finally?, finally?, lines_braced h ended ss]
termination_by structural b

theorem lines_braced (h : P.Ignores f g) (ended : Bool) (ss : List Stmt) :
    P.lines ended (Stmt.allBraced f g ss) = P.lines ended ss := by
  cases ss with
  | nil => rfl
  | cons s ss =>
    rw [Stmt.allBraced, lines, lines, stmt_braced h ended s, lines_braced h ended ss]
termination_by structural ss

end

theorem node_braced (h : P.Ignores f g) (ended : Bool) (n : Node) :
    P.node ended (n.braced f g) = P.node ended n := by
  have hs (s : Stmt) : P.stmt ended (s.braced f g) = P.stmt ended s := stmt_braced h ended s
  have hall (ss : List Stmt) : P.node ended (.stmt (.block (Stmt.allBraced f g ss))) =
      P.node ended (.stmt (.block ss)) := by
    induction ss with
    | nil => rfl
    | cons s ss ih =>
      simp only [node, Stmt.allBraced, List.flatMap_cons, hs] at ih ⊢
      rw [ih]
  cases n with
  | expr e => exact h.expr e
  | stmt s =>
    cases s with
    | block ss => exact hall ss
    | _ => exact congrArg (· ++ [.newline]) (hs _)

end Printer

namespace CSharp

open Step (separated)

mutual

theorem expr_unmarked (e : Expr) : expr e.unmarked = expr e := by
  cases e with
  | literal | string | template | identifier => rfl
  | binary left op right => rw [Expr.unmarked, expr, expr, expr_unmarked left, expr_unmarked right]
  | before op e | after op e | cast typeName e | grouped e =>
    rw [Expr.unmarked, expr, expr, expr_unmarked e]
  | member target name isStatic => rw [Expr.unmarked, expr, expr, expr_unmarked target]
  | element target index =>
    rw [Expr.unmarked, expr, expr, expr_unmarked target, arguments_unmarked index]
  | call callee passed =>
    rw [Expr.unmarked, expr, expr, expr_unmarked callee, arguments_unmarked passed]
  | create typeName passed => rw [Expr.unmarked, expr, expr, arguments_unmarked passed]
  | array elementType elements =>
    have h := spaced_unmarked elements
    cases elementType with
    | some name => rw [Expr.unmarked, expr, expr, h]
    | none =>
      cases elements with
      | nil => rfl
      | cons e es => exact congrArg (fun items => _ ++ separated "," items ++ _) h
  | assign target op value =>
    have ht := expr_unmarked target
    have hv := expr_unmarked value
    cases op <;> simp only [Expr.unmarked, expr, ht, hv]
termination_by structural e

theorem argument_unmarked (a : Argument) : argument a.unmarked = argument a := by
  obtain ⟨name, value⟩ := a
  have hv := argumentValue_unmarked value
  cases name <;> simp only [Argument.unmarked, argument, hv]
termination_by structural a

theorem argumentValue_unmarked (v : Option Expr) :
    argumentValue (Expr.optUnmarked v) = argumentValue v := by
  cases v with
  | none => rfl
  | some e => exact expr_unmarked e
termination_by structural v

theorem arguments_unmarked (as : List Argument) :
    arguments (Argument.allUnmarked as) = arguments as := by
  cases as with
  | nil => rfl
  | cons a as =>
    rw [Argument.allUnmarked, arguments, arguments, argument_unmarked a, arguments_unmarked as]
termination_by structural as

theorem spaced_unmarked (es : List Expr) : spaced (Expr.allUnmarked es) = spaced es := by
  cases es with
  | nil => rfl
  | cons e es => rw [Expr.allUnmarked, spaced, spaced, expr_unmarked e, spaced_unmarked es]
termination_by structural es

end

theorem render_shownInCSharp (layout : Layout) (n : Node) :
    render layout n.shownInCSharp = render layout n := by
  have h : printer.Ignores Expr.unmarked Signature.withoutAttributes :=
    ⟨expr_unmarked, fun _ => rfl⟩
  rw [Node.shownInCSharp, render, render, ← node_printer, ← node_printer, Printer.node_braced h]

end CSharp

namespace PowerShell

theorem render_shownInPowerShell (layout : Layout) (n : Node) :
    render layout n.shownInPowerShell = render layout n := by
  have h : printer.Ignores id Signature.plain := ⟨fun _ => rfl, fun _ => rfl⟩
  rw [Node.shownInPowerShell, render, render, ← node_printer, ← node_printer, Printer.node_braced h]

end PowerShell

/-- Trees that differ in nothing but what a language does not show are written alike in it. -/
theorem Node.render_eq_of_shown_eq (layout : Layout) (m n : Node) :
    (m.shownInCSharp = n.shownInCSharp → CSharp.render layout m = CSharp.render layout n) ∧
      (m.shownInPowerShell = n.shownInPowerShell →
        PowerShell.render layout m = PowerShell.render layout n) := by
  constructor
  · intro h
    rw [← CSharp.render_shownInCSharp layout m, h, CSharp.render_shownInCSharp layout n]
  · intro h
    rw [← PowerShell.render_shownInPowerShell layout m, h,
      PowerShell.render_shownInPowerShell layout n]

def Node.chain (wrap : Stmt → Stmt) (isStatic : Bool) (modifiers : List String)
    (attributes : List Attribute) : Node :=
  .stmt (.method ⟨"Main", [⟨none, "n"⟩], modifiers, attributes⟩
    [.conditional (.identifier "n")
      (wrap (.expr (.call (.member (.identifier "Console") "WriteLine" isStatic)
        [⟨none, some (.identifier "n")⟩])))
      (.elseIf (.identifier "m") (wrap (.whileLoop (.identifier "m") (wrap .breakLoop))) .absent)])

theorem Node.render_chain_eq :
    (∀ layout, CSharp.render layout (chain id true ["static"] [⟨"Obsolete", []⟩]) =
      CSharp.render layout (chain Stmt.asBlock false ["static"] [])) ∧
    ∀ layout, PowerShell.render layout (chain id true ["static"] [⟨"Obsolete", []⟩]) =
      PowerShell.render layout (chain Stmt.asBlock true [] []) :=
  ⟨fun layout => (render_eq_of_shown_eq layout _ _).1 rfl,
    fun layout => (render_eq_of_shown_eq layout _ _).2 rfl⟩

end Interlingua
