import Interlingua.Render.CSharp
import Interlingua.Render.PowerShell

namespace Interlingua

open Step (braces)

/-- What a language writes around the blocks in a statement. The statements of both languages are
put together of these parts in one way. -/
@[ext]
structure Printer where
  expr : Expr → List Step
  declaration (typeName name : String) : List Step
  signature : Signature → List Step
  /-- The head of a loop over items, up to what they are taken from. -/
  each (item : String) : List Step
  headEnd : List Step
  gap : List Step
  tried : List Step
  elseIf : List Step
  otherwise : List Step
  caught (typeName : Option String) : List Step
  final : List Step

namespace Printer

variable (P : Printer)

def terminator (ended : Bool) : List Step := if ended then [.write ";"] else []

def body (statement : Stmt) (written : List Step) : List Step :=
  match statement with
  | .block _ => P.gap ++ written
  | _ => P.gap ++ braces (.newline :: written)

mutual

def stmt (ended : Bool) : Stmt → List Step
  | .expr value => P.expr value ++ terminator ended
  | .block ss => braces (lines ended ss)
  | .declare typeName name initializer =>
    P.declaration typeName name ++ [.write " = "] ++ P.expr initializer ++ terminator ended
  | .method s ss => P.signature s ++ braces (lines ended ss)
  | .conditional condition b rest =>
    [.write "if ("] ++ P.expr condition ++ P.headEnd ++ P.body b (stmt ended b) ++
      elseBranch ended rest
  | .forLoop initializer condition step b =>
    [.write "for ("] ++ header initializer ++ [.write "; "] ++
      (condition.map P.expr).getD [] ++ [.write "; "] ++ (step.map P.expr).getD [] ++
      P.headEnd ++ P.body b (stmt ended b)
  | .forEach item iterable b =>
    P.each item ++ P.expr iterable ++ P.headEnd ++ P.body b (stmt ended b)
  | .whileLoop condition b =>
    [.write "while ("] ++ P.expr condition ++ P.headEnd ++ P.body b (stmt ended b)
  | .breakLoop => .write "break" :: terminator ended
  | .continueLoop => .write "continue" :: terminator ended
  | .ret value =>
    .write "return" :: (value.map fun e => .write " " :: P.expr e).getD [] ++ terminator ended
  | .guarded ss cs final =>
    P.tried ++ braces (lines ended ss) ++ catches ended cs ++ finally? ended final
termination_by structural s => s

def header : Option Stmt → List Step
  | some s => stmt false s
  | none => []
termination_by structural s => s

def elseBranch (ended : Bool) : Else → List Step
  | .absent => []
  | .elseIf condition b rest =>
    P.elseIf ++ P.expr condition ++ P.headEnd ++ P.body b (stmt ended b) ++ elseBranch ended rest
  | .block ss => P.otherwise ++ braces (lines ended ss)
termination_by structural r => r

def catchClause (ended : Bool) : Catch → List Step
  | ⟨typeName, ss⟩ => P.caught typeName ++ braces (lines ended ss)
termination_by structural c => c

def catches (ended : Bool) : List Catch → List Step
  | [] => []
  | c :: cs => catchClause ended c ++ catches ended cs
termination_by structural cs => cs

def finally? (ended : Bool) : Option (List Stmt) → List Step
  | some ss => P.final ++ braces (lines ended ss)
  | none => []
termination_by structural f => f

def lines (ended : Bool) : List Stmt → List Step
  | [] => []
  | s :: ss => .newline :: stmt ended s ++ lines ended ss
termination_by structural ss => ss

end

def node (ended : Bool) : Node → List Step
  | .stmt (.block ss) => ss.flatMap fun s => P.stmt ended s ++ [.newline]
  | .stmt s => P.stmt ended s ++ [.newline]
  | .expr e => P.expr e

end Printer

namespace CSharp

/-- Braces stand on lines of their own. -/
def printer : Printer where
  expr := expr
  declaration typeName name := [.write typeName, .write " ", .write name]
  signature s := signature s ++ [.newline]
  each item := [.write "foreach (var ", .write item, .write " in "]
  headEnd := [.write ")"]
  gap := [.newline]
  tried := [.write "try", .newline]
  elseIf := [.newline, .write "else ", .write "if ("]
  otherwise := [.newline, .write "else", .newline]
  caught typeName :=
    [.newline, .write "catch"] ++
      (match typeName with
        | some name => [.write " (", .write name, .write ")"]
        | none => []) ++
      [.newline]
  final := [.newline, .write "finally", .newline]

theorem stmt_printer (ended : Bool) (s : Stmt) : printer.stmt ended s = stmt ended s := by
  -- Once the parts are put in, both are the same recursion.
  delta stmt Printer.stmt
  with_unfolding_all rfl

theorem node_printer (ended : Bool) (n : Node) : printer.node ended n = node ended n := by
  unfold Printer.node node
  simp only [stmt_printer]
  rfl

end CSharp

namespace PowerShell

/-- Braces stand on the line of what they belong to. -/
def printer : Printer where
  expr := expr
  declaration typeName name := [.write "[", .write typeName, .write "]$", .write name]
  signature := signature
  each item := [.write "foreach ($", .write item, .write " in "]
  headEnd := [.write ") "]
  gap := []
  tried := [.write "try "]
  elseIf := [.write " elseif ("]
  otherwise := [.write " else "]
  caught typeName :=
    .write " catch " ::
      match typeName with
      | some name => [.write "[", .write name, .write "] "]
      | none => []
  final := [.write " finally "]

theorem stmt_printer (ended : Bool) (s : Stmt) : printer.stmt ended s = stmt ended s := by
  delta stmt Printer.stmt
  with_unfolding_all rfl

theorem node_printer (ended : Bool) (n : Node) : printer.node ended n = node ended n := by
  unfold Printer.node node
  simp only [stmt_printer]
  rfl

end PowerShell

end Interlingua
