import Interlingua.Proofs.Draft.CSharp
import Interlingua.Proofs.Draft.PowerShell

namespace Interlingua

namespace CSharp

theorem oneLine_expr (e : Expr) : OneLine (expr e) := by
  rw [← trimmed_exprLine]
  exact (exprLine e).oneLine_trimmed

theorem composed_stmt (ended : Bool) (s : Stmt) : Composed (stmt ended s) := by
  rw [← trimmed_stmtDraft]
  exact (stmtDraft s).composed ended

theorem composed_node (ended : Bool) (n : Node) : Composed (node ended n) := by
  rw [← trimmed_nodeDraft]
  exact (nodeDraft n).composed ended

end CSharp

namespace PowerShell

theorem oneLine_expr (e : Expr) : OneLine (expr e) := by
  rw [← trimmed_exprLine]
  exact (exprLine e).oneLine_trimmed

theorem oneLine_values (as : List Argument) : ∀ item ∈ values as, OneLine item := by
  rw [← allTrimmed_valueLines]
  exact Line.oneLine_allTrimmed (valueLines as)

theorem oneLine_commandValue (v : Option Expr) : OneLine (commandValue v) := by
  rw [← trimmed_commandValueLine]
  exact (commandValueLine v).oneLine_trimmed

theorem oneLine_commandArgument (a : Argument) : OneLine (commandArgument a) := by
  rw [← trimmed_commandArgumentLine]
  exact (commandArgumentLine a).oneLine_trimmed

theorem oneLine_commandArguments (as : List Argument) : OneLine (commandArguments as) := by
  rw [← trimmed_commandLine]
  exact (commandLine as).oneLine_trimmed

theorem composed_stmt (ended : Bool) (s : Stmt) : Composed (stmt ended s) := by
  rw [← trimmed_stmtDraft]
  exact (stmtDraft s).composed ended

theorem composed_node (ended : Bool) (n : Node) : Composed (node ended n) := by
  rw [← trimmed_nodeDraft]
  exact (nodeDraft n).composed ended

end PowerShell

end Interlingua
