import Interlingua.Proofs.Page.Printers
import Interlingua.Proofs.Recording

namespace Interlingua

theorem Page.atLineStart_run_lines {α : Type} (f : α → List Step) (as : List α) (page : Page)
    (h : page.atLineStart = true) :
    (page.run (as.flatMap fun a => f a ++ [.newline])).atLineStart = true := by
  induction as generalizing page with
  | nil => exact h
  | cons a as ih =>
    rw [List.flatMap_cons, run_append]
    apply ih
    rw [run_append]
    rfl

theorem layOut_lines_append {α : Type} {f : α → List Step} (hf : ∀ a, Composed (f a))
    (layout : Layout) (as bs : List α) :
    layOut layout ((as ++ bs).flatMap fun a => f a ++ [.newline]) =
      layOut layout (as.flatMap fun a => f a ++ [.newline]) ++
        layOut layout (bs.flatMap fun a => f a ++ [.newline]) := by
  have hlines (as : List α) : Composed (as.flatMap fun a => f a ++ [.newline]) :=
    .flatMap fun a _ => .append (hf a) .newline
  rw [List.flatMap_append]
  exact layOut_append layout (hlines as) (hlines bs) (Page.atLineStart_run_lines f as _ rfl)

theorem CSharp.render_block_append (layout : Layout) (ss ts : List Stmt) :
    render layout (.stmt (.block (ss ++ ts))) =
      render layout (.stmt (.block ss)) ++ render layout (.stmt (.block ts)) :=
  layOut_lines_append (composed_stmt _) layout ss ts

theorem PowerShell.render_block_append (layout : Layout) (ss ts : List Stmt) :
    render layout (.stmt (.block (ss ++ ts))) =
      render layout (.stmt (.block ss)) ++ render layout (.stmt (.block ts)) :=
  layOut_lines_append (composed_stmt _) layout ss ts

namespace Host

open Recorded

def Ast.scriptAt (extent : Extent) (statements : List Ast) : Ast :=
  ⟨extent, .scriptBlock none statements⟩

theorem stmtsOf_append (policy : ReadPolicy) (xs ys : List Ast) :
    stmtsOf policy (xs ++ ys) = do
      let ss ← stmtsOf policy xs
      let ts ← stmtsOf policy ys
      return ss ++ ts := by
  induction xs with
  | nil => simp [stmtsOf]
  | cons x xs ih => simp [stmtsOf, ih]

def asScript : Recorded (List Stmt) → Except Unsupported Reading
  | .ok (ss, ds) => .ok ⟨.stmt (.block ss), ds⟩
  | .error u => .error u

theorem Ast.toReading_scriptAt (policy : ReadPolicy) (extent : Extent) (statements : List Ast) :
    (scriptAt extent statements).toReading policy = asScript (stmtsOf policy statements) := by
  have h : (scriptAt extent statements).toStmt policy = do
      let ss ← stmtsOf policy statements
      return .block ss := bind_pure [] _
  unfold toReading
  rw [h]
  match stmtsOf policy statements with
  | .error u => rfl
  | .ok (ss, ds) =>
    change Except.ok (⟨.stmt (.block ss), ds ++ []⟩ : Reading) = .ok ⟨.stmt (.block ss), ds⟩
    rw [List.append_nil]

theorem asScript_append (x y : Recorded (List Stmt)) :
    asScript (do return (← x) ++ (← y)) =
      match x, y with
      | .ok (ss, first), .ok (ts, second) => .ok ⟨.stmt (.block (ss ++ ts)), first ++ second⟩
      | .error u, _ => .error u
      | _, .error u => .error u := by
  match x, y with
  | .error u, _ => rfl
  | .ok (ss, first), .error u => rfl
  | .ok (ss, first), .ok (ts, second) =>
    change Except.ok (⟨.stmt (.block (ss ++ ts)), first ++ (second ++ [])⟩ : Reading) = _
    rw [List.append_nil]

/-- Two scripts in a row are read and written one after the other. The first construct without a
counterpart ends the reading of both, wherever it stands. -/
theorem Ast.toReading_append (policy : ReadPolicy) (whole first second : Extent)
    (xs ys : List Ast) :
    ((∃ r, (scriptAt whole (xs ++ ys)).toReading policy = .ok r) ↔
        (∃ a, (scriptAt first xs).toReading policy = .ok a) ∧
          ∃ b, (scriptAt second ys).toReading policy = .ok b) ∧
      (∀ r a b, (scriptAt whole (xs ++ ys)).toReading policy = .ok r →
        (scriptAt first xs).toReading policy = .ok a →
        (scriptAt second ys).toReading policy = .ok b →
          r.diagnostics = a.diagnostics ++ b.diagnostics ∧ ∀ layout,
            CSharp.render layout r.node =
              CSharp.render layout a.node ++ CSharp.render layout b.node ∧
            PowerShell.render layout r.node =
              PowerShell.render layout a.node ++ PowerShell.render layout b.node) ∧
      ∀ u, (scriptAt whole (xs ++ ys)).toReading policy = .error u ↔
        (scriptAt first xs).toReading policy = .error u ∨
          (∃ a, (scriptAt first xs).toReading policy = .ok a) ∧
            (scriptAt second ys).toReading policy = .error u := by
  rw [toReading_scriptAt, toReading_scriptAt, toReading_scriptAt, stmtsOf_append, asScript_append]
  match stmtsOf policy xs, stmtsOf policy ys with
  | .error u, _ => simp [asScript]
  | .ok (ss, ds), .error u => simp [asScript]
  | .ok (ss, ds), .ok (ts, es) =>
    refine ⟨by simp [asScript], ?_, by simp [asScript]⟩
    rintro r a b ⟨⟩ ⟨⟩ ⟨⟩
    refine ⟨rfl, fun layout => ⟨?_, ?_⟩⟩
    · exact CSharp.render_block_append layout ss ts
    · exact PowerShell.render_block_append layout ss ts

end Host

end Interlingua
