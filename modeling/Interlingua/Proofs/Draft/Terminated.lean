import Interlingua.Proofs.Draft.Terminators

namespace Interlingua

namespace Style

variable (S : Style)

def sentenceLine : SimpleStmt → Line
  | .expr value => S.expr value
  | .declare typeName name initializer =>
    S.declaration typeName name ++ .text " = " ++ S.expr initializer
  | .breakLoop => .text "break"
  | .continueLoop => .text "continue"
  | .ret value => .text "return" ++ (value.map fun e => .text " " ++ S.expr e).getD .empty

def sentence (s : SimpleStmt) : List Char := (S.sentenceLine s).content

theorem stmtDraft_toStmt (s : SimpleStmt) :
    S.stmtDraft s.toStmt = .line (S.sentenceLine s) ++ .terminator := by
  cases s <;> rfl

theorem lineOf_stmt (s : SimpleStmt) : lineOf (S.printer.stmt false s.toStmt) = S.sentence s := by
  rw [sentence, ← Line.lineOf_trimmed, ← S.trimmed_stmtDraft, stmtDraft_toStmt]
  exact congrArg lineOf (List.append_nil _)

theorem terminates_toStmt (s : SimpleStmt) :
    (S.stmtDraft s.toStmt).Terminates [S.sentence s] := by
  rw [stmtDraft_toStmt]
  exact .statement _

theorem sentence_ne_nil {s : SimpleStmt} (h : ∀ e, s = .expr e → (S.expr e).content ≠ []) :
    S.sentence s ≠ [] := by
  cases s with
  | expr e => exact h e rfl
  | declare | breakLoop | continueLoop | ret => simp [sentence, sentenceLine, Line.content]

theorem terminates_gap : S.gap.Terminates [] := by
  unfold gap
  split
  · exact .lineEnd
  · exact .empty

theorem terminates_bodyDraft {d : Draft} {xs : List (List Char)} (h : d.Terminates xs) (b : Stmt) :
    (S.bodyDraft b d).Terminates xs := by
  unfold bodyDraft
  split
  · exact .append S.terminates_gap h
  · exact .append S.terminates_gap (.block (.append .lineEnd h))

theorem terminates_between (l : Line) : (S.gap ++ .line l ++ S.gap).Terminates [] :=
  .append (.append S.terminates_gap (.line l)) S.terminates_gap

theorem terminates_headerDraft (s : Option Stmt) : (S.headerDraft s).Terminates [] := by
  cases s with
  | none => exact .empty
  | some s => exact .unterminated _

mutual

theorem terminates_stmtDraft (s : Stmt) :
    (S.stmtDraft s).Terminates (s.simple.map S.sentence) := by
  cases s with
  | expr value => exact S.terminates_toStmt (.expr value)
  | block ss => exact .block (terminates_linesDraft ss)
  | declare typeName name initializer =>
    exact S.terminates_toStmt (.declare typeName name initializer)
  | method s ss =>
    exact .append (.append (.line _) S.terminates_gap) (.block (terminates_linesDraft ss))
  | conditional condition b rest =>
    have hb := S.terminates_bodyDraft (terminates_stmtDraft b) b
    rw [Stmt.simple, List.map_append]
    exact .append (.append (.line _) hb) (terminates_elseDraft rest)
  | forLoop initializer condition step b =>
    have hheader := S.terminates_headerDraft initializer
    have hb := S.terminates_bodyDraft (terminates_stmtDraft b) b
    exact .append (.append (.append (.line _) hheader) (.line _)) hb
  | forEach item iterable b | whileLoop condition b =>
    have hb := S.terminates_bodyDraft (terminates_stmtDraft b) b
    exact .append (.line _) hb
  | breakLoop => exact S.terminates_toStmt .breakLoop
  | continueLoop => exact S.terminates_toStmt .continueLoop
  | ret value => exact S.terminates_toStmt (.ret value)
  | guarded ss cs final =>
    have htried : Draft.Terminates (.line S.tried ++ S.gap) [] :=
      .append (.line _) S.terminates_gap
    have hbody := htried.append (.block (terminates_linesDraft ss))
    rw [Stmt.simple, List.map_append, List.map_append]
    exact .append (.append hbody (terminates_catchesDraft cs)) (terminates_finallyDraft final)
termination_by structural s

theorem terminates_elseDraft (r : Else) :
    (S.elseDraft r).Terminates (r.simple.map S.sentence) := by
  cases r with
  | absent => exact .empty
  | elseIf condition b rest =>
    have hb := S.terminates_bodyDraft (terminates_stmtDraft b) b
    rw [Else.simple, List.map_append]
    exact .append (.append (.append S.terminates_gap (.line _)) hb) (terminates_elseDraft rest)
  | block ss => exact .append (S.terminates_between _) (.block (terminates_linesDraft ss))
termination_by structural r

theorem terminates_catchDraft (c : Catch) :
    (S.catchDraft c).Terminates (c.simple.map S.sentence) := by
  obtain ⟨typeName, ss⟩ := c
  exact .append (S.terminates_between _) (.block (terminates_linesDraft ss))
termination_by structural c

theorem terminates_catchesDraft (cs : List Catch) :
    (S.catchesDraft cs).Terminates ((Catch.allSimple cs).map S.sentence) := by
  cases cs with
  | nil => exact .empty
  | cons c cs =>
    rw [Catch.allSimple, List.map_append]
    exact .append (terminates_catchDraft c) (terminates_catchesDraft cs)
termination_by structural cs

theorem terminates_finallyDraft (f : Option (List Stmt)) :
    (S.finallyDraft f).Terminates ((Stmt.optAllSimple f).map S.sentence) := by
  cases f with
  | none => exact .empty
  | some ss => exact .append (S.terminates_between _) (.block (terminates_linesDraft ss))
termination_by structural f

theorem terminates_linesDraft (ss : List Stmt) :
    (S.linesDraft ss).Terminates ((Stmt.allSimple ss).map S.sentence) := by
  cases ss with
  | nil => exact .empty
  | cons s ss =>
    rw [Stmt.allSimple, List.map_append]
    exact .append (.append .lineEnd (terminates_stmtDraft s)) (terminates_linesDraft ss)
termination_by structural ss

end

theorem terminates_nodeDraft (n : Node) :
    (S.nodeDraft n).Terminates (n.simple.map S.sentence) := by
  unfold nodeDraft
  split
  · next ss =>
    rw [Node.simple, Stmt.simple, Stmt.allSimple_eq, List.map_flatMap]
    exact .row (fun s => (S.terminates_stmtDraft s).append_lineEnd) ss
  · exact (S.terminates_stmtDraft _).append_lineEnd
  · exact .line _

theorem punctuated_layOut (width : Nat) {n : Node}
    (h : ∀ e, .expr e ∈ n.simple → layOut ⟨width, none⟩ (S.printer.expr e) ≠ "") :
    Punctuated (n.simple.map S.sentence)
      (layOut ⟨width, some false⟩ (S.printer.node false n)).toList
      (layOut ⟨width, some true⟩ (S.printer.node true n)).toList := by
  have hne : ∀ t ∈ n.simple.map S.sentence, t ≠ [] := by
    intro t ht
    obtain ⟨s, hs, rfl⟩ := List.mem_map.mp ht
    refine S.sentence_ne_nil fun e he hnil => h e (he ▸ hs) (String.toList_inj.mp ?_)
    exact ((S.expr e).oneLine_trimmed.inline.toList_layOut _).trans
      ((S.expr e).lineOf_trimmed.trans hnil)
  rw [← S.trimmed_nodeDraft, ← S.trimmed_nodeDraft]
  exact (S.terminates_nodeDraft n).punctuated_layOut hne width

end Style

namespace CSharp

/-- The text of a simple statement, without a terminator. -/
def sentence (s : SimpleStmt) : List Char := lineOf (stmt false s.toStmt)

theorem sentence_style : style.sentence = sentence := by
  funext s
  rw [sentence, ← stmt_printer, ← printer_style, style.lineOf_stmt]

end CSharp

namespace PowerShell

/-- The text of a simple statement, without a terminator. -/
def sentence (s : SimpleStmt) : List Char := lineOf (stmt false s.toStmt)

theorem sentence_style : style.sentence = sentence := by
  funext s
  rw [sentence, ← stmt_printer, ← printer_style, style.lineOf_stmt]

end PowerShell

/-- Terminators put a semicolon right behind each simple statement outside of the headers of loops
and change nothing else, in each language where no such statement is an expression without text. C#
is written with terminators if nothing is said of them, and PowerShell is written without. -/
theorem Node.terminators_inserted (width : Nat) (n : Node) :
    ((∀ e, .expr e ∈ n.simple → CSharp.render ⟨width, none⟩ (.expr e) ≠ "") →
        Punctuated (n.simple.map CSharp.sentence) (CSharp.render ⟨width, some false⟩ n).toList
          (CSharp.render ⟨width, some true⟩ n).toList) ∧
      ((∀ e, .expr e ∈ n.simple → PowerShell.render ⟨width, none⟩ (.expr e) ≠ "") →
        Punctuated (n.simple.map PowerShell.sentence)
          (PowerShell.render ⟨width, some false⟩ n).toList
          (PowerShell.render ⟨width, some true⟩ n).toList) ∧
      CSharp.render ⟨width, none⟩ n = CSharp.render ⟨width, some true⟩ n ∧
      PowerShell.render ⟨width, none⟩ n = PowerShell.render ⟨width, some false⟩ n := by
  have hcsharp := CSharp.style.punctuated_layOut width (n := n)
  simp only [CSharp.printer_style, CSharp.node_printer, CSharp.sentence_style] at hcsharp
  have hpowershell := PowerShell.style.punctuated_layOut width (n := n)
  simp only [PowerShell.printer_style, PowerShell.node_printer, PowerShell.sentence_style]
    at hpowershell
  exact ⟨hcsharp, hpowershell, rfl, rfl⟩

/-- A loop in the header of a loop has a statement in its body that is not terminated. -/
theorem Node.loop_in_header_terminated :
    let n : Node := .stmt (.forLoop (some (.whileLoop (.identifier "a") .breakLoop)) none none
      (.block [.expr (.identifier "x"), .ret none]))
    ((∀ e, .expr e ∈ n.simple → CSharp.render ⟨2, none⟩ (.expr e) ≠ "") ∧
        ∀ e, .expr e ∈ n.simple → PowerShell.render ⟨2, none⟩ (.expr e) ≠ "") ∧
      Punctuated ["x".toList, "return".toList] (CSharp.render ⟨2, some false⟩ n).toList
          (CSharp.render ⟨2, some true⟩ n).toList ∧
        Punctuated ["$x".toList, "return".toList] (PowerShell.render ⟨2, some false⟩ n).toList
          (PowerShell.render ⟨2, some true⟩ n).toList := by
  intro n
  have hexpr (e : Expr) (he : .expr e ∈ n.simple) : e = .identifier "x" := by
    simpa [n, Node.simple, Stmt.simple, Stmt.allSimple] using he
  have hcsharp : ∀ e, .expr e ∈ n.simple → CSharp.render ⟨2, none⟩ (.expr e) ≠ "" := by
    intro e he
    rw [hexpr e he]
    decide
  have hpowershell : ∀ e, .expr e ∈ n.simple → PowerShell.render ⟨2, none⟩ (.expr e) ≠ "" := by
    intro e he
    rw [hexpr e he]
    decide
  obtain ⟨hc, hp, -, -⟩ := Node.terminators_inserted 2 n
  exact ⟨⟨hcsharp, hpowershell⟩, hc hcsharp, hp hpowershell⟩

end Interlingua
