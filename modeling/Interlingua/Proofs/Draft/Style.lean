import Interlingua.Proofs.Draft.Basic
import Interlingua.Proofs.Printer

namespace Interlingua

/-- The lines that a language writes around the blocks in a statement. -/
structure Style where
  expr : Expr → Line
  declaration (typeName name : String) : Line
  signature : Signature → Line
  each (item : String) : Line
  headEnd : Line
  tried : Line
  elseIf : Line
  otherwise : Line
  caught (typeName : Option String) : Line
  final : Line
  /-- Whether an opening brace, and what follows a closing one, begins a line. -/
  braceBeginsLine : Bool

namespace Style

variable (S : Style)

def gap : Draft := if S.braceBeginsLine then .lineEnd else .empty

def gapSteps : List Step := if S.braceBeginsLine then [.newline] else []

/-- The parts as the printer writes them, the last separator of each list taken back. -/
def printer : Printer where
  expr e := (S.expr e).trimmed
  declaration typeName name := (S.declaration typeName name).trimmed
  signature s := (S.signature s).trimmed ++ S.gapSteps
  each item := (S.each item).trimmed
  headEnd := S.headEnd.trimmed
  gap := S.gapSteps
  tried := S.tried.trimmed ++ S.gapSteps
  elseIf := S.gapSteps ++ S.elseIf.trimmed
  otherwise := S.gapSteps ++ S.otherwise.trimmed ++ S.gapSteps
  caught typeName := S.gapSteps ++ (S.caught typeName).trimmed ++ S.gapSteps
  final := S.gapSteps ++ S.final.trimmed ++ S.gapSteps

/-- A body, in braces also when it is a single statement. -/
def bodyDraft (statement : Stmt) (written : Draft) : Draft :=
  match statement with
  | .block _ => S.gap ++ written
  | _ => S.gap ++ .block (.lineEnd ++ written)

mutual

def stmtDraft : Stmt → Draft
  | .expr value => .line (S.expr value) ++ .terminator
  | .block ss => .block (linesDraft ss)
  | .declare typeName name initializer =>
    .line (S.declaration typeName name ++ .text " = " ++ S.expr initializer) ++ .terminator
  | .method s ss => .line (S.signature s) ++ S.gap ++ .block (linesDraft ss)
  | .conditional condition b rest =>
    .line (.text "if (" ++ S.expr condition ++ S.headEnd) ++ S.bodyDraft b (stmtDraft b) ++
      elseDraft rest
  | .forLoop initializer condition step b =>
    .line (.text "for (") ++ headerDraft initializer ++
      .line (.text "; " ++ (condition.map S.expr).getD .empty ++ .text "; " ++
        (step.map S.expr).getD .empty ++ S.headEnd) ++
      S.bodyDraft b (stmtDraft b)
  | .forEach item iterable b =>
    .line (S.each item ++ S.expr iterable ++ S.headEnd) ++ S.bodyDraft b (stmtDraft b)
  | .whileLoop condition b =>
    .line (.text "while (" ++ S.expr condition ++ S.headEnd) ++ S.bodyDraft b (stmtDraft b)
  | .breakLoop => .line (.text "break") ++ .terminator
  | .continueLoop => .line (.text "continue") ++ .terminator
  | .ret value =>
    .line (.text "return" ++ (value.map fun e => .text " " ++ S.expr e).getD .empty) ++
      .terminator
  | .guarded ss cs final =>
    .line S.tried ++ S.gap ++ .block (linesDraft ss) ++ catchesDraft cs ++ finallyDraft final
termination_by structural s => s

def headerDraft : Option Stmt → Draft
  | some s => .unterminated (stmtDraft s)
  | none => .empty
termination_by structural s => s

def elseDraft : Else → Draft
  | .absent => .empty
  | .elseIf condition b rest =>
    S.gap ++ .line (S.elseIf ++ S.expr condition ++ S.headEnd) ++ S.bodyDraft b (stmtDraft b) ++
      elseDraft rest
  | .block ss => S.gap ++ .line S.otherwise ++ S.gap ++ .block (linesDraft ss)
termination_by structural r => r

def catchDraft : Catch → Draft
  | ⟨typeName, ss⟩ => S.gap ++ .line (S.caught typeName) ++ S.gap ++ .block (linesDraft ss)
termination_by structural c => c

def catchesDraft : List Catch → Draft
  | [] => .empty
  | c :: cs => catchDraft c ++ catchesDraft cs
termination_by structural cs => cs

def finallyDraft : Option (List Stmt) → Draft
  | some ss => S.gap ++ .line S.final ++ S.gap ++ .block (linesDraft ss)
  | none => .empty
termination_by structural f => f

def linesDraft : List Stmt → Draft
  | [] => .empty
  | s :: ss => .lineEnd ++ stmtDraft s ++ linesDraft ss
termination_by structural ss => ss

end

def nodeDraft : Node → Draft
  | .stmt (.block ss) => .row (ss.map fun s => S.stmtDraft s ++ .lineEnd)
  | .stmt s => S.stmtDraft s ++ .lineEnd
  | .expr e => .line (S.expr e)

@[simp]
theorem steps_gap (ended : Bool) : S.gap.steps Line.trimmed ended = S.gapSteps := by
  unfold gap gapSteps
  split <;> rfl

theorem trimmed_bodyDraft {d : Draft} {written : List Step} {ended : Bool}
    (h : d.trimmed ended = written) (b : Stmt) :
    (S.bodyDraft b d).trimmed ended = S.printer.body b written := by
  subst h
  unfold bodyDraft Printer.body
  split <;> simp [Draft.steps, printer]

theorem trimmed_mapExpr (e : Option Expr) :
    ((e.map S.expr).getD .empty).trimmed = (e.map S.printer.expr).getD [] := by
  cases e <;> rfl

mutual

theorem trimmed_stmtDraft (ended : Bool) (s : Stmt) :
    (S.stmtDraft s).trimmed ended = S.printer.stmt ended s := by
  cases s with
  | expr value => rfl
  | block ss => simp [stmtDraft, Printer.stmt, Draft.steps, trimmed_linesDraft ended ss]
  | declare typeName name initializer =>
    simp [stmtDraft, Printer.stmt, printer, Draft.steps, Line.trimmed, Printer.terminator]
  | method s ss =>
    simp [stmtDraft, Printer.stmt, printer, Draft.steps, trimmed_linesDraft ended ss]
  | conditional condition b rest =>
    have hb := S.trimmed_bodyDraft (trimmed_stmtDraft ended b) b
    simp [stmtDraft, Printer.stmt, printer, Draft.steps, Line.trimmed, hb,
      trimmed_elseDraft ended rest]
  | forLoop initializer condition step b =>
    have hb := S.trimmed_bodyDraft (trimmed_stmtDraft ended b) b
    simp [stmtDraft, Printer.stmt, printer, Draft.steps, Line.trimmed, trimmed_mapExpr, hb,
      trimmed_headerDraft ended initializer]
  | forEach item iterable b =>
    have hb := S.trimmed_bodyDraft (trimmed_stmtDraft ended b) b
    simp [stmtDraft, Printer.stmt, printer, Draft.steps, hb]
  | whileLoop condition b =>
    have hb := S.trimmed_bodyDraft (trimmed_stmtDraft ended b) b
    simp [stmtDraft, Printer.stmt, printer, Draft.steps, Line.trimmed, hb]
  | breakLoop | continueLoop => rfl
  | ret value => cases value <;> rfl
  | guarded ss cs final =>
    simp [stmtDraft, Printer.stmt, printer, Draft.steps, trimmed_linesDraft ended ss,
      trimmed_catchesDraft ended cs, trimmed_finallyDraft ended final]
termination_by structural s

theorem trimmed_headerDraft (ended : Bool) (s : Option Stmt) :
    (S.headerDraft s).trimmed ended = S.printer.header s := by
  cases s with
  | none => rfl
  | some s => exact trimmed_stmtDraft false s
termination_by structural s

theorem trimmed_elseDraft (ended : Bool) (r : Else) :
    (S.elseDraft r).trimmed ended = S.printer.elseBranch ended r := by
  cases r with
  | absent => rfl
  | elseIf condition b rest =>
    have hb := S.trimmed_bodyDraft (trimmed_stmtDraft ended b) b
    simp [elseDraft, Printer.elseBranch, printer, Draft.steps, hb, trimmed_elseDraft ended rest]
  | block ss =>
    simp [elseDraft, Printer.elseBranch, printer, Draft.steps, trimmed_linesDraft ended ss]
termination_by structural r

theorem trimmed_catchDraft (ended : Bool) (c : Catch) :
    (S.catchDraft c).trimmed ended = S.printer.catchClause ended c := by
  obtain ⟨typeName, ss⟩ := c
  simp [catchDraft, Printer.catchClause, printer, Draft.steps, trimmed_linesDraft ended ss]
termination_by structural c

theorem trimmed_catchesDraft (ended : Bool) (cs : List Catch) :
    (S.catchesDraft cs).trimmed ended = S.printer.catches ended cs := by
  cases cs with
  | nil => rfl
  | cons c cs =>
    simp [catchesDraft, Printer.catches, trimmed_catchDraft ended c,
      trimmed_catchesDraft ended cs]
termination_by structural cs

theorem trimmed_finallyDraft (ended : Bool) (f : Option (List Stmt)) :
    (S.finallyDraft f).trimmed ended = S.printer.finally? ended f := by
  cases f with
  | none => rfl
  | some ss =>
    simp [finallyDraft, Printer.finally?, printer, Draft.steps, trimmed_linesDraft ended ss]
termination_by structural f

theorem trimmed_linesDraft (ended : Bool) (ss : List Stmt) :
    (S.linesDraft ss).trimmed ended = S.printer.lines ended ss := by
  cases ss with
  | nil => rfl
  | cons s ss =>
    simp [linesDraft, Printer.lines, Draft.steps, trimmed_stmtDraft ended s,
      trimmed_linesDraft ended ss]
termination_by structural ss

end

/-- Drafts, with the last separator of each list taken back, are what the printer writes. -/
theorem trimmed_nodeDraft (ended : Bool) (n : Node) :
    (S.nodeDraft n).trimmed ended = S.printer.node ended n := by
  unfold nodeDraft Printer.node
  split
  · simp [Draft.steps_row, List.flatMap_map, trimmed_stmtDraft, Draft.steps]
  · simp [trimmed_stmtDraft, Draft.steps]
  · rfl

end Style

end Interlingua
