import Interlingua.Proofs.Draft.Style

namespace Interlingua.PowerShell

mutual

def exprLine : Expr → Line
  | .literal source => .text source
  | .string value => .text (String.ofList (stringLiteral value))
  | .template body => .text (String.ofList (expandable body))
  | .identifier name => .text "$" ++ .text name
  | .binary left op right =>
    exprLine left ++ .text " " ++ .text (binarySpelling op) ++ .text " " ++ exprLine right
  | .before op operand => .text (unarySpelling op) ++ exprLine operand
  | .after op operand => exprLine operand ++ .text (unarySpelling op)
  | .cast typeName operand => .text "[" ++ .text typeName ++ .text "]" ++ exprLine operand
  | .grouped inner => .text "(" ++ exprLine inner ++ .text ")"
  | .member target name isStatic =>
    (match target, isStatic with
      | .identifier typeName, true => .text "[" ++ .text typeName ++ .text "]::"
      | _, true => exprLine target ++ .text "::"
      | _, false => exprLine target ++ .text ".") ++
      .text name
  | .element target index => exprLine target ++ .listed .square (valueLines index) ++ .text "]"
  | .call callee passed =>
    match callee with
    | .identifier command => .text command ++ commandLine passed
    | .member .. => exprLine callee ++ .listed .round (valueLines passed) ++ .text ")"
    | _ => .text "& " ++ exprLine callee ++ commandLine passed
  | .create typeName passed =>
    .text "[" ++ .text typeName ++ .listed { text := "]::new(" } (valueLines passed) ++ .text ")"
  | .array elementType elements =>
    (match elementType with
      | some name => .text "[" ++ .text name ++ .text "[]]"
      | none => .empty) ++
      .listed { text := "@(" } (exprLines elements) ++ .text ")"
  | .assign target op value =>
    exprLine target ++ .text " " ++
      (match op with
        | some op => .text (binarySpelling op)
        | none => .empty) ++
      .text "= " ++ exprLine value
termination_by structural e => e

def valueLine? : Argument → Option Line
  | ⟨_, value⟩ => optExprLine value
termination_by structural a => a

def optExprLine : Option Expr → Option Line
  | some e => some (exprLine e)
  | none => none
termination_by structural e => e

def valueLines : List Argument → List Line
  | [] => []
  | a :: as =>
    match valueLine? a with
    | some line => line :: valueLines as
    | none => valueLines as
termination_by structural as => as

def exprLines : List Expr → List Line
  | [] => []
  | e :: es => exprLine e :: exprLines es
termination_by structural es => es

def commandValueLine : Option Expr → Line
  | some e =>
    .text " " ++
      (if isSimpleArgument e then exprLine e else .text "(" ++ exprLine e ++ .text ")")
  | none => .empty
termination_by structural e => e

def commandArgumentLine : Argument → Line
  | ⟨name, value⟩ =>
    (match name with
      | some name => .text " -" ++ .text name
      | none => .empty) ++
      commandValueLine value
termination_by structural a => a

def commandLine : List Argument → Line
  | [] => .empty
  | a :: as => commandArgumentLine a ++ commandLine as
termination_by structural as => as

end

mutual

theorem trimmed_exprLine (e : Expr) : (exprLine e).trimmed = expr e := by
  cases e with
  | literal text | string text | template text | identifier text => rfl
  | binary left op right =>
    simp [exprLine, expr, Line.trimmed, trimmed_exprLine left, trimmed_exprLine right]
  | before op operand | after op operand | cast name operand | grouped operand =>
    simp [exprLine, expr, Line.trimmed, trimmed_exprLine operand]
  | member target name isStatic =>
    have h := trimmed_exprLine target
    rw [exprLine.eq_def, expr.eq_def]
    cases target <;> cases isStatic <;> simp [Line.trimmed, h]
  | element target index =>
    simp [exprLine, expr, Line.trimmed, trimmed_exprLine target, allTrimmed_valueLines index]
  | call callee passed =>
    have hc := trimmed_exprLine callee
    have hv := allTrimmed_valueLines passed
    have ha := trimmed_commandLine passed
    rw [exprLine.eq_def, expr.eq_def]
    cases callee <;> simp [Line.trimmed, hc, hv, ha]
  | create typeName passed =>
    simp [exprLine, expr, Line.trimmed, allTrimmed_valueLines passed]
  | array elementType elements =>
    cases elementType <;> simp [exprLine, expr, Line.trimmed, allTrimmed_exprLines elements]
  | assign target op value =>
    cases op <;>
      simp [exprLine, expr, Line.trimmed, trimmed_exprLine target, trimmed_exprLine value]
termination_by structural e

theorem trimmed_valueLine? (a : Argument) : (valueLine? a).map Line.trimmed = value? a := by
  obtain ⟨name, value⟩ := a
  exact trimmed_optExprLine value
termination_by structural a

theorem trimmed_optExprLine (e : Option Expr) :
    (optExprLine e).map Line.trimmed = optExpr e := by
  cases e with
  | none => rfl
  | some e => exact congrArg some (trimmed_exprLine e)
termination_by structural e

theorem allTrimmed_valueLines (as : List Argument) :
    Line.allTrimmed (valueLines as) = values as := by
  cases as with
  | nil => rfl
  | cons a as =>
    rw [valueLines, values, ← trimmed_valueLine? a]
    cases valueLine? a with
    | none => exact allTrimmed_valueLines as
    | some line => exact congrArg (line.trimmed :: ·) (allTrimmed_valueLines as)
termination_by structural as

theorem allTrimmed_exprLines (es : List Expr) : Line.allTrimmed (exprLines es) = exprs es := by
  cases es with
  | nil => rfl
  | cons e es =>
    rw [exprLines, Line.allTrimmed, exprs, trimmed_exprLine e, allTrimmed_exprLines es]
termination_by structural es

theorem trimmed_commandValueLine (v : Option Expr) :
    (commandValueLine v).trimmed = commandValue v := by
  cases v with
  | none => rfl
  | some e =>
    have h := trimmed_exprLine e
    rw [commandValueLine, commandValue]
    split <;> simp [Line.trimmed, h]
termination_by structural v

theorem trimmed_commandArgumentLine (a : Argument) :
    (commandArgumentLine a).trimmed = commandArgument a := by
  obtain ⟨name, value⟩ := a
  have h := trimmed_commandValueLine value
  cases name <;> simp [commandArgumentLine, commandArgument, Line.trimmed, h]
termination_by structural a

theorem trimmed_commandLine (as : List Argument) :
    (commandLine as).trimmed = commandArguments as := by
  cases as with
  | nil => rfl
  | cons a as =>
    simp [commandLine, commandArguments, trimmed_commandArgumentLine a, trimmed_commandLine as]
termination_by structural as

end

def parameterLine (p : Parameter) : Line :=
  (match p.typeName with
    | some typeName => .text "[" ++ .text typeName ++ .text "]"
    | none => .empty) ++
    .text "$" ++ .text p.name

def signatureLine (s : Signature) : Line :=
  .text "function " ++ .text s.name ++ .listed .round (s.parameters.map parameterLine) ++ .text ") "

theorem trimmed_signatureLine (s : Signature) : (signatureLine s).trimmed = signature s := by
  simp only [signatureLine, signature, Line.trimmed_append, Line.trimmed, Line.allTrimmed_eq,
    Opening.text_round, List.map_map, List.cons_append, List.nil_append, List.cons.injEq,
    List.append_cancel_right_eq, true_and]
  refine congrArg (Step.separated ", ") (List.map_congr_left fun p _ => ?_)
  unfold Function.comp parameterLine
  cases p.typeName <;> rfl

/-- Braces stand on the line of what they belong to. -/
def style : Style where
  expr := exprLine
  declaration typeName name := .text "[" ++ .text typeName ++ .text "]$" ++ .text name
  signature := signatureLine
  each item := .text "foreach ($" ++ .text item ++ .text " in "
  headEnd := .text ") "
  tried := .text "try "
  elseIf := .text " elseif ("
  otherwise := .text " else "
  caught typeName :=
    .text " catch " ++
      match typeName with
      | some name => .text "[" ++ .text name ++ .text "] "
      | none => .empty
  final := .text " finally "
  braceBeginsLine := false

theorem printer_style : style.printer = printer := by
  refine Printer.ext (funext trimmed_exprLine) rfl (funext fun s => ?_) rfl rfl rfl rfl rfl rfl
    (funext fun typeName => ?_) rfl
  · exact (List.append_nil _).trans (trimmed_signatureLine s)
  · cases typeName <;> rfl

def stmtDraft : Stmt → Draft := style.stmtDraft

def nodeDraft : Node → Draft := style.nodeDraft

theorem trimmed_stmtDraft (ended : Bool) (s : Stmt) :
    (stmtDraft s).trimmed ended = stmt ended s := by
  rw [stmtDraft, style.trimmed_stmtDraft, printer_style, stmt_printer]

theorem trimmed_nodeDraft (ended : Bool) (n : Node) :
    (nodeDraft n).trimmed ended = node ended n := by
  rw [nodeDraft, style.trimmed_nodeDraft, printer_style, node_printer]

end Interlingua.PowerShell
