import Interlingua.Proofs.Draft.Style

namespace Interlingua.CSharp

mutual

def exprLine : Expr → Line
  | .literal source => .text source
  | .string value => .text (String.ofList (stringLiteral value))
  | .template body => .text (String.ofList (interpolated body))
  | .identifier name => .text name
  | .binary left op right =>
    exprLine left ++ .text " " ++ .text (binarySpelling op) ++ .text " " ++ exprLine right
  | .before op operand => .text (unarySpelling op) ++ exprLine operand
  | .after op operand => exprLine operand ++ .text (unarySpelling op)
  | .cast typeName operand => .text "(" ++ .text typeName ++ .text ")" ++ exprLine operand
  | .grouped inner => .text "(" ++ exprLine inner ++ .text ")"
  | .member target name _ => exprLine target ++ .text "." ++ .text name
  | .element target index => exprLine target ++ .listed .square (argumentLines index) ++ .text "]"
  | .call callee passed => exprLine callee ++ .listed .round (argumentLines passed) ++ .text ")"
  | .create typeName passed =>
    .text "new " ++ .text typeName ++ .listed .round (argumentLines passed) ++ .text ")"
  | .array (some name) elements =>
    .text "new " ++ .text name ++ .spaced { text := "[] \x7b" } (exprLines elements) ++
      .text " \x7d"
  | .array none [] => .spaced { text := "new object[] \x7b" } [] ++ .text " \x7d"
  | .array none (e :: es) =>
    .spaced { text := "new[] \x7b" } (exprLine e :: exprLines es) ++ .text " \x7d"
  | .assign target op value =>
    exprLine target ++ .text " " ++
      (match op with
        | some op => .text (binarySpelling op)
        | none => .empty) ++
      .text "= " ++ exprLine value
termination_by structural e => e

def argumentLine : Argument → Line
  | ⟨name, value⟩ =>
    (match name with
      | some name => .text name ++ .text ": "
      | none => .empty) ++
      valueLine value
termination_by structural a => a

def valueLine : Option Expr → Line
  | some value => exprLine value
  | none => .text "true"
termination_by structural v => v

def argumentLines : List Argument → List Line
  | [] => []
  | a :: as => argumentLine a :: argumentLines as
termination_by structural as => as

def exprLines : List Expr → List Line
  | [] => []
  | e :: es => exprLine e :: exprLines es
termination_by structural es => es

end

mutual

theorem trimmed_exprLine (e : Expr) : (exprLine e).trimmed = expr e := by
  cases e with
  | literal text | string text | template text | identifier text => rfl
  | binary left op right =>
    simp [exprLine, expr, Line.trimmed, trimmed_exprLine left, trimmed_exprLine right]
  | before op operand | after op operand | cast name operand | grouped operand
  | member operand name isStatic =>
    simp [exprLine, expr, Line.trimmed, trimmed_exprLine operand]
  | element target passed | call target passed =>
    simp [exprLine, expr, Line.trimmed, trimmed_exprLine target, allTrimmed_argumentLines passed]
  | create typeName passed =>
    simp [exprLine, expr, Line.trimmed, allTrimmed_argumentLines passed]
  | array elementType elements =>
    have helements := allTrimmed_exprLines elements
    cases elementType with
    | some name => simp [exprLine, expr, Line.trimmed, helements]
    | none =>
      cases elements with
      | nil => rfl
      | cons e es =>
        rw [exprLines] at helements
        simp [exprLine, expr, Line.trimmed, helements]
  | assign target op value =>
    cases op <;>
      simp [exprLine, expr, Line.trimmed, trimmed_exprLine target, trimmed_exprLine value]
termination_by structural e

theorem trimmed_argumentLine (a : Argument) : (argumentLine a).trimmed = argument a := by
  obtain ⟨name, value⟩ := a
  have h := trimmed_valueLine value
  cases name <;> simp [argumentLine, argument, Line.trimmed, h]
termination_by structural a

theorem trimmed_valueLine (v : Option Expr) : (valueLine v).trimmed = argumentValue v := by
  cases v with
  | none => rfl
  | some e => exact trimmed_exprLine e
termination_by structural v

theorem allTrimmed_argumentLines (as : List Argument) :
    Line.allTrimmed (argumentLines as) = arguments as := by
  cases as with
  | nil => rfl
  | cons a as =>
    rw [argumentLines, Line.allTrimmed, arguments, trimmed_argumentLine a,
      allTrimmed_argumentLines as]
termination_by structural as

theorem allTrimmed_exprLines (es : List Expr) :
    (Line.allTrimmed (exprLines es)).map (.write " " :: ·) = spaced es := by
  cases es with
  | nil => rfl
  | cons e es =>
    rw [exprLines, Line.allTrimmed, spaced, List.map_cons, trimmed_exprLine e,
      allTrimmed_exprLines es]
termination_by structural es

end

def signatureLine (s : Signature) : Line :=
  .row (s.modifiers.map fun modifier => .text modifier ++ .text " ") ++
    .text "void " ++ .text s.name ++
    .listed .round (s.parameters.map fun p =>
      .text (p.typeName.getD "object") ++ .text " " ++ .text p.name) ++
    .text ")"

theorem trimmed_signatureLine (s : Signature) : (signatureLine s).trimmed = signature s := by
  simp [signatureLine, signature, Line.trimmed, Line.trimmed_row, Line.allTrimmed_eq,
    List.flatMap_map, Function.comp_def]

/-- Braces stand on lines of their own. -/
def style : Style where
  expr := exprLine
  declaration typeName name := .text typeName ++ .text " " ++ .text name
  signature := signatureLine
  each item := .text "foreach (var " ++ .text item ++ .text " in "
  headEnd := .text ")"
  tried := .text "try"
  elseIf := .text "else " ++ .text "if ("
  otherwise := .text "else"
  caught typeName :=
    .text "catch" ++
      match typeName with
      | some name => .text " (" ++ .text name ++ .text ")"
      | none => .empty
  final := .text "finally"
  braceBeginsLine := true

theorem printer_style : style.printer = printer := by
  refine Printer.ext (funext trimmed_exprLine) rfl (funext fun s => ?_) rfl rfl rfl rfl rfl rfl
    (funext fun typeName => ?_) rfl
  · exact congrArg (· ++ [.newline]) (trimmed_signatureLine s)
  · cases typeName <;> rfl

def stmtDraft : Stmt → Draft := style.stmtDraft

def nodeDraft : Node → Draft := style.nodeDraft

theorem trimmed_stmtDraft (ended : Bool) (s : Stmt) :
    (stmtDraft s).trimmed ended = stmt ended s := by
  rw [stmtDraft, style.trimmed_stmtDraft, printer_style, stmt_printer]

theorem trimmed_nodeDraft (ended : Bool) (n : Node) :
    (nodeDraft n).trimmed ended = node ended n := by
  rw [nodeDraft, style.trimmed_nodeDraft, printer_style, node_printer]

end Interlingua.CSharp
