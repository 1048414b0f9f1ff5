import Interlingua.Render.Page
import Interlingua.Template
import Interlingua.Tree.Stmt

namespace Interlingua.PowerShell

open Step (separated braces)

def binarySpelling : BinaryOperator → String
  | .add => "+"
  | .subtract => "-"
  | .multiply => "*"
  | .divide => "/"
  | .modulo => "%"
  | .equal => "-eq"
  | .notEqual => "-ne"
  | .lessThan => "-lt"
  | .lessThanOrEqual => "-le"
  | .greaterThan => "-gt"
  | .greaterThanOrEqual => "-ge"
  | .and => "-and"
  | .or => "-or"
  | .exclusiveOr => "-xor"
  | .bitwiseAnd => "-band"
  | .bitwiseOr => "-bor"
  | .bitwiseXor => "-bxor"
  | .leftShift => "-shl"
  | .rightShift => "-shr"
  | .isType => "-is"
  | .asType => "-as"
  | .unknown => "<# unknown operator #>"

def unarySpelling : UnaryOperator → String
  | .increment => "++"
  | .decrement => "--"
  | .not => "-not "
  | .negate => "-"
  | .plus => "+"
  | .bitwiseNot => "-bnot "
  | .unknown => "<# unknown operator #> "

/-- A string in single quotes, where a quote inside is written twice. -/
def stringLiteral (value : String) : List Char :=
  '\'' :: value.toList.flatMap (fun c => if c = '\'' then ['\'', '\''] else [c]) ++ ['\'']

def escape : Char → List Char
  | '\x60' => ['\x60', '\x60']
  | '\"' => ['\x60', '\"']
  | '$' => ['\x60', '$']
  | '\n' => ['\x60', 'n']
  | '\r' => ['\x60', 'r']
  | '\t' => ['\x60', 't']
  | '\x00' => ['\x60', '0']
  | c => [c]

def reference (scope : Option String) (name : String) (braced : Bool) : List Char :=
  (if braced then ['$', '{'] else ['$']) ++
    (match scope with
      | some scope => scope.toList ++ [':']
      | none => []) ++
    name.toList ++ (if braced then ['}'] else [])

def part : Template.Part → List Char
  | .text text => text.toList.flatMap escape
  | .ref scope name braced => reference scope name braced
  | .expr source => '$' :: '(' :: source.toList ++ [')']

def expandable (template : String) : List Char :=
  '\"' :: (Template.parts template).flatMap part ++ ['\"']

def isSimpleArgument : Expr → Bool
  | .literal _ | .string _ | .template _ | .identifier _ | .grouped _ | .member .. | .element ..
  | .array .. => true
  | _ => false

mutual

/-- Identifiers are variables, except for the name of a command and the type of a static member. -/
def expr : Expr → List Step
  | .literal source => [.write source]
  | .string value => [.write (String.ofList (stringLiteral value))]
  | .template body => [.write (String.ofList (expandable body))]
  | .identifier name => [.write "$", .write name]
  | .binary left op right =>
    expr left ++ [.write " ", .write (binarySpelling op), .write " "] ++ expr right
  | .before op operand => .write (unarySpelling op) :: expr operand
  | .after op operand => expr operand ++ [.write (unarySpelling op)]
  | .cast typeName operand => [.write "[", .write typeName, .write "]"] ++ expr operand
  | .grouped inner => [.write "("] ++ expr inner ++ [.write ")"]
  | .member target name isStatic =>
    (match target, isStatic with
      | .identifier typeName, true => [.write "[", .write typeName, .write "]::"]
      | _, true => expr target ++ [.write "::"]
      | _, false => expr target ++ [.write "."]) ++
      [.write name]
  | .element target index =>
    expr target ++ [.write "["] ++ separated ", " (values index) ++ [.write "]"]
  | .call callee passed =>
    match callee with
    | .identifier command => .write command :: commandArguments passed
    | .member .. =>
      expr callee ++ [.write "("] ++ separated ", " (values passed) ++ [.write ")"]
    | _ => [.write "& "] ++ expr callee ++ commandArguments passed
  | .create typeName passed =>
    [.write "[", .write typeName, .write "]::new("] ++ separated ", " (values passed) ++
      [.write ")"]
  | .array elementType elements =>
    (match elementType with
      | some name => [.write "[", .write name, .write "[]]"]
      | none => []) ++
      [.write "@("] ++ separated ", " (exprs elements) ++ [.write ")"]
  | .assign target op value =>
    expr target ++ [.write " "] ++
      (match op with
        | some op => [.write (binarySpelling op)]
        | none => []) ++
      [.write "= "] ++ expr value
termination_by structural e => e

/-- The value of an argument in the syntax of methods, which has no spelling for names. -/
def value? : Argument → Option (List Step)
  | ⟨_, value⟩ => optExpr value
termination_by structural a => a

def optExpr : Option Expr → Option (List Step)
  | some e => some (expr e)
  | none => none
termination_by structural e => e

def values : List Argument → List (List Step)
  | [] => []
  | a :: as =>
    match value? a with
    | some written => written :: values as
    | none => values as
termination_by structural as => as

def exprs : List Expr → List (List Step)
  | [] => []
  | e :: es => expr e :: exprs es
termination_by structural es => es

/-- The value of an argument in the syntax of commands, where all but the simplest needs
parentheses. -/
def commandValue : Option Expr → List Step
  | some e =>
    .write " " ::
      (if isSimpleArgument e then expr e else [.write "("] ++ expr e ++ [.write ")"])
  | none => []
termination_by structural e => e

def commandArgument : Argument → List Step
  | ⟨name, value⟩ =>
    (match name with
      | some name => [.write " -", .write name]
      | none => []) ++
      commandValue value
termination_by structural a => a

def commandArguments : List Argument → List Step
  | [] => []
  | a :: as => commandArgument a ++ commandArguments as
termination_by structural as => as

end

def terminator (ended : Bool) : List Step := if ended then [.write ";"] else []

def signature (s : Signature) : List Step :=
  [.write "function ", .write s.name, .write "("] ++
    separated ", " (s.parameters.map fun p =>
      (match p.typeName with
        | some typeName => [.write "[", .write typeName, .write "]"]
        | none => []) ++
        [.write "$", .write p.name]) ++
    [.write ") "]

/-- A body, in braces also when it is a single statement. -/
def body (statement : Stmt) (written : List Step) : List Step :=
  match statement with
  | .block _ => written
  | _ => braces (.newline :: written)

mutual

def stmt (ended : Bool) : Stmt → List Step
  | .expr value => expr value ++ terminator ended
  | .block ss => braces (lines ended ss)
  | .declare typeName name initializer =>
    [.write "[", .write typeName, .write "]$", .write name, .write " = "] ++
      expr initializer ++ terminator ended
  | .method s ss => signature s ++ braces (lines ended ss)
  | .conditional condition b rest =>
    [.write "if ("] ++ expr condition ++ [.write ") "] ++ body b (stmt ended b) ++
      elseBranch ended rest
  | .forLoop initializer condition step b =>
    [.write "for ("] ++ header initializer ++ [.write "; "] ++
      (condition.map expr).getD [] ++ [.write "; "] ++ (step.map expr).getD [] ++
      [.write ") "] ++ body b (stmt ended b)
  | .forEach item iterable b =>
    [.write "foreach ($", .write item, .write " in "] ++ expr iterable ++ [.write ") "] ++
      body b (stmt ended b)
  | .whileLoop condition b =>
    [.write "while ("] ++ expr condition ++ [.write ") "] ++ body b (stmt ended b)
  | .breakLoop => .write "break" :: terminator ended
  | .continueLoop => .write "continue" :: terminator ended
  | .ret value =>
    .write "return" :: (value.map fun e => .write " " :: expr e).getD [] ++ terminator ended
  | .guarded ss cs final =>
    .write "try " :: braces (lines ended ss) ++ catches ended cs ++ finally? ended final
termination_by structural s => s

/-- The first part of a loop header, which supplies its own separators. -/
def header : Option Stmt → List Step
  | some s => stmt false s
  | none => []
termination_by structural s => s

def elseBranch (ended : Bool) : Else → List Step
  | .absent => []
  | .elseIf condition b rest =>
    [.write " elseif ("] ++ expr condition ++ [.write ") "] ++ body b (stmt ended b) ++
      elseBranch ended rest
  | .block ss => .write " else " :: braces (lines ended ss)
termination_by structural r => r

def catchClause (ended : Bool) : Catch → List Step
  | ⟨typeName, ss⟩ =>
    .write " catch " ::
      (match typeName with
        | some name => [.write "[", .write name, .write "] "]
        | none => []) ++
      braces (lines ended ss)
termination_by structural c => c

def catches (ended : Bool) : List Catch → List Step
  | [] => []
  | c :: cs => catchClause ended c ++ catches ended cs
termination_by structural cs => cs

def finally? (ended : Bool) : Option (List Stmt) → List Step
  | some ss => .write " finally " :: braces (lines ended ss)
  | none => []
termination_by structural f => f

def lines (ended : Bool) : List Stmt → List Step
  | [] => []
  | s :: ss => .newline :: stmt ended s ++ lines ended ss
termination_by structural ss => ss

end

def node (ended : Bool) : Node → List Step
  | .stmt (.block ss) => ss.flatMap fun s => stmt ended s ++ [.newline]
  | .stmt s => stmt ended s ++ [.newline]
  | .expr e => expr e

/-- Statements are not terminated unless the layout says so. -/
def render (layout : Layout) (n : Node) : String :=
  layOut layout (node (layout.terminate.getD false) n)

end Interlingua.PowerShell
