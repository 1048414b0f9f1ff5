import Interlingua.Render.Page
import Interlingua.Template
import Interlingua.Tree.Stmt

namespace Interlingua.CSharp

open Step (separated braces)

def binarySpelling : BinaryOperator → String
  | .add => "+"
  | .subtract => "-"
  | .multiply => "*"
  | .divide => "/"
  | .modulo => "%"
  | .equal => "=="
  | .notEqual => "!="
  | .lessThan => "<"
  | .lessThanOrEqual => "<="
  | .greaterThan => ">"
  | .greaterThanOrEqual => ">="
  | .and => "&&"
  | .or => "||"
  | .exclusiveOr => "^"
  | .bitwiseAnd => "&"
  | .bitwiseOr => "|"
  | .bitwiseXor => "^"
  | .leftShift => "<<"
  | .rightShift => ">>"
  | .isType => "is"
  | .asType => "as"
  | .unknown => "/* unknown operator */"

def unarySpelling : UnaryOperator → String
  | .increment => "++"
  | .decrement => "--"
  | .not => "!"
  | .negate => "-"
  | .plus => "+"
  | .bitwiseNot => "~"
  | .unknown => "/* unknown operator */ "

def escape : Char → List Char
  | '\\' => ['\\', '\\']
  | '\"' => ['\\', '\"']
  | '\n' => ['\\', 'n']
  | '\r' => ['\\', 'r']
  | '\t' => ['\\', 't']
  | c => [c]

def stringLiteral (value : String) : List Char :=
  '\"' :: value.toList.flatMap escape ++ ['\"']

def escapeInterpolated : Char → List Char
  | '{' => ['{', '{']
  | '}' => ['}', '}']
  | '\x00' => ['\\', '0']
  | c => escape c

def hole (source : List Char) : List Char := '{' :: source ++ ['}']

/-- The scopes of variables that are plain variables here. -/
def plainScopes : List String := ["global", "local", "script", "private", "using"]

/-- A variable inside an interpolated string. The environment has a call of its own; what other
providers hold has no value here and stays text. -/
def variableHole (scope : Option String) (name : String) : List Char :=
  match scope with
  | none => hole name.toList
  | some scope =>
    if plainScopes.any (Text.sameName · scope) then hole name.toList
    else if Text.sameName "env" scope then
      hole ("Environment.GetEnvironmentVariable(\"".toList ++ name.toList ++ "\")".toList)
    else ('$' :: scope.toList ++ ':' :: name.toList).flatMap escapeInterpolated

def part : Template.Part → List Char
  | .text text => text.toList.flatMap escapeInterpolated
  | .ref scope name _ => variableHole scope name
  | .expr source => hole (source.toList.filter (· ≠ '$'))

def interpolated (template : String) : List Char :=
  '$' :: '\"' :: (Template.parts template).flatMap part ++ ['\"']

mutual

def expr : Expr → List Step
  | .literal source => [.write source]
  | .string value => [.write (String.ofList (stringLiteral value))]
  | .template body => [.write (String.ofList (interpolated body))]
  | .identifier name => [.write name]
  | .binary left op right =>
    expr left ++ [.write " ", .write (binarySpelling op), .write " "] ++ expr right
  | .before op operand => .write (unarySpelling op) :: expr operand
  | .after op operand => expr operand ++ [.write (unarySpelling op)]
  | .cast typeName operand => [.write "(", .write typeName, .write ")"] ++ expr operand
  | .grouped inner => [.write "("] ++ expr inner ++ [.write ")"]
  | .member target name _ => expr target ++ [.write ".", .write name]
  | .element target index =>
    expr target ++ [.write "["] ++ separated ", " (arguments index) ++ [.write "]"]
  | .call callee passed =>
    expr callee ++ [.write "("] ++ separated ", " (arguments passed) ++ [.write ")"]
  | .create typeName passed =>
    [.write "new ", .write typeName, .write "("] ++ separated ", " (arguments passed) ++
      [.write ")"]
  | .array elementType elements =>
    -- An empty array has nothing to infer its element type from.
    (match elementType, elements with
      | some name, _ => [.write "new ", .write name, .write "[] \x7b"]
      | none, [] => [.write "new object[] \x7b"]
      | none, _ => [.write "new[] \x7b"]) ++
      separated "," (spaced elements) ++ [.write " \x7d"]
  | .assign target op value =>
    expr target ++ [.write " "] ++
      (match op with
        | some op => [.write (binarySpelling op)]
        | none => []) ++
      [.write "= "] ++ expr value
termination_by structural e => e

def argument : Argument → List Step
  | ⟨name, value⟩ =>
    (match name with
      | some name => [.write name, .write ": "]
      | none => []) ++
      argumentValue value
termination_by structural a => a

/-- A switch is on when it is there. -/
def argumentValue : Option Expr → List Step
  | some value => expr value
  | none => [.write "true"]
termination_by structural v => v

def arguments : List Argument → List (List Step)
  | [] => []
  | a :: as => argument a :: arguments as
termination_by structural as => as

def spaced : List Expr → List (List Step)
  | [] => []
  | e :: es => (.write " " :: expr e) :: spaced es
termination_by structural es => es

end

def terminator (ended : Bool) : List Step := if ended then [.write ";"] else []

def signature (s : Signature) : List Step :=
  s.modifiers.flatMap (fun modifier => [.write modifier, .write " "]) ++
    [.write "void ", .write s.name, .write "("] ++
    separated ", " (s.parameters.map fun p =>
      [.write (p.typeName.getD "object"), .write " ", .write p.name]) ++
    [.write ")"]

/-- A body on its own lines, in braces also when it is a single statement. -/
def body (statement : Stmt) (written : List Step) : List Step :=
  match statement with
  | .block _ => .newline :: written
  | _ => .newline :: braces (.newline :: written)

mutual

/-- A statement, with a terminator when `ended`. -/
def stmt (ended : Bool) : Stmt → List Step
  | .expr value => expr value ++ terminator ended
  | .block ss => braces (lines ended ss)
  | .declare typeName name initializer =>
    [.write typeName, .write " ", .write name, .write " = "] ++ expr initializer ++
      terminator ended
  | .method s ss => signature s ++ [.newline] ++ braces (lines ended ss)
  | .conditional condition b rest =>
    [.write "if ("] ++ expr condition ++ [.write ")"] ++ body b (stmt ended b) ++
      elseBranch ended rest
  | .forLoop initializer condition step b =>
    [.write "for ("] ++ header initializer ++ [.write "; "] ++
      (condition.map expr).getD [] ++ [.write "; "] ++ (step.map expr).getD [] ++
      [.write ")"] ++ body b (stmt ended b)
  | .forEach item iterable b =>
    [.write "foreach (var ", .write item, .write " in "] ++ expr iterable ++ [.write ")"] ++
      body b (stmt ended b)
  | .whileLoop condition b =>
    [.write "while ("] ++ expr condition ++ [.write ")"] ++ body b (stmt ended b)
  | .breakLoop => .write "break" :: terminator ended
  | .continueLoop => .write "continue" :: terminator ended
  | .ret value =>
    .write "return" :: (value.map fun e => .write " " :: expr e).getD [] ++ terminator ended
  | .guarded ss cs final =>
    [.write "try", .newline] ++ braces (lines ended ss) ++ catches ended cs ++
      finally? ended final
termination_by structural s => s

/-- The first part of a loop header, which supplies its own separators. -/
def header : Option Stmt → List Step
  | some s => stmt false s
  | none => []
termination_by structural s => s

def elseBranch (ended : Bool) : Else → List Step
  | .absent => []
  | .elseIf condition b rest =>
    [.newline, .write "else ", .write "if ("] ++ expr condition ++ [.write ")"] ++
      body b (stmt ended b) ++ elseBranch ended rest
  | .block ss => [.newline, .write "else", .newline] ++ braces (lines ended ss)
termination_by structural r => r

def catchClause (ended : Bool) : Catch → List Step
  | ⟨typeName, ss⟩ =>
    [.newline, .write "catch"] ++
      (match typeName with
        | some name => [.write " (", .write name, .write ")"]
        | none => []) ++
      [.newline] ++ braces (lines ended ss)
termination_by structural c => c

def catches (ended : Bool) : List Catch → List Step
  | [] => []
  | c :: cs => catchClause ended c ++ catches ended cs
termination_by structural cs => cs

def finally? (ended : Bool) : Option (List Stmt) → List Step
  | some ss => [.newline, .write "finally", .newline] ++ braces (lines ended ss)
  | none => []
termination_by structural f => f

def lines (ended : Bool) : List Stmt → List Step
  | [] => []
  | s :: ss => .newline :: stmt ended s ++ lines ended ss
termination_by structural ss => ss

end

/-- The steps that write a whole tree. A block at the root is a bare sequence of statements. -/
def node (ended : Bool) : Node → List Step
  | .stmt (.block ss) => ss.flatMap fun s => stmt ended s ++ [.newline]
  | .stmt s => stmt ended s ++ [.newline]
  | .expr e => expr e

/-- Statements are terminated unless the layout says otherwise. -/
def render (layout : Layout) (n : Node) : String :=
  layOut layout (node (layout.terminate.getD true) n)

end Interlingua.CSharp
