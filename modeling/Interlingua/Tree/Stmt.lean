import Interlingua.Tree.Expr

namespace Interlingua

structure Parameter where
  /-- Absent when the source declares no type. -/
  typeName : Option String
  name : String
deriving DecidableEq

structure Attribute where
  name : String
  arguments : List Argument

structure Signature where
  name : String
  parameters : List Parameter
  modifiers : List String
  attributes : List Attribute

mutual

inductive Stmt where
  | expr (value : Expr)
  | block (body : List Stmt)
  | declare (typeName name : String) (initializer : Expr)
  | method (signature : Signature) (body : List Stmt)
  | conditional (condition : Expr) (body : Stmt) (rest : Else)
  | forLoop (initializer : Option Stmt) (condition step : Option Expr) (body : Stmt)
  | forEach (item : String) (iterable : Expr) (body : Stmt)
  | whileLoop (condition : Expr) (body : Stmt)
  | breakLoop
  | continueLoop
  | ret (value : Option Expr)
  | guarded (body : List Stmt) (catches : List Catch) (final : Option (List Stmt))

/-- What follows the body of a conditional. -/
inductive Else where
  | absent
  | elseIf (condition : Expr) (body : Stmt) (rest : Else)
  | block (body : List Stmt)

structure Catch where
  typeName : Option String
  body : List Stmt

end

instance : Inhabited Stmt := ⟨.breakLoop⟩

inductive Node where
  | stmt (s : Stmt)
  | expr (e : Expr)

namespace Stmt

def publicMethod (name : String) (parameters : List Parameter) (body : List Stmt) : Stmt :=
  method ⟨name, parameters, ["public"], []⟩ body

def statements : Stmt → List Stmt
  | block body => body
  | s => [s]

end Stmt

namespace Node

def stmt? : Node → Option Stmt
  | stmt s => some s
  | expr _ => none

/-- The expression at the root, also when it stands as a statement. -/
def expr? : Node → Option Expr
  | expr e => some e
  | stmt (.expr e) => some e
  | stmt _ => none

def toStmt : Node → Stmt
  | stmt s => s
  | expr e => .expr e

end Node

end Interlingua
